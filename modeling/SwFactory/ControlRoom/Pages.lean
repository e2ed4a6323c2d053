import SwFactory.Machine.Dicts
import SwFactory.Machine.Fallible
import SwFactory.Machine.Runs

/-!
# Reading a collection page by page

The server hands over a part of a collection for each request and may hand over
less than it was asked for.  The client walks the offset by the rows that really
came, and leaves the walk at the first of these: the rows it wants are there, a
page is empty, the total is reached, or `MAX_PAGES` pages have been read.  Only
the last one leaves a note behind.

Against a server that clamps the limit as it likes, the rows that have been read
are always the first rows of the collection, as many as the offset says.  A walk
that is not capped has met one of the three stops, and each of them says that
there is nothing left to read.

Source: `control.py`, `AirflowClient._paged`.
-/

namespace SwFactory
namespace ControlRoom

open Machine

/-! ## What the server sends -/

/-- A value that `json.loads` returns; of a float only its truth value matters here. -/
inductive Data
  | null
  | bool (b : Bool)
  | int (n : Int)
  | float (truth : Bool)
  | str (s : String)
  | list (items : List Data)
  | dict (entries : List (String × Data))

/-- A JSON object. -/
abbrev Row : Type :=
  Dict String Data

inductive Failure
  /-- `ControlError`: the request failed -/
  | control
  /-- `AttributeError`: the value has no `get` -/
  | attribute
  /-- `TypeError`: the value is not iterable -/
  | type

namespace Data

/-- The truth value of a value. -/
def truthy : Data → Bool
  | null => false
  | bool b => b
  | int n => n != 0
  | float truth => truth
  | str s => s != ""
  | list items => !items.isEmpty
  | dict entries => !entries.isEmpty

/-- `data or default` -/
def orElse (data default : Data) : Data :=
  if data.truthy then data else default

/-- `data.get(key)` -/
def get (key : String) : Data → Except Failure Data
  | dict entries => .ok ((Dict.get? entries key).getD .null)
  | _ => .error .attribute

/-- What a `for` over the value goes through. -/
def items : Data → Except Failure (List Data)
  | list items => .ok items
  | dict entries => .ok (entries.map (fun e => .str e.1))
  | str s => .ok (s.toList.map (fun c => .str (String.singleton c)))
  | _ => .error .type

/-- `isinstance(r, dict)` -/
def row? : Data → Option Row
  | dict entries => some entries
  | _ => none

/-- `isinstance(total, int) and offset >= total`; a truth value is an `int` too. -/
def reached (offset : Nat) : Data → Bool
  | int n => n ≤ offset
  | bool b => b.toNat ≤ offset
  | _ => false

end Data

/-! ## The client -/

def PAGE_LIMIT : Nat :=
  100

def MAX_PAGES : Nat :=
  100

/-- Collection path and the rows read before `MAX_PAGES` stopped the walk. -/
structure Client where
  truncated : Dict String Nat

/-- `self._api("GET", path, query=query)`, the answer to the request with this number. -/
abbrev Api : Type :=
  Nat → String → Dict String Data → Except Failure Data

/-- The variables of the loop. -/
structure Walk where
  rows : List Row
  offset : Nat
  pages : Nat

/-- `want is None or len(rows) < want` -/
def goesOn (want : Option Nat) (rows : List Row) : Bool :=
  want.all (fun n => decide (rows.length < n))

/-- How many rows the next request asks for. -/
def limitOf (want : Option Nat) (rows : List Row) : Nat :=
  match want with
  | none => PAGE_LIMIT
  | some n => min PAGE_LIMIT (n - rows.length)

/-- `[r for r in (data or {}).get(key) or [] if isinstance(r, dict)]` -/
def pageOf (key : String) (data : Data) : Except Failure (List Row) := do
  let listed ← (data.orElse (.dict [])).get key
  let items ← (listed.orElse (.list [])).items
  return items.filterMap Data.row?

/-- `{**(query or {}), "limit": limit, "offset": offset}` -/
def pageQuery (query : Dict String Data) (limit offset : Nat) : Dict String Data :=
  (query.assign "limit" (.int limit)).assign "offset" (.int offset)

/-- One request: the walk behind it, and whether it was the last one. -/
def readPage (api : Api) (path key : String) (query : Dict String Data) (want : Option Nat)
    (w : Walk) : Except Failure (Walk × Bool) := do
  let data ← api w.pages path (pageQuery query (limitOf want w.rows) w.offset)
  let page ← pageOf key data
  let next : Walk := ⟨w.rows ++ page, w.offset + page.length, w.pages + 1⟩
  if page.isEmpty then
    return (next, true)
  let total ← (data.orElse (.dict [])).get "total_entries"
  return (next, total.reached next.offset)

/-- One turn of the loop of `_paged`; it leaves with the rows and whether it was capped. -/
def pagedTurn (api : Api) (path key : String) (query : Dict String Data) (want : Option Nat)
    (w : Walk) : Turn Walk (Except Failure (Walk × Bool)) :=
  if goesOn want w.rows then
    if MAX_PAGES ≤ w.pages then
      .leave (.ok (w, true))
    else
      match readPage api path key query want w with
      | .error e => .leave (.error e)
      | .ok (next, true) => .leave (.ok (next, false))
      | .ok (next, false) => .again next
  else
    .leave (.ok (w, false))

/-- The note of a walk that was capped; a complete one retires an earlier note. -/
def Client.noted (client : Client) (path : String) (w : Walk) (capped : Bool) : Client :=
  if capped then
    { client with truncated := client.truncated.assign path w.rows.length }
  else
    { client with truncated := client.truncated.filter (fun e => decide (e.1 ≠ path)) }

/-- `_paged`, where the loop may make as many turns as there is fuel. -/
def paged (fuel : Nat) (api : Api) (client : Client) (path key : String)
    (query : Dict String Data) (want : Option Nat) :
    Option (Except Failure (List Row × Client)) :=
  (loop (pagedTurn api path key query want) fuel ⟨[], 0, 0⟩).map fun result =>
    result.map fun (w, capped) => (w.rows, client.noted path w capped)

/-! ## The server -/

/--
A collection that does not change.  Each request has its own clamp of the limit,
and the total is told or not.
-/
structure Server where
  collection : List Row
  clamp : Nat → Nat
  clamp_pos : ∀ i, 1 ≤ clamp i
  tellsTotal : Nat → Bool

/-- `total_entries`, the true total or null. -/
def Server.totalEntries (server : Server) (i : Nat) : Data :=
  if server.tellsTotal i then .int server.collection.length else .null

/-- The rows from the offset on, as many as asked for, but no more than the clamp allows. -/
def Server.slice (server : Server) (i limit offset : Nat) : List Row :=
  (server.collection.drop offset).take (min limit (server.clamp i))

/-- The answer to a request for a page, with the rows under the key. -/
def Server.api (server : Server) (key : String) : Api :=
  fun i _ query =>
    match Dict.get? query "limit", Dict.get? query "offset" with
    | some (.int limit), some (.int offset) =>
        .ok (.dict [(key, .list ((server.slice i limit.toNat offset.toNat).map .dict)),
          ("total_entries", server.totalEntries i)])
    | _, _ => .error .control

/-! ## A paged read loses no rows -/

variable {server : Server}
variable {path key : String}
variable {query : Dict String Data}
variable {want : Option Nat}

/-- What a reader of the collection wants of it. -/
def wanted (want : Option Nat) (collection : List Row) : List Row :=
  match want with
  | none => collection
  | some n => collection.take n

/-! ## One request -/

theorem pageQuery_limit (query : Dict String Data) (limit offset : Nat) :
    Dict.get? (pageQuery query limit offset) "limit" = some (.int limit) := by
  rw [pageQuery, Dict.get?_assign, if_neg (by decide), Dict.get?_assign, if_pos rfl]

theorem pageQuery_offset (query : Dict String Data) (limit offset : Nat) :
    Dict.get? (pageQuery query limit offset) "offset" = some (.int offset) := by
  rw [pageQuery, Dict.get?_assign, if_pos rfl]

theorem filterMap_row?_dict (rows : List Row) :
    (rows.map Data.dict).filterMap Data.row? = rows := by
  induction rows with
  | nil => rfl
  | cons row rest ih => rw [List.map_cons, List.filterMap_cons, Data.row?, ih]

theorem orElse_list (items : List Data) :
    (Data.list items).orElse (.list []) = .list items := by
  cases items <;> rfl

/-- The objects of an answer are its rows. -/
theorem pageOf_answer (key : String) (rows : List Row) (total : Data) :
    pageOf key (.dict [(key, .list (rows.map .dict)), ("total_entries", total)]) = .ok rows := by
  have hlisted : (Data.dict [(key, .list (rows.map .dict)), ("total_entries", total)]).get key =
      .ok (.list (rows.map .dict)) := by
    simp [Data.get, Dict.get?]
  rw [pageOf, Data.orElse, if_pos (by rfl), hlisted, ok_bind, orElse_list, Data.items, ok_bind,
    filterMap_row?_dict]
  rfl

/-- What the answer says of the total: the total, or nothing that ends a walk. -/
theorem get_total (server : Server) (key : String) (i : Nat) (items : List Data) :
    ∃ total, (Data.dict [(key, .list items), ("total_entries", server.totalEntries i)]).get
        "total_entries" = .ok total ∧
      ∀ offset, total.reached offset = true → server.collection.length ≤ offset := by
  by_cases hkey : key = "total_entries"
  · exact ⟨.list items, by simp [Data.get, Dict.get?, hkey], by rintro offset ⟨⟩⟩
  · refine ⟨server.totalEntries i, by simp [Data.get, Dict.get?, hkey], ?_⟩
    intro offset h
    unfold Server.totalEntries at h
    split at h
    · simpa [Data.reached] using h
    · cases h

/-- The walk behind the page that the server sends next. -/
def Walk.next (server : Server) (want : Option Nat) (w : Walk) : Walk :=
  let page := server.slice w.pages (limitOf want w.rows) w.offset
  ⟨w.rows ++ page, w.offset + page.length, w.pages + 1⟩

/-- **One request.**  It is the last one only behind an empty page or the last row. -/
theorem readPage_api (server : Server) (path key : String) (query : Dict String Data)
    (want : Option Nat) (w : Walk) :
    ∃ last, readPage (server.api key) path key query want w = .ok (w.next server want, last) ∧
      (last = true →
        server.slice w.pages (limitOf want w.rows) w.offset = [] ∨
          server.collection.length ≤ (w.next server want).offset) := by
  obtain ⟨total, htotal, hreached⟩ := get_total server key w.pages
    ((server.slice w.pages (limitOf want w.rows) w.offset).map .dict)
  have hanswer : server.api key w.pages path (pageQuery query (limitOf want w.rows) w.offset) =
      .ok (.dict [(key, .list ((server.slice w.pages (limitOf want w.rows) w.offset).map .dict)),
        ("total_entries", server.totalEntries w.pages)]) := by
    rw [Server.api, pageQuery_limit, pageQuery_offset]
    rfl
  rw [readPage, hanswer, ok_bind, pageOf_answer, ok_bind]
  by_cases hempty : server.slice w.pages (limitOf want w.rows) w.offset = []
  · refine ⟨true, ?_, fun _ => .inl hempty⟩
    rw [if_pos (List.isEmpty_iff.mpr hempty)]
    rfl
  · refine ⟨total.reached (w.next server want).offset, ?_, fun h => .inr (hreached _ h)⟩
    rw [if_neg (fun h => hempty (List.isEmpty_iff.mp h)), Data.orElse, if_pos (by rfl), htotal]
    rfl

/-! ## The walk -/

/-- The rows read are the first rows of the collection, and no more than wanted. -/
structure Reading (server : Server) (want : Option Nat) (w : Walk) : Prop where
  rows : w.rows = server.collection.take w.offset
  inside : w.offset ≤ server.collection.length
  within : ∀ n ∈ want, w.offset ≤ n

theorem Reading.length {w : Walk} (h : Reading server want w) : w.rows.length = w.offset := by
  rw [h.rows, List.length_take, Nat.min_eq_left h.inside]

theorem reading_start (server : Server) (want : Option Nat) :
    Reading server want ⟨[], 0, 0⟩ where
  rows := rfl
  inside := Nat.zero_le _
  within := fun _ _ => Nat.zero_le _

/-- What is left to read, as long as the loop goes on, is not asked for in vain. -/
theorem limitOf_pos {w : Walk} (h : goesOn want w.rows = true) : 1 ≤ limitOf want w.rows := by
  cases want with
  | none => exact Nat.le_add_left 1 99
  | some n =>
      have hlt : w.rows.length < n := by simpa [goesOn] using h
      simp only [limitOf, PAGE_LIMIT]
      omega

theorem limitOf_le {w : Walk} {n : Nat} (hwant : n ∈ want) :
    limitOf want w.rows ≤ n - w.rows.length := by
  cases hwant
  exact Nat.min_le_right _ _

theorem length_slice_le (server : Server) (i limit offset : Nat) :
    (server.slice i limit offset).length ≤ limit := by
  rw [Server.slice, List.length_take]
  omega

/-- **One page.**  A page is the rows that follow on those that were read. -/
theorem Reading.next {w : Walk} (h : Reading server want w) :
    Reading server want (w.next server want) := by
  have hlength := length_slice_le server w.pages (limitOf want w.rows) w.offset
  refine ⟨?_, ?_, ?_⟩
  · simp only [Walk.next, h.rows, Server.slice, List.take_add, List.length_take, List.length_drop]
    congr 1
    rw [List.take_eq_take_iff, List.length_drop]
    omega
  · simp only [Walk.next, Server.slice, List.length_take, List.length_drop]
    have := h.inside
    omega
  · intro n hn
    have hlimit := limitOf_le (w := w) hn
    have hwithin := h.within n hn
    have hrows := h.length
    simp only [Walk.next]
    omega

/-- An empty page stands behind the last row. -/
theorem Reading.exhausted {w : Walk} (h : Reading server want w)
    (hgoes : goesOn want w.rows = true)
    (hempty : server.slice w.pages (limitOf want w.rows) w.offset = []) :
    w.offset = server.collection.length := by
  have hpos := limitOf_pos hgoes
  have hclamp := server.clamp_pos w.pages
  have hinside := h.inside
  have hlength := congrArg List.length hempty
  rw [Server.slice, List.length_take, List.length_drop, List.length_nil] at hlength
  omega

/-- Behind the last row nothing is left to want. -/
theorem Reading.complete {w : Walk} (h : Reading server want w)
    (hend : w.offset = server.collection.length) :
    w.rows = wanted want server.collection := by
  rw [h.rows, hend, List.take_length]
  cases want with
  | none => rfl
  | some n =>
      have hwithin := h.within n rfl
      exact (List.take_of_length_le (by omega)).symm

/-- A walk that has what it wants has the first rows. -/
theorem Reading.satisfied {w : Walk} (h : Reading server want w)
    (hstops : goesOn want w.rows = false) :
    w.rows = wanted want server.collection := by
  cases want with
  | none => cases hstops
  | some n =>
      have hle : n ≤ w.rows.length := by simpa [goesOn] using hstops
      have hwithin := h.within n rfl
      have hoffset : w.offset = n := by
        rw [h.length] at hle
        omega
      rw [h.rows, hoffset]
      rfl

/-- What a turn that leaves has in hand. -/
def Left (server : Server) (want : Option Nat) : Except Failure (Walk × Bool) → Prop
  | .ok (w, capped) =>
      Reading server want w ∧ (capped = false → w.rows = wanted want server.collection)
  | .error _ => False

/-- **One turn** goes on behind the next page, or leaves with the rows it was to read. -/
theorem pagedTurn_api {w : Walk} (h : Reading server want w) :
    (∃ w', pagedTurn (server.api key) path key query want w = .again w' ∧
        Reading server want w' ∧ MAX_PAGES - w'.pages < MAX_PAGES - w.pages) ∨
      ∃ r, pagedTurn (server.api key) path key query want w = .leave r ∧ Left server want r := by
  unfold pagedTurn
  cases hgoes : goesOn want w.rows with
  | false =>
      exact .inr ⟨_, rfl, h, fun _ => h.satisfied hgoes⟩
  | true =>
      by_cases hpages : MAX_PAGES ≤ w.pages
      · rw [if_pos rfl, if_pos hpages]
        exact .inr ⟨_, rfl, h, by rintro ⟨⟩⟩
      · rw [if_pos rfl, if_neg hpages]
        obtain ⟨last, hread, hlast⟩ := readPage_api server path key query want w
        rw [hread]
        have hnext := h.next
        cases last with
        | false =>
            exact .inl ⟨_, rfl, hnext, by simp only [Walk.next]; omega⟩
        | true =>
            refine .inr ⟨_, rfl, hnext, fun _ => hnext.complete ?_⟩
            rcases hlast rfl with hempty | htotal
            · have hend := h.exhausted hgoes hempty
              simpa [Walk.next, hempty] using hend
            · exact Nat.le_antisymm hnext.inside htotal

/-! ## The result -/

/-- The note under a path behind a walk: none behind a complete one. -/
theorem get?_noted (client : Client) (path : String) (w : Walk) (capped : Bool) :
    (client.noted path w capped).truncated.get? path =
      if capped then some w.rows.length else none := by
  cases capped with
  | true =>
      simp only [Client.noted, if_true, Dict.get?_assign]
  | false =>
      have hfilter := Dict.get?_filter client.truncated (fun k => decide (k ≠ path)) path
      rw [Client.noted, if_neg Bool.false_ne_true, hfilter]
      simp

/--
**Paged reads lose no rows.**  However the server clamps each request, and
whether or not it tells the true total, a read ends within `MAX_PAGES` requests.
It returns the first rows of the collection, in their order, and if no note is
left under the path these are all that were wanted.
-/
theorem paged_reads
    (server : Server)
    (client : Client)
    (path key : String)
    (query : Dict String Data)
    (want : Option Nat)
    {fuel : Nat}
    (hfuel : MAX_PAGES < fuel) :
    ∃ rows client',
      paged fuel (server.api key) client path key query want = some (.ok (rows, client')) ∧
        rows <+: server.collection ∧
        (client'.truncated.get? path = none → rows = wanted want server.collection) := by
  obtain ⟨r, hloop, hleft⟩ := loop_spec (fun w : Walk => MAX_PAGES - w.pages)
    (fun _ h => pagedTurn_api h)
    (reading_start server want) hfuel
  rcases r with _ | ⟨w, capped⟩
  · exact hleft.elim
  · obtain ⟨hreading, hcomplete⟩ := hleft
    refine ⟨w.rows, client.noted path w capped, by rw [paged, hloop]; rfl, ?_, ?_⟩
    · rw [hreading.rows]
      exact List.take_prefix _ _
    · intro hnote
      rw [get?_noted] at hnote
      cases capped with
      | true => cases hnote
      | false => exact hcomplete rfl

/-- Three runs, a server that hands over two rows at most and tells no total. -/
def sampleServer : Server where
  collection := ["a", "b", "c"].map (fun id => [("dag_id", .str id)])
  clamp := fun _ => 2
  clamp_pos := fun _ => by decide
  tellsTotal := fun _ => false

theorem paged_reads_clamped :
    ∃ rows client',
      paged 101 (sampleServer.api "dags") ⟨[]⟩ "/dags" "dags" [] none =
          some (.ok (rows, client')) ∧
        rows <+: sampleServer.collection ∧
        (client'.truncated.get? "/dags" = none → rows = wanted none sampleServer.collection) :=
  paged_reads sampleServer ⟨[]⟩ "/dags" "dags" [] none (by decide)

example : paged 101 (sampleServer.api "dags") ⟨[("/dags", 7)]⟩ "/dags" "dags" [] none =
    some (.ok (sampleServer.collection, ⟨[]⟩)) := by
  rfl

end ControlRoom
end SwFactory
