import SwFactory.Inbox.Store
import Mathlib.Data.List.Induction

/-!
# The webhook inbox: what survives every order of calls

`step_cases` is everything one call can do: admit a new id, or change each row
by one of the moves of `RowStep`.  The invariant follows row by row: a row
carries the identity its id was admitted with, counts the claims since it was
last reopened, and holds the token of its latest claim while it holds any.
-/

namespace SwFactory
namespace Inbox

open Text Machine

variable {C : Type}

/-- The delivery an event is about. -/
def Event.deliveryId : Event C → String
  | admitted id _ => id
  | claimed id _ => id
  | reopened id => id

/-- What happened to one delivery, latest first. -/
def history (id : String) (log : List (Event C)) : List (Event C) :=
  log.filter (fun e => e.deliveryId = id)

/-- The receipt an admission recorded. -/
def Event.identity? : Event C → Option (Identity C)
  | admitted _ identity => some identity
  | _ => none

/-- The token a claim was given. -/
def Event.token? : Event C → Option String
  | claimed _ token => some token
  | _ => none

def Event.isReopened : Event C → Bool
  | reopened _ => true
  | _ => false

/-- The token of the latest claim. -/
def latestClaim (events : List (Event C)) : Option String :=
  (events.filterMap Event.token?).head?

/-- The claims since the delivery was last reopened. -/
def claimsSince (events : List (Event C)) : Nat :=
  (events.takeWhile (fun e => !e.isReopened)).countP (fun e => e.token?.isSome)

/-- All tokens given out. -/
def tokens (log : List (Event C)) : List String :=
  log.filterMap Event.token?

/-- The moves of one row, with the events they record about it. -/
inductive RowStep (op : Op C) :
    List (Event C) → Delivery C → Delivery C → Prop
  | same (row : Delivery C) : RowStep op [] row row
  | exhaust (args : Claim) (row : Delivery C)
      (hop : op = .claim args)
      (hspent : args.exhausts row = true) :
      RowStep op [] row (args.exhaust row)
  | claim (args : Claim) (row : Delivery C)
      (hop : op = .claim args)
      (hopen : row.state = .pending ∨ row.state = .dispatching)
      (hroom : (row.attempts : Int) < args.maxAttempts) :
      RowStep op [.claimed row.deliveryId args.token] row (args.take row)
  | complete (args : Complete C) (row : Delivery C)
      (hop : op = .complete args)
      (hholds : args.delivery.holds row = true) :
      RowStep op [] row (args.apply row)
  | fail (args : Fail C) (row : Delivery C)
      (hop : op = .fail args)
      (hholds : args.delivery.holds row = true) :
      RowStep op [] row (args.apply row)
  | retry (now : Time) (row : Delivery C)
      (hop : op = .retry row.deliveryId now)
      (hdead : row.state = .dead) :
      RowStep op [.reopened row.deliveryId] row (reopen now row)

/-- Every row of the table moves, and the log grows by what the moves record. -/
structure Moves (op : Op C) (store after : Store C) : Prop where
  moved : ∃ (g : Delivery C → Delivery C) (events : List (Event C)),
    after = ⟨store.rows.map g, events ++ store.log⟩ ∧
      (∀ row ∈ store.rows, RowStep op (history row.deliveryId events) row (g row)) ∧
      (∀ e ∈ events, ∃ row ∈ store.rows, row.deliveryId = e.deliveryId)

/-- The inbox takes a new id. -/
structure Admits (hash : Hashing) (op : Op C) (store after : Store C) : Prop where
  admitted : ∃ args, op = .enqueue args ∧
    store.row args.deliveryId = none ∧
      store.rows.countP Delivery.isOpen < args.maxPending ∧
        after = ⟨store.rows ++ [args.fresh hash],
          .admitted args.deliveryId (args.identity hash) :: store.log⟩

section Steps

theorem Moves.refl (op : Op C) (store : Store C) : Moves op store store := by
  constructor
  refine ⟨id, [], ?_, ?_, ?_⟩
  · rw [List.map_id, List.nil_append]
  · intro row _
    exact .same row
  · rintro e ⟨⟩

/-- An update that changes some rows and records nothing. -/
theorem Moves.of_guard {op : Op C} {store : Store C}
    (guard : Delivery C → Bool) (change : Delivery C → Delivery C)
    (hchange : ∀ row, guard row = true → RowStep op [] row (change row)) :
    Moves op store
      { store with
        rows := store.rows.map (fun row =>
          if guard row then change row else row) } := by
  constructor
  refine ⟨_, [], rfl, ?_, ?_⟩
  · intro row _
    change RowStep op [] row (if guard row then change row else row)
    split
    · rename_i hguard
      exact hchange row hguard
    · exact .same row
  · rintro e ⟨⟩

theorem Claim.exhaust_deliveryId (args : Claim) (row : Delivery C) :
    (args.exhaust row).deliveryId = row.deliveryId := by
  unfold Claim.exhaust
  split <;> rfl

theorem Claim.exhaust_step (args : Claim) (row : Delivery C) :
    RowStep (.claim args) [] row (args.exhaust row) := by
  by_cases hspent : args.exhausts row
  · exact .exhaust args row rfl hspent
  · have hsame : args.exhaust row = row := if_neg hspent
    rw [hsame]
    exact .same row

/-- A row that is due behind the first `UPDATE` was not ended by it. -/
theorem Claim.due_exhaust {args : Claim} {row : Delivery C}
    (h : args.due (args.exhaust row) = true) :
    args.exhaust row = row ∧
      (row.state = .pending ∨ row.state = .dispatching) ∧
        (row.attempts : Int) < args.maxAttempts := by
  have hnot : ¬args.exhausts row = true := by
    intro hspent
    simp [Claim.exhaust, hspent, Claim.due, Delivery.expired] at h
  have hsame : args.exhaust row = row := if_neg hnot
  rw [hsame] at h
  simp only [Claim.due, Delivery.expired, Bool.or_eq_true, Bool.and_eq_true,
    decide_eq_true_eq] at h
  simp only [Claim.exhausts, Delivery.expired, Bool.and_eq_true,
    Bool.or_eq_true, decide_eq_true_eq, not_and, not_or] at hnot
  refine ⟨hsame, ?_, ?_⟩
  · rcases h with ⟨hstate, -⟩ | ⟨hstate, -⟩
    · exact Or.inl hstate
    · exact Or.inr hstate
  · by_contra hspent
    obtain ⟨hpending, hexpired⟩ := hnot (by omega)
    rcases h with ⟨hstate, -⟩ | ⟨hstate, hlease⟩
    · exact hpending hstate
    · exact hexpired hstate hlease

theorem Claim.select_mem {args : Claim} {rows : List (Delivery C)}
    {row : Delivery C} (h : args.select rows = some row) :
    row ∈ rows ∧ args.due row = true := by
  have hmem := List.mem_of_mem_head? h
  rw [List.mem_mergeSort, List.mem_filter] at hmem
  exact hmem

/-- What `claim` does to the rows and to the log. -/
theorem Store.claim_moves {store : Store C}
    (hkeyed : Keyed Delivery.deliveryId store.rows) (args : Claim) :
    Moves (.claim args) store (store.claim args).2 := by
  unfold Store.claim
  split
  · exact Moves.refl _ store
  · dsimp only
    split
    · constructor
      refine ⟨args.exhaust, [], rfl, ?_, ?_⟩
      · intro row _
        exact args.exhaust_step row
      · rintro e ⟨⟩
    · rename_i chosen hchosen
      obtain ⟨hmem, hdue⟩ := Claim.select_mem hchosen
      obtain ⟨origin, horigin, rfl⟩ := List.mem_map.mp hmem
      obtain ⟨hsame, hopen, hroom⟩ := Claim.due_exhaust hdue
      rw [hsame] at hchosen ⊢
      constructor
      refine ⟨fun row => if row.deliveryId = origin.deliveryId then
          args.take (args.exhaust row) else args.exhaust row,
        [.claimed origin.deliveryId args.token], ?_, ?_, ?_⟩
      · simp only [updateRows, List.map_map, List.singleton_append,
          Store.mk.injEq, and_true]
        refine List.map_congr_left fun row _ => ?_
        simp only [Function.comp_apply, Claim.exhaust_deliveryId]
      · intro row hrow
        by_cases hid : row.deliveryId = origin.deliveryId
        · obtain rfl := hkeyed.eq hrow horigin hid
          simp only [history, Event.deliveryId, List.filter_cons, List.filter_nil,
            decide_true, if_true, hsame]
          exact .claim args row rfl hopen hroom
        · have hother : ¬origin.deliveryId = row.deliveryId :=
            fun h => hid h.symm
          simp only [history, Event.deliveryId, List.filter_cons, List.filter_nil,
            hother, decide_false, if_neg hid, Bool.false_eq_true, if_false]
          exact args.exhaust_step row
      · intro e he
        rw [List.mem_singleton] at he
        exact ⟨origin, horigin, by rw [he]; rfl⟩

/-- What `retry` does to the rows and to the log. -/
theorem Store.retry_moves {store : Store C}
    (hkeyed : Keyed Delivery.deliveryId store.rows)
    (id : String) (now : Time) :
    Moves (.retry id now) store (store.retry id now).2 := by
  unfold Store.retry
  split
  · exact Moves.refl _ store
  · rename_i origin hfound
    obtain ⟨horigin, rfl⟩ := lookup_some hfound
    split
    · exact Moves.refl _ store
    · rename_i hdead
      constructor
      refine ⟨_, [.reopened origin.deliveryId], rfl, ?_, ?_⟩
      · intro row hrow
        by_cases hid : row.deliveryId = origin.deliveryId
        · obtain rfl := hkeyed.eq hrow horigin hid
          simp only [history, Event.deliveryId, List.filter_cons, List.filter_nil,
            decide_true, if_true]
          exact .retry now row rfl (not_not.mp hdead)
        · have hother : ¬origin.deliveryId = row.deliveryId :=
            fun h => hid h.symm
          simp only [history, Event.deliveryId, List.filter_cons, List.filter_nil,
            hother, decide_false, if_neg hid, Bool.false_eq_true, if_false]
          exact .same row
      · intro e he
        rw [List.mem_singleton] at he
        exact ⟨origin, horigin, by rw [he]; rfl⟩

/-- **Everything one call can do.** -/
theorem step_cases (hash : Hashing) {store : Store C}
    (hkeyed : Keyed Delivery.deliveryId store.rows) (op : Op C) :
    Admits hash op store (step hash store op) ∨
      Moves op store (step hash store op) := by
  cases op with
  | enqueue args =>
      change Admits hash _ store (store.enqueue hash args).2 ∨
        Moves _ store (store.enqueue hash args).2
      unfold Store.enqueue
      split
      · exact Or.inr (Moves.refl _ store)
      · split
        · split
          · exact Or.inr (Moves.refl _ store)
          · exact Or.inr (Moves.refl _ store)
        · rename_i hnone
          split
          · exact Or.inr (Moves.refl _ store)
          · rename_i hroom
            exact Or.inl ⟨args, rfl, hnone, by omega, rfl⟩
  | claim args => exact Or.inr (Store.claim_moves hkeyed args)
  | complete args =>
      exact Or.inr (Moves.of_guard _ _ (fun row => .complete args row rfl))
  | fail args =>
      exact Or.inr (Moves.of_guard _ _ (fun row => .fail args row rfl))
  | retry id now => exact Or.inr (Store.retry_moves hkeyed id now)

end Steps

section Invariant

/-- What the history of a delivery says about its row. -/
structure RowInv (events : List (Event C)) (row : Delivery C) : Prop where
  admitted : events.filterMap Event.identity? = [row.identity]
  attempts : row.attempts = claimsSince events
  holder : ∀ token, row.leaseToken = some token → latestClaim events = some token

/-- No id twice, every row fits its history, and an id without row has none. -/
structure Inv (store : Store C) : Prop where
  keyed : Keyed Delivery.deliveryId store.rows
  rows : ∀ row ∈ store.rows, RowInv (history row.deliveryId store.log) row
  unknown : ∀ id, store.row id = none → history id store.log = []

theorem history_append (id : String) (new old : List (Event C)) :
    history id (new ++ old) = history id new ++ history id old :=
  List.filter_append ..

theorem history_eq_nil {id : String} {events : List (Event C)}
    (h : ∀ e ∈ events, e.deliveryId ≠ id) : history id events = [] := by
  rw [history, List.filter_eq_nil_iff]
  intro e he
  simpa using h e he

theorem history_cons_of_eq (id : String) {e : Event C} {log : List (Event C)}
    (h : e.deliveryId = id) : history id (e :: log) = e :: history id log :=
  List.filter_cons_of_pos (by simpa using h)

theorem history_cons_of_ne {id : String} {e : Event C} {log : List (Event C)}
    (h : e.deliveryId ≠ id) : history id (e :: log) = history id log :=
  List.filter_cons_of_neg (by simpa using h)

theorem RowStep.deliveryId_eq {op : Op C} {events : List (Event C)}
    {row row' : Delivery C} (h : RowStep op events row row') :
    row'.deliveryId = row.deliveryId := by
  cases h with
  | exhaust args _ hop hspent => exact args.exhaust_deliveryId row
  | _ => rfl

theorem RowStep.identity_eq {op : Op C} {events : List (Event C)}
    {row row' : Delivery C} (h : RowStep op events row row') :
    row'.identity = row.identity := by
  cases h with
  | exhaust args _ hop hspent =>
      unfold Claim.exhaust
      split <;> rfl
  | _ => rfl

/-- A move keeps what the history says about the row. -/
theorem RowStep.rowInv {op : Op C} {new : List (Event C)}
    {row row' : Delivery C} (h : RowStep op new row row')
    {old : List (Event C)} (hrow : RowInv old row) :
    RowInv (new ++ old) row' := by
  cases h with
  | same => exact hrow
  | exhaust args _ hop hspent =>
      have hspent' : args.exhaust row =
          { row with
            state := .dead
            leaseToken := none
            leaseUntil := 0
            updatedAt := args.now
            lastError := some "dispatch_attempts_exhausted" } :=
        if_pos hspent
      rw [hspent']
      exact ⟨hrow.admitted, hrow.attempts, by rintro token ⟨⟩⟩
  | claim args _ hop hopen hroom =>
      refine ⟨hrow.admitted, ?_, ?_⟩
      · change row.attempts + 1 = _
        rw [hrow.attempts]
        simp [claimsSince, Event.isReopened, Event.token?]
      · rintro token ⟨⟩
        rfl
  | complete args _ hop hholds =>
      exact ⟨hrow.admitted, hrow.attempts, by rintro token ⟨⟩⟩
  | fail args _ hop hholds =>
      exact ⟨hrow.admitted, hrow.attempts, by rintro token ⟨⟩⟩
  | retry now _ hop hdead =>
      exact ⟨hrow.admitted, rfl, by rintro token ⟨⟩⟩

/-- The rows of a moved table. -/
theorem Moves.row_of_mem {op : Op C} {store after : Store C}
    (h : Moves op store after) {row' : Delivery C} (hrow' : row' ∈ after.rows) :
    ∃ row ∈ store.rows, ∃ new,
      history row.deliveryId after.log = new ++ history row.deliveryId store.log ∧
        RowStep op new row row' := by
  obtain ⟨g, events, rfl, hg, -⟩ := h.moved
  obtain ⟨row, hrow, rfl⟩ := List.mem_map.mp hrow'
  exact ⟨row, hrow, _, history_append _ _ _, hg row hrow⟩

/-- Every row has its successor in a moved table. -/
theorem Moves.mem_of_row {op : Op C} {store after : Store C}
    (h : Moves op store after) {row : Delivery C} (hrow : row ∈ store.rows) :
    ∃ row' ∈ after.rows, ∃ new,
      history row.deliveryId after.log = new ++ history row.deliveryId store.log ∧
        RowStep op new row row' := by
  obtain ⟨g, events, rfl, hg, -⟩ := h.moved
  exact ⟨g row, List.mem_map_of_mem hrow, _, history_append _ _ _, hg row hrow⟩

/-- A move changes no key. -/
theorem Moves.ids_eq {op : Op C} {store after : Store C}
    (h : Moves op store after) :
    after.rows.map Delivery.deliveryId = store.rows.map Delivery.deliveryId := by
  obtain ⟨g, events, rfl, hg, -⟩ := h.moved
  rw [List.map_map]
  exact List.map_congr_left fun row hrow => (hg row hrow).deliveryId_eq

theorem Store.row_eq_none_iff {store : Store C} {id : String} :
    store.row id = none ↔ id ∉ store.rows.map Delivery.deliveryId := by
  simp [Store.row, lookup, List.find?_eq_none]

theorem Moves.inv {op : Op C} {store after : Store C}
    (h : Moves op store after) (hinv : Inv store) : Inv after := by
  constructor
  · rw [Keyed, h.ids_eq]
    exact hinv.keyed
  · intro row' hrow'
    obtain ⟨row, hrow, new, hlog, hstep⟩ := h.row_of_mem hrow'
    rw [hstep.deliveryId_eq, hlog]
    exact hstep.rowInv (hinv.rows row hrow)
  · intro id hnone
    rw [Store.row_eq_none_iff, h.ids_eq, ← Store.row_eq_none_iff] at hnone
    obtain ⟨g, events, rfl, -, hevents⟩ := h.moved
    rw [history_append, hinv.unknown id hnone, List.append_nil]
    apply history_eq_nil
    intro e he hid
    obtain ⟨row, hrow, hkey⟩ := hevents e he
    rw [Store.row_eq_none_iff] at hnone
    exact hnone (List.mem_map.mpr ⟨row, hrow, hkey.trans hid⟩)

theorem Admits.inv {hash : Hashing} {op : Op C} {store after : Store C}
    (h : Admits hash op store after) (hinv : Inv store) : Inv after := by
  obtain ⟨args, rfl, hnone, -, rfl⟩ := h.admitted
  have hfresh := Store.row_eq_none_iff.mp hnone
  constructor
  · rw [Keyed, List.map_append, List.nodup_append']
    refine ⟨hinv.keyed, List.nodup_singleton _, ?_⟩
    intro id hid hnew
    rw [List.map_singleton, List.mem_singleton] at hnew
    subst hnew
    exact hfresh hid
  · intro row hrow
    rcases List.mem_append.mp hrow with hold | hnew
    · have hne : args.deliveryId ≠ row.deliveryId := by
        intro hid
        exact hfresh (hid ▸ List.mem_map_of_mem hold)
      change RowInv (history row.deliveryId (_ :: store.log)) row
      rw [history_cons_of_ne (e := .admitted _ _) hne]
      exact hinv.rows row hold
    · rw [List.mem_singleton] at hnew
      subst hnew
      change RowInv (history args.deliveryId (_ :: store.log)) _
      rw [history_cons_of_eq args.deliveryId (e := .admitted _ _) rfl,
        hinv.unknown _ hnone]
      exact ⟨rfl, rfl, by rintro token ⟨⟩⟩
  · intro id hid
    rw [Store.row_eq_none_iff, List.map_append, List.mem_append, not_or] at hid
    have hne : args.deliveryId ≠ id := by
      intro heq
      exact hid.2 (heq ▸ List.mem_singleton_self _)
    change history id (_ :: store.log) = []
    rw [history_cons_of_ne (e := .admitted _ _) hne]
    exact hinv.unknown id (Store.row_eq_none_iff.mpr hid.1)

theorem empty_inv : Inv (empty : Store C) := by
  constructor
  · exact List.nodup_nil
  · rintro row ⟨⟩
  · intro id _
    rfl

theorem step_inv (hash : Hashing) {store : Store C} (hinv : Inv store)
    (op : Op C) : Inv (step hash store op) := by
  rcases step_cases hash hinv.keyed op with hadmits | hmoves
  · exact hadmits.inv hinv
  · exact hmoves.inv hinv

/-- The inbox after some calls. -/
def run (hash : Hashing) (ops : List (Op C)) : Store C :=
  runFrom (step hash) empty ops

theorem run_inv (hash : Hashing) (ops : List (Op C)) : Inv (run hash ops) := by
  apply Reachable.invariant empty_inv (fun store op h => step_inv hash h op)
  exact reachable_runFrom empty ops

end Invariant

section Runs

/-- A dispatched row does not move. -/
theorem RowStep.of_dispatched {op : Op C} {events : List (Event C)}
    {row row' : Delivery C} (h : RowStep op events row row')
    (hrow : row.state = .dispatched) : row' = row := by
  cases h with
  | same => rfl
  | exhaust args _ hop hspent =>
      simp [Claim.exhausts, Delivery.expired, hrow] at hspent
  | claim args _ hop hopen hroom => simp [hrow] at hopen
  | complete args _ hop hholds => simp [Delivery.holds, hrow] at hholds
  | fail args _ hop hholds => simp [Delivery.holds, hrow] at hholds
  | retry now _ hop hdead => simp [hrow] at hdead

/-- Only a claim raises the number of attempts, and not past its own limit. -/
theorem RowStep.attempts_le {op : Op C} {events : List (Event C)}
    {row row' : Delivery C} (h : RowStep op events row row') {bound : Nat}
    (hbound : ∀ args, op = .claim args → args.maxAttempts ≤ bound)
    (hrow : row.attempts ≤ bound) : row'.attempts ≤ bound := by
  cases h with
  | same => exact hrow
  | exhaust args _ hop hspent =>
      unfold Claim.exhaust
      split
      · exact hrow
      · exact hrow
  | claim args _ hop hopen hroom =>
      have := hbound args hop
      change row.attempts + 1 ≤ bound
      omega
  | complete args _ hop hholds => exact hrow
  | fail args _ hop hholds => exact hrow
  | retry now _ hop hdead => exact Nat.zero_le _

/-- No move opens a delivery again that was handed over. -/
theorem RowStep.isOpen_le {op : Op C} {events : List (Event C)}
    {row row' : Delivery C} (h : RowStep op events row row')
    (hopen : row'.isOpen = true) : row.isOpen = true := by
  by_contra hclosed
  have hstate : row.state = .dispatched := by
    simpa [Delivery.isOpen] using hclosed
  rw [h.of_dispatched hstate] at hopen
  exact hclosed hopen

/-- A table of moved rows holds no more open deliveries. -/
theorem Moves.countP_isOpen_le {op : Op C} {store after : Store C}
    (h : Moves op store after) :
    after.rows.countP Delivery.isOpen ≤ store.rows.countP Delivery.isOpen := by
  obtain ⟨g, events, rfl, hg, -⟩ := h.moved
  rw [List.countP_map]
  exact List.countP_mono_left fun row hrow hopen => (hg row hrow).isOpen_le hopen

/-- A row is kept: its id and its receipt, and all of it once dispatched. -/
structure Kept (row row' : Delivery C) : Prop where
  deliveryId : row'.deliveryId = row.deliveryId
  identity : row'.identity = row.identity
  frozen : row.state = .dispatched → row' = row

/-- The row of a completion or a failure. -/
def Op.presents : Op C → Option (Delivery C)
  | .complete args => some args.delivery
  | .fail args => some args.delivery
  | _ => none

/-- `uuid4` gives a claim a token that was never given out. -/
def FreshToken (store : Store C) (op : Op C) : Prop :=
  ∀ args, op = .claim args → args.token ∉ tokens store.log

theorem run_concat (hash : Hashing) (ops : List (Op C)) (op : Op C) :
    run hash (ops ++ [op]) = step hash (run hash ops) op :=
  runFrom_append (step hash) empty ops [op]

/-- One call keeps every row. -/
theorem step_kept (hash : Hashing) {store : Store C} (hinv : Inv store)
    (op : Op C) {row : Delivery C} (hrow : row ∈ store.rows) :
    ∃ row' ∈ (step hash store op).rows, Kept row row' := by
  rcases step_cases hash hinv.keyed op with hadmits | hmoves
  · obtain ⟨args, -, -, -, hafter⟩ := hadmits.admitted
    refine ⟨row, ?_, rfl, rfl, fun _ => rfl⟩
    rw [hafter]
    exact List.mem_append_left _ hrow
  · obtain ⟨row', hrow', new, -, hstep⟩ := hmoves.mem_of_row hrow
    exact ⟨row', hrow', hstep.deliveryId_eq, hstep.identity_eq,
      hstep.of_dispatched⟩

/-- Any further calls keep every row. -/
theorem run_kept (hash : Hashing) (pre post : List (Op C))
    {row : Delivery C} (hrow : row ∈ (run hash pre).rows) :
    ∃ row' ∈ (run hash (pre ++ post)).rows, Kept row row' := by
  induction post using List.reverseRecOn with
  | nil =>
      rw [List.append_nil]
      exact ⟨row, hrow, rfl, rfl, fun _ => rfl⟩
  | append_singleton post op ih =>
      obtain ⟨mid, hmid, hkept⟩ := ih
      rw [← List.append_assoc, run_concat]
      obtain ⟨row', hrow', hkept'⟩ := step_kept hash (run_inv hash (pre ++ post)) op hmid
      refine ⟨row', hrow', hkept'.deliveryId.trans hkept.deliveryId,
        hkept'.identity.trans hkept.identity, ?_⟩
      intro hstate
      have hsame := hkept.frozen hstate
      rw [← hsame]
      exact hkept'.frozen (hsame ▸ hstate)

/-- The call that first brought in the id of a row gave it its receipt. -/
def AdmittedFirst (hash : Hashing) (ops : List (Op C)) (row : Delivery C) : Prop :=
  ∃ pre args post, ops = pre ++ .enqueue args :: post ∧
    args.deliveryId = row.deliveryId ∧ (run hash pre).row row.deliveryId = none ∧
      args.identity hash = row.identity

theorem run_admittedFirst (hash : Hashing) (ops : List (Op C)) :
    ∀ row ∈ (run hash ops).rows, AdmittedFirst hash ops row := by
  induction ops using List.reverseRecOn with
  | nil => rintro row ⟨⟩
  | append_singleton ops op ih =>
      have hlater {row : Delivery C} (h : AdmittedFirst hash ops row) :
          AdmittedFirst hash (ops ++ [op]) row := by
        obtain ⟨pre, args, post, rfl, hid, hnone, hidentity⟩ := h
        exact ⟨pre, args, post ++ [op], by simp, hid, hnone, hidentity⟩
      intro row' hrow'
      rw [run_concat] at hrow'
      rcases step_cases hash (run_inv hash ops).keyed op with hadmits | hmoves
      · obtain ⟨args, rfl, hnone, -, hafter⟩ := hadmits.admitted
        rw [hafter] at hrow'
        rcases List.mem_append.mp hrow' with hold | hnew
        · exact hlater (ih row' hold)
        · rw [List.mem_singleton] at hnew
          subst hnew
          exact ⟨ops, args, [], rfl, rfl, hnone, rfl⟩
      · obtain ⟨row, hrow, new, -, hstep⟩ := hmoves.row_of_mem hrow'
        have hfirst := hlater (ih row hrow)
        unfold AdmittedFirst at hfirst ⊢
        rw [hstep.deliveryId_eq, hstep.identity_eq]
        exact hfirst

/-- The tokens given out are distinct when each one was fresh. -/
theorem run_tokens_nodup (hash : Hashing) {ops : List (Op C)}
    (hfresh : AlongRun (step hash) FreshToken empty ops) :
    (tokens (run hash ops).log).Nodup := by
  have hinit : (tokens (empty : Store C).log).Nodup := List.nodup_nil
  refine (EveryState.of_reachable_step
    (P := fun store => (tokens store.log).Nodup) ?_ hinit hfresh).last
  rintro _ op ⟨pre, rfl⟩ hnodup hop
  change (tokens (run hash pre).log).Nodup at hnodup
  change (tokens (step hash (run hash pre) op).log).Nodup
  cases op with
  | claim args =>
      change (tokens ((run hash pre).claim args).2.log).Nodup
      unfold Store.claim
      split
      · exact hnodup
      · dsimp only
        split
        · exact hnodup
        · exact List.nodup_cons.mpr ⟨hop args rfl, hnodup⟩
  | enqueue args =>
      change (tokens ((run hash pre).enqueue hash args).2.log).Nodup
      unfold Store.enqueue
      split
      · exact hnodup
      · split
        · split
          · exact hnodup
          · exact hnodup
        · split
          · exact hnodup
          · exact hnodup
  | complete args => exact hnodup
  | fail args => exact hnodup
  | retry id now =>
      change (tokens ((run hash pre).retry id now).2.log).Nodup
      unfold Store.retry
      split
      · exact hnodup
      · split
        · exact hnodup
        · exact hnodup

/-- The delivery carries the token of the latest claim, and no other claim's. -/
def HoldsLatest (delivery : Delivery C) (store : Store C) : Prop :=
  ∃ token, delivery.leaseToken = some token ∧
    latestClaim (history delivery.deliveryId store.log) = some token ∧
      (tokens store.log).count token = 1

/-- Without a matching row the update of a completion or failure does nothing. -/
theorem map_eq_self {rows : List (Delivery C)} {guard : Delivery C → Bool}
    {change : Delivery C → Delivery C} (h : rows.any guard = false) :
    rows.map (fun row => if guard row then change row else row) = rows := by
  rw [List.any_eq_false] at h
  refine (List.map_congr_left fun row hrow => ?_).trans (List.map_id' rows)
  exact if_neg (h row hrow)

/-- A call that presents a delivery changes nothing or is made by the holder. -/
theorem presents_cases (hash : Hashing) {store : Store C} (hinv : Inv store)
    (htokens : (tokens store.log).Nodup) {op : Op C} {delivery : Delivery C}
    (hop : op.presents = some delivery) :
    step hash store op = store ∨ HoldsLatest delivery store := by
  by_cases hany : store.rows.any delivery.holds
  · right
    obtain ⟨row, hrow, hholds⟩ := List.any_eq_true.mp hany
    simp only [Delivery.holds, Bool.and_eq_true, decide_eq_true_eq] at hholds
    obtain ⟨⟨⟨hid, -⟩, hsome⟩, htoken⟩ := hholds
    obtain ⟨token, hrowToken⟩ := Option.isSome_iff_exists.mp hsome
    have hlatest := (hinv.rows row hrow).holder token hrowToken
    rw [hid] at hlatest
    refine ⟨token, htoken ▸ hrowToken, hlatest, List.count_eq_one_of_mem htokens ?_⟩
    obtain ⟨e, he, hetoken⟩ :=
      List.mem_filterMap.mp (List.mem_of_mem_head? hlatest)
    exact List.mem_filterMap.mpr ⟨e, List.mem_of_mem_filter he, hetoken⟩
  · left
    have hnone : store.rows.any delivery.holds = false := by
      simpa using hany
    cases op with
    | complete args =>
        cases hop
        change { store with rows := _ } = store
        rw [map_eq_self hnone]
    | fail args =>
        cases hop
        change { store with rows := _ } = store
        rw [map_eq_self hnone]
    | enqueue args => cases hop
    | claim args => cases hop
    | retry id now => cases hop

/-- What a claim hands out was not dispatched. -/
theorem claim_open {store : Store C} {args : Claim} {delivery : Delivery C}
    (h : (store.claim args).1 = .ok (.claimed (some delivery))) :
    ∃ row ∈ store.rows, row.deliveryId = delivery.deliveryId ∧
      row.state ≠ .dispatched := by
  unfold Store.claim at h
  split at h
  · cases h
  · dsimp only at h
    split at h
    · cases h
    · rename_i chosen hchosen
      cases h
      obtain ⟨hmem, hdue⟩ := Claim.select_mem hchosen
      obtain ⟨origin, horigin, rfl⟩ := List.mem_map.mp hmem
      obtain ⟨hsame, hopen, -⟩ := Claim.due_exhaust hdue
      refine ⟨origin, horigin, (args.exhaust_deliveryId origin).symm, ?_⟩
      intro hstate
      simp [hstate] at hopen

/-- The attempts of every row stay within the limits of the claims. -/
theorem run_attempts_le (hash : Hashing) {ops : List (Op C)} {bound : Nat}
    (hbound : ∀ args : Claim, .claim args ∈ ops → args.maxAttempts ≤ bound) :
    ∀ row ∈ (run hash ops).rows, row.attempts ≤ bound := by
  induction ops using List.reverseRecOn with
  | nil => rintro row ⟨⟩
  | append_singleton ops op ih =>
      have hbefore := ih (fun args hargs =>
        hbound args (List.mem_append_left _ hargs))
      intro row' hrow'
      rw [run_concat] at hrow'
      rcases step_cases hash (run_inv hash ops).keyed op with hadmits | hmoves
      · obtain ⟨args, -, -, -, hafter⟩ := hadmits.admitted
        rw [hafter] at hrow'
        rcases List.mem_append.mp hrow' with hold | hnew
        · exact hbefore row' hold
        · rw [List.mem_singleton] at hnew
          subst hnew
          exact Nat.zero_le _
      · obtain ⟨row, hrow, new, -, hstep⟩ := hmoves.row_of_mem hrow'
        refine hstep.attempts_le (fun args hop => ?_) (hbefore row hrow)
        exact hbound args (List.mem_append_right _ (hop ▸ List.mem_singleton_self _))

/-- The open deliveries stay within the limits of the intakes. -/
theorem run_open_le (hash : Hashing) {ops : List (Op C)} {bound : Nat}
    (hbound : ∀ args : Enqueue C, .enqueue args ∈ ops → args.maxPending ≤ bound) :
    (run hash ops).rows.countP Delivery.isOpen ≤ bound := by
  induction ops using List.reverseRecOn with
  | nil => exact Nat.zero_le _
  | append_singleton ops op ih =>
      have hbefore := ih (fun args hargs =>
        hbound args (List.mem_append_left _ hargs))
      rw [run_concat]
      rcases step_cases hash (run_inv hash ops).keyed op with hadmits | hmoves
      · obtain ⟨args, rfl, -, hroom, hafter⟩ := hadmits.admitted
        have hlimit := hbound args (List.mem_append_right _ List.mem_cons_self)
        rw [hafter, List.countP_append, List.countP_singleton]
        split
        · omega
        · omega
      · exact Nat.le_trans hmoves.countP_isOpen_le hbefore

/--
**The inbox keeps its receipts, its fence and its bounds** in every order of
calls: a row keeps its receipt, and all of it once dispatched; the receipt is
that of the first intake; a completion or failure has an effect only for the
holder of the latest claim; a dispatched delivery is never claimed; the claims
since the last reopening are the attempts, and stay within `maxAttempts`; the
open deliveries stay within `maxPending`.
-/
theorem delivery_contract (hash : Hashing) (ops : List (Op C))
    (hfresh : AlongRun (step hash) FreshToken empty ops)
    (maxAttempts maxPending : Nat)
    (hattempts : ∀ args : Claim, .claim args ∈ ops → args.maxAttempts ≤ maxAttempts)
    (hpending : ∀ args : Enqueue C, .enqueue args ∈ ops → args.maxPending ≤ maxPending) :
    (∀ pre post, ops = pre ++ post → ∀ row ∈ (run hash pre).rows,
      ∃ row' ∈ (run hash ops).rows, Kept row row') ∧
    (∀ row ∈ (run hash ops).rows, AdmittedFirst hash ops row) ∧
    (∀ pre op post delivery, ops = pre ++ op :: post →
      op.presents = some delivery →
        step hash (run hash pre) op = run hash pre ∨
          HoldsLatest delivery (run hash pre)) ∧
    (∀ pre args post delivery, ops = pre ++ .claim args :: post →
      ((run hash pre).claim args).1 = .ok (.claimed (some delivery)) →
        ∃ row ∈ (run hash pre).rows, row.deliveryId = delivery.deliveryId ∧
          row.state ≠ .dispatched) ∧
    (∀ row ∈ (run hash ops).rows,
      row.attempts = claimsSince (history row.deliveryId (run hash ops).log) ∧
        row.attempts ≤ maxAttempts) ∧
    (run hash ops).rows.countP Delivery.isOpen ≤ maxPending := by
  refine ⟨?_, run_admittedFirst hash ops, ?_, ?_, ?_, run_open_le hash hpending⟩
  · rintro pre post rfl row hrow
    exact run_kept hash pre post hrow
  · rintro pre op post delivery rfl hop
    have hpre := ((alongRun_append (step hash) FreshToken empty pre
      (op :: post)).mp hfresh).1
    exact presents_cases hash (run_inv hash pre) (run_tokens_nodup hash hpre) hop
  · rintro pre args post delivery rfl hclaim
    exact claim_open hclaim
  · intro row hrow
    exact ⟨((run_inv hash ops).rows row hrow).attempts,
      run_attempts_le hash hattempts row hrow⟩

/-- Hashes that spell out what they digest. -/
def plainHashing : Hashing where
  payloadSha256 event body := event ++ "\n" ++ body
  runId repository deliveryId := repository ++ "/" ++ deliveryId

/-- One delivery, claimed under a limit of one attempt, and claimed again late. -/
def claimTwice : List (Op Unit) :=
  [.enqueue ⟨"d1", "issues", "", "octo/app", "factory", (), 1, 10⟩,
    .claim ⟨120, 1, "t1", 20⟩,
    .claim ⟨120, 1, "t2", 500⟩]

theorem delivery_contract_claimTwice :
    (run plainHashing claimTwice).rows.countP Delivery.isOpen ≤ 1 ∧
      ∀ row ∈ (run plainHashing claimTwice).rows, row.attempts ≤ 1 := by
  have hfresh : AlongRun (step plainHashing) FreshToken empty claimTwice := by
    rw [alongRun_iff]
    rintro pre op post hops args rfl
    rcases pre with _ | ⟨_, _ | ⟨_, _ | ⟨_, pre⟩⟩⟩
    · cases hops
    · obtain ⟨rfl, ⟨rfl⟩, -⟩ := List.cons.injEq .. ▸ hops
      decide +kernel
    · obtain ⟨rfl, ⟨rfl⟩, ⟨rfl⟩, -⟩ := List.cons.injEq .. ▸ hops
      decide +kernel
    · simp [claimTwice] at hops
  have hcontract := delivery_contract plainHashing claimTwice hfresh 1 1
    (by
      intro args hargs
      simp only [claimTwice, List.mem_cons, reduceCtorEq, Op.claim.injEq,
        List.not_mem_nil, or_false, false_or] at hargs
      rcases hargs with rfl | rfl <;> decide)
    (by
      intro args hargs
      simp only [claimTwice, List.mem_cons, reduceCtorEq, Op.enqueue.injEq,
        List.not_mem_nil, or_false] at hargs
      rw [hargs])
  exact ⟨hcontract.2.2.2.2.2, fun row hrow => (hcontract.2.2.2.2.1 row hrow).2⟩

end Runs

end Inbox
end SwFactory
