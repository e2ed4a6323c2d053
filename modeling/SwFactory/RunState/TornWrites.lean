import SwFactory.Lexical.JsonRoundTrip
import SwFactory.Lexical.Utf8
import SwFactory.Lexical.Splitting

/-!
# The run journal survives torn writes

A journal is a file of JSON objects, one a line, that is only appended to.  An
append first repairs what an interrupted append left behind: the torn tail is
saved under `recovery/` and cut off.  A file is the list of its bytes; an
append is the list of its effects, and a kill lets it perform only the first of
them.

Between two appends the file is the lines of the records, and behind them
nothing, a proper part of one record, or one whole record that still owes its
newline.  A part cannot be read, so it is the torn tail; a whole record is read
without its newline.  Every effect of an append keeps the file in this form.

Source: `state.py` (`_decode_journal`, `RunState.append_json`,
`RunState.read_jsonl`) and `json.loads` of bytes.
-/

namespace SwFactory
namespace RunState

open Lexical Lexical.Json

/-! ## The journal -/

abbrev Bytes := List Nat

def newline : Nat := 0x0a

/-- `raw.endswith(b"\n")`. -/
def endsInNewline (raw : Bytes) : Bool :=
  raw.getLast? == some newline

/-- A byte that `bytes.strip` removes. -/
def isSpaceByte (b : Nat) : Bool :=
  b == 0x20 || (0x09 ≤ b && b ≤ 0x0d)

/-! ## Reading a line -/

inductive Encoding
  | utf8 | utf8Sig | utf16 | utf16Be | utf16Le | utf32 | utf32Be | utf32Le
deriving DecidableEq

/-- `json.detect_encoding`. -/
def detectEncoding (b : Bytes) : Encoding :=
  if [0x00, 0x00, 0xfe, 0xff].isPrefixOf b || [0xff, 0xfe, 0x00, 0x00].isPrefixOf b then
    .utf32
  else if [0xfe, 0xff].isPrefixOf b || [0xff, 0xfe].isPrefixOf b then
    .utf16
  else if [0xef, 0xbb, 0xbf].isPrefixOf b then
    .utf8Sig
  else
    match b with
    | b₀ :: b₁ :: b₂ :: b₃ :: _ =>
        if b₀ = 0 then
          if b₁ ≠ 0 then .utf16Be else .utf32Be
        else if b₁ = 0 then
          if b₂ ≠ 0 ∨ b₃ ≠ 0 then .utf16Le else .utf32Le
        else
          .utf8
    | [b₀, b₁] =>
        if b₀ = 0 then .utf16Be else if b₁ = 0 then .utf16Le else .utf8
    | _ => .utf8

section Reading

-- The codecs other than UTF-8, which no line of a journal asks for.
variable (codec : Encoding → Bytes → Option Str)

/-- `json.loads` of bytes; `none` stands for its `ValueError`. -/
def loadLine (line : Bytes) : Option Value :=
  match detectEncoding line with
  | .utf8 => (Utf8.decode line).bind loads
  | other => (codec other line).bind loads

/-- `JournalCorruption`, with the number of the line. -/
structure JournalCorruption where
  line : Nat
deriving DecidableEq

/-- The loop of `_decode_journal` over the lines that are left. -/
def decodeLines (raw : Bytes) (count : Nat) :
    Nat → Nat → List Bytes → Except JournalCorruption (List Value × Nat)
  | _, _, [] => .ok ([], raw.length)
  | index, offset, line :: rest =>
      if line.all isSpaceByte then
        decodeLines raw count (index + 1) (offset + line.length + 1) rest
      else
        match loadLine codec line with
        | some v =>
            (decodeLines raw count (index + 1) (offset + line.length + 1) rest).map
              (fun out => (v :: out.1, out.2))
        | none =>
            if index = count - 1 ∧ ¬ endsInNewline raw then
              .ok ([], offset)
            else
              .error ⟨index + 1⟩

/-- `_decode_journal`: the records, and where the torn tail starts. -/
def decodeJournal (raw : Bytes) : Except JournalCorruption (List Value × Nat) :=
  let lines := splitAll newline raw
  decodeLines codec raw lines.length 0 0 lines

/-- `read_jsonl`. -/
def readJsonl (raw : Bytes) : Except JournalCorruption (List Value) :=
  (decodeJournal codec raw).map (fun out => out.1)

end Reading

/-! ## Appending a record -/

/-- A JSON object that `json.dumps` prints and UTF-8 can encode. -/
structure Record where
  members : Members
  plain : plain Utf8.isScalar (.object members) = true

def Record.value (r : Record) : Value :=
  .object r.members

/-- The bytes of the record, without its newline. -/
def Record.bytes (r : Record) : Bytes :=
  Utf8.encode (dumps r.value)

/-- What an append does to the files, one durable step at a time. -/
inductive Effect (δ : Type)
  | save (name : δ) (tail : Bytes)
  | truncate (size : Nat)
  | write (byte : Nat)

/-- The journal, and the files under `recovery/` by their digests. -/
structure Disk (δ : Type) where
  file : Bytes
  recovery : List (δ × Bytes)

section Appending

variable {δ : Type} [DecidableEq δ]

/-- One effect; a recovery file is written atomically and replaced. -/
def Disk.apply (disk : Disk δ) : Effect δ → Disk δ
  | .save name tail =>
      { disk with
        recovery := (name, tail) :: disk.recovery.filter (fun saved => saved.1 ≠ name) }
  | .truncate size => { disk with file := disk.file.take size }
  | .write byte => { disk with file := disk.file ++ [byte] }

variable (codec : Encoding → Bytes → Option Str)
variable (digest : Bytes → δ)

/-- The repair of a torn tail. -/
def repair (raw : Bytes) (intact : Nat) : List (Effect δ) :=
  if intact < raw.length then
    [.save (digest raw) (raw.drop intact), .truncate intact]
  else
    []

/-- The newline that an older record still owes. -/
def lead (raw : Bytes) : Bytes :=
  if raw ≠ [] ∧ ¬ endsInNewline raw then [newline] else []

/-- The effects of `append_json`, in order. -/
def effects (raw : Bytes) (record : Record) :
    Except JournalCorruption (List (Effect δ)) :=
  match decodeJournal codec raw with
  | .error e => .error e
  | .ok (_, intact) =>
      .ok (repair digest raw intact ++
        (lead (raw.take intact) ++ record.bytes ++ [newline]).map .write)

/-- One call: it completes, or is killed after so many of its effects. -/
structure Call where
  record : Record
  killed : Option Nat

/-- The effects that the call comes to perform. -/
def Call.performs (call : Call) (es : List (Effect δ)) : List (Effect δ) :=
  match call.killed with
  | none => es
  | some k => es.take k

/-- All bytes of the record were written; only its newline may be missing. -/
def Call.landed (call : Call) (es : List (Effect δ)) : Bool :=
  match call.killed with
  | none => true
  | some k => es.length ≤ k + 1

/-- The files, and the records that reading should return. -/
structure World (δ : Type) where
  disk : Disk δ
  kept : List Record

/-- One call under the file lock. -/
def World.append (w : World δ) (call : Call) : Except JournalCorruption (World δ) :=
  match effects codec digest w.disk.file call.record with
  | .error e => .error e
  | .ok es =>
      .ok
        { disk := (call.performs es).foldl Disk.apply w.disk
          kept := w.kept ++ if call.landed es then [call.record] else [] }

/-- The calls one after the other. -/
def World.run (w : World δ) : List Call → Except JournalCorruption (World δ)
  | [] => .ok w
  | call :: later =>
      match w.append codec digest call with
      | .error e => .error e
      | .ok w' => w'.run later

/-- A journal that does not exist yet. -/
def World.start : World δ :=
  ⟨⟨[], []⟩, []⟩

end Appending

/-! ## The bytes of a record -/

namespace Record

variable (r : Record)

theorem scalars : ∀ c ∈ dumps r.value, Utf8.isScalar c = true := by
  refine dumps_chars ?_ (fun c hc _ => hc) r.value r.plain
  intro c hc
  have hlt : c < 0xd800 := by
    have := hc.2
    omega
  simp [Utf8.isScalar, hlt]

theorem printable : ∀ c ∈ dumps r.value, 0x20 ≤ c :=
  dumps_chars (fun _ hc => hc.1) (fun _ _ hlo => hlo) r.value r.plain

/-- No byte of the record is a control byte. -/
theorem not_mem_bytes {b : Nat} (hb : b < 0x20) : b ∉ r.bytes := by
  intro hmem
  have := r.printable b (Utf8.mem_encode_ascii (by omega) hmem)
  omega

theorem bytes_cons : ∃ rest, r.bytes = cp '{' :: rest := by
  refine ⟨Utf8.encode (dumpMembers r.members ++ [cp '}']), ?_⟩
  rw [Record.bytes, Record.value, dumps, List.cons_append, Utf8.encode,
    List.flatMap_cons, Utf8.encodePoint_ascii (by decide)]
  rfl

end Record

/-- What starts with a brace and has no zero byte is UTF-8. -/
theorem detectEncoding_utf8 {rest : Bytes} (h : 0 ∉ rest) :
    detectEncoding (cp '{' :: rest) = .utf8 := by
  have hbrace : cp '{' = 123 := rfl
  cases rest with
  | nil =>
      rfl
  | cons b₁ rest =>
      have h₁ : b₁ ≠ 0 := by
        rintro rfl
        exact h List.mem_cons_self
      cases rest with
      | nil =>
          simp [detectEncoding, hbrace, h₁]
      | cons b₂ rest =>
          cases rest with
          | nil =>
              simp [detectEncoding, hbrace]
          | cons b₃ rest =>
              simp [detectEncoding, hbrace, h₁]

section Reading

variable {codec : Encoding → Bytes → Option Str}

/-- A part of a record is read as UTF-8. -/
theorem loadLine_part {r : Record} {part : Bytes} (h : part <+: r.bytes) (hne : part ≠ []) :
    loadLine codec part = (Utf8.decode part).bind loads := by
  obtain ⟨more, hmore⟩ := h
  obtain ⟨rest, hbytes⟩ := r.bytes_cons
  cases part with
  | nil =>
      exact absurd rfl hne
  | cons b part =>
      have hb : b = cp '{' := by
        rw [hbytes] at hmore
        exact (List.cons.inj hmore).1
      subst hb
      have hzero : 0 ∉ part := by
        intro hmem
        refine r.not_mem_bytes (b := 0) (by decide) ?_
        rw [← hmore]
        exact List.mem_append_left _ (List.mem_cons_of_mem _ hmem)
      simp only [loadLine, detectEncoding_utf8 hzero]

theorem loadLine_bytes (r : Record) : loadLine codec r.bytes = some r.value := by
  have hne : r.bytes ≠ [] := by
    obtain ⟨rest, hbytes⟩ := r.bytes_cons
    simp [hbytes]
  rw [loadLine_part (List.prefix_refl _) hne, Record.bytes,
    Utf8.decode_encode r.scalars, Option.bind_some]
  exact loads_dumps r.plain

/-- A proper part of a record is not read. -/
theorem loadLine_torn {r : Record} {part : Bytes} (h : part <+: r.bytes)
    (hne : part ≠ []) (hproper : part ≠ r.bytes) : loadLine codec part = none := by
  rw [loadLine_part h hne]
  cases hdecode : Utf8.decode part with
  | none =>
      rfl
  | some front =>
      obtain ⟨more, hmore⟩ := h
      obtain ⟨rest, hrest, hdecode'⟩ :=
        Utf8.eq_append_of_decode r.scalars hmore.symm hdecode
      have hrestne : rest ≠ [] := by
        rintro rfl
        have hmorenil : more = [] := (Utf8.eq_nil_of_decodeFrom hdecode').2
        rw [hmorenil, List.append_nil] at hmore
        exact hproper hmore
      exact loads_part r.plain hrest hrestne

/-! ## Reading a file -/

/-- The lines of the records. -/
def fileOf (rs : List Record) : Bytes :=
  rs.flatMap (fun r => r.bytes ++ [newline])

theorem fileOf_append (rs rs' : List Record) :
    fileOf (rs ++ rs') = fileOf rs ++ fileOf rs' :=
  List.flatMap_append

theorem fileOf_singleton (r : Record) : fileOf [r] = r.bytes ++ [newline] := by
  simp [fileOf]

theorem newline_not_mem (r : Record) : newline ∉ r.bytes :=
  r.not_mem_bytes (by decide)

theorem splitAll_file (rs : List Record) {tail : Bytes} (h : newline ∉ tail) :
    splitAll newline (fileOf rs ++ tail) = rs.map Record.bytes ++ [tail] := by
  induction rs with
  | nil =>
      exact splitAll_of_not_mem h
  | cons r rs ih =>
      have hshape : fileOf (r :: rs) ++ tail = r.bytes ++ newline :: (fileOf rs ++ tail) := by
        simp [fileOf]
      rw [hshape, splitAll_append (newline_not_mem r), ih]
      rfl

theorem bytes_not_blank (r : Record) : r.bytes.all isSpaceByte = false := by
  obtain ⟨rest, hbytes⟩ := r.bytes_cons
  rw [hbytes]
  rfl

/-- Whole lines are read one by one. -/
theorem decodeLines_records (raw : Bytes) (count : Nat) (rs : List Record)
    (rest : List Bytes) (index offset : Nat) :
    decodeLines codec raw count index offset (rs.map Record.bytes ++ rest) =
      (decodeLines codec raw count (index + rs.length) (offset + (fileOf rs).length)
        rest).map (fun out => (rs.map Record.value ++ out.1, out.2)) := by
  induction rs generalizing index offset with
  | nil =>
      simp only [List.map_nil, List.nil_append, List.length_nil, Nat.add_zero, fileOf,
        List.flatMap_nil]
      cases decodeLines codec raw count index offset rest <;> rfl
  | cons r rs ih =>
      have hlength : offset + (fileOf (r :: rs)).length =
          offset + r.bytes.length + 1 + (fileOf rs).length := by
        simp [fileOf]
        omega
      have hindex : index + (r :: rs).length = index + 1 + rs.length := by
        simp only [List.length_cons]
        omega
      rw [List.map_cons, List.cons_append, decodeLines, bytes_not_blank,
        if_neg (by decide), loadLine_bytes]
      dsimp only
      rw [ih, hlength, hindex]
      cases decodeLines codec raw count (index + 1 + rs.length)
        (offset + r.bytes.length + 1 + (fileOf rs).length) rest <;> rfl

/-- The last line decides. -/
theorem decode_file (rs : List Record) {tail : Bytes} (h : newline ∉ tail) :
    decodeJournal codec (fileOf rs ++ tail) =
      (decodeLines codec (fileOf rs ++ tail) (rs.length + 1) rs.length (fileOf rs).length
        [tail]).map (fun out => (rs.map Record.value ++ out.1, out.2)) := by
  have hlines := splitAll_file rs h
  simp only [decodeJournal, hlines, decodeLines_records, List.length_append,
    List.length_map, List.length_singleton, Nat.zero_add]

theorem decode_lines (rs : List Record) :
    decodeJournal codec (fileOf rs) =
      .ok (rs.map Record.value, (fileOf rs).length) := by
  rw [← List.append_nil (fileOf rs), decode_file rs List.not_mem_nil, List.append_nil]
  simp [decodeLines, Except.map]

theorem decode_owing (rs : List Record) (r : Record) :
    decodeJournal codec (fileOf rs ++ r.bytes) =
      .ok ((rs ++ [r]).map Record.value, (fileOf rs ++ r.bytes).length) := by
  rw [decode_file rs (newline_not_mem r), decodeLines, bytes_not_blank,
    if_neg (by decide), loadLine_bytes]
  simp [decodeLines, Except.map]

theorem part_not_blank {r : Record} {part : Bytes} (h : part <+: r.bytes)
    (hne : part ≠ []) : part.all isSpaceByte = false := by
  obtain ⟨more, hmore⟩ := h
  obtain ⟨rest, hbytes⟩ := r.bytes_cons
  cases part with
  | nil =>
      exact absurd rfl hne
  | cons b part =>
      rw [hbytes] at hmore
      rw [(List.cons.inj hmore).1]
      rfl

theorem endsInNewline_append {front back : Bytes} (hne : back ≠ [])
    (h : newline ∉ back) : endsInNewline (front ++ back) = false := by
  rw [endsInNewline, List.getLast?_append_of_ne_nil _ hne]
  cases hlast : back.getLast? with
  | none =>
      rfl
  | some b =>
      have hb : b ≠ newline := by
        rintro rfl
        exact h (List.mem_of_mem_getLast? hlast)
      simpa using hb

theorem decode_torn (rs : List Record) {r : Record} {part : Bytes}
    (h : part <+: r.bytes) (hne : part ≠ []) (hproper : part ≠ r.bytes) :
    decodeJournal codec (fileOf rs ++ part) =
      .ok (rs.map Record.value, (fileOf rs).length) := by
  have hnewline : newline ∉ part := fun hmem => newline_not_mem r (h.subset hmem)
  have hends : endsInNewline (fileOf rs ++ part) = false :=
    endsInNewline_append hne hnewline
  rw [decode_file rs hnewline, decodeLines, part_not_blank h hne, if_neg (by decide),
    loadLine_torn h hne hproper]
  dsimp only
  rw [if_pos ⟨by omega, by simp [hends]⟩]
  simp [Except.map]

end Reading

/-! ## The forms of a file -/

/-- What the journal looks like between two appends, with the records it holds. -/
inductive Form : List Record → Bytes → Prop
  | lines (rs : List Record) :
      Form rs (fileOf rs)
  | torn (rs : List Record) {r : Record} {part : Bytes}
      (h : part <+: r.bytes) (hne : part ≠ []) (hproper : part ≠ r.bytes) :
      Form rs (fileOf rs ++ part)
  | owing (rs : List Record) (r : Record) :
      Form (rs ++ [r]) (fileOf rs ++ r.bytes)

/-- A file in form is read as the records it holds. -/
theorem Form.read {codec : Encoding → Bytes → Option Str} {kept : List Record}
    {file : Bytes} (h : Form kept file) :
    readJsonl codec file = .ok (kept.map Record.value) := by
  cases h with
  | lines =>
      simp [readJsonl, decode_lines, Except.map]
  | torn _ hpart hne hproper =>
      rw [readJsonl, decode_torn kept hpart hne hproper]
      rfl
  | owing rs r =>
      rw [readJsonl, decode_owing]
      rfl

theorem bytes_ne_nil (r : Record) : r.bytes ≠ [] := by
  obtain ⟨rest, hbytes⟩ := r.bytes_cons
  simp [hbytes]

/-- Behind whole lines, every part of a written line leaves the file in form. -/
theorem Form.write (rs : List Record) (r : Record) (n : Nat) :
    Form (rs ++ if r.bytes.length ≤ n then [r] else [])
      (fileOf rs ++ (r.bytes ++ [newline]).take n) := by
  have hpos : 0 < r.bytes.length := List.length_pos_iff.mpr (bytes_ne_nil r)
  rcases Nat.lt_trichotomy n r.bytes.length with hlt | rfl | hgt
  · rw [if_neg (by omega), List.append_nil,
      List.take_append_of_le_length (by omega)]
    by_cases hzero : n = 0
    · rw [hzero, List.take_zero, List.append_nil]
      exact .lines rs
    · refine .torn rs (List.take_prefix n r.bytes) ?_ ?_
      · rw [← List.length_pos_iff, List.length_take]
        omega
      · intro heq
        have := congrArg List.length heq
        rw [List.length_take] at this
        omega
  · rw [if_pos le_rfl, List.take_left]
    exact .owing rs r
  · rw [if_pos (by omega), List.take_of_length_le (by simp; omega)]
    have := Form.lines (rs ++ [r])
    rwa [fileOf_append, fileOf_singleton] at this

/-! ## One call -/

section Calls

variable {δ : Type} [DecidableEq δ]

theorem foldl_write (disk : Disk δ) (bs : Bytes) :
    (bs.map Effect.write).foldl Disk.apply disk =
      { disk with file := disk.file ++ bs } := by
  induction bs generalizing disk with
  | nil =>
      simp
  | cons b bs ih =>
      rw [List.map_cons, List.foldl_cons, ih]
      simp [Disk.apply]

/-- How many effects the call comes to perform. -/
def Call.count (call : Call) (es : List (Effect δ)) : Nat :=
  call.killed.getD es.length

omit [DecidableEq δ] in
theorem Call.performs_eq (call : Call) (es : List (Effect δ)) :
    call.performs es = es.take (call.count es) := by
  unfold Call.performs Call.count
  cases call.killed with
  | none => simp
  | some k => rfl

omit [DecidableEq δ] in
theorem Call.landed_iff (call : Call) (es : List (Effect δ)) :
    call.landed es = true ↔ es.length ≤ call.count es + 1 := by
  unfold Call.landed Call.count
  cases call.killed with
  | none => simp
  | some k => simp

/-- Nothing was lost, or the lost tail is among the saved files. -/
def Saved (digest : Bytes → δ) (before after : Disk δ) : Prop :=
  before.file <+: after.file ∨
    ∃ intact, before.file.take intact <+: after.file ∧
      (digest before.file, before.file.drop intact) ∈ after.recovery

variable {codec : Encoding → Bytes → Option Str}
variable {digest : Bytes → δ}

theorem endsInNewline_fileOf {rs : List Record} (h : fileOf rs ≠ []) :
    endsInNewline (fileOf rs) = true := by
  cases hlast : rs.reverse with
  | nil =>
      rw [List.reverse_eq_nil_iff] at hlast
      rw [hlast] at h
      exact absurd rfl h
  | cons r front =>
      have hrs : rs = front.reverse ++ [r] := by
        rw [← List.reverse_reverse rs, hlast, List.reverse_cons]
      rw [hrs, fileOf_append, fileOf_singleton, ← List.append_assoc, endsInNewline,
        List.getLast?_concat]
      rfl

theorem lead_fileOf (rs : List Record) : lead (fileOf rs) = [] := by
  refine if_neg ?_
  rintro ⟨hne, hends⟩
  rw [endsInNewline_fileOf hne] at hends
  exact hends rfl

theorem lead_owing (rs : List Record) (r : Record) :
    lead (fileOf rs ++ r.bytes) = [newline] := by
  refine if_pos ⟨by simp [bytes_ne_nil], ?_⟩
  rw [endsInNewline_append (bytes_ne_nil r) (newline_not_mem r)]
  decide

/-- What a call leaves behind: the file in form, and the torn tail saved. -/
def Kept (digest : Bytes → δ) (w : World δ) (call : Call)
    (es : List (Effect δ)) : Prop :=
  Form (w.kept ++ if call.landed es then [call.record] else [])
      ((call.performs es).foldl Disk.apply w.disk).file ∧
    Saved digest w.disk ((call.performs es).foldl Disk.apply w.disk)

/-- Writing a line behind whole lines. -/
theorem kept_of_lines {w : World δ} {call : Call} (hfile : w.disk.file = fileOf w.kept) :
    Kept digest w call ((call.record.bytes ++ [newline]).map .write) := by
  have hlanded := call.landed_iff
    ((call.record.bytes ++ [newline]).map (Effect.write (δ := δ)))
  rw [List.length_map, List.length_append, List.length_singleton,
    Nat.add_le_add_iff_right] at hlanded
  rw [Kept, call.performs_eq, ← List.map_take, foldl_write]
  refine ⟨?_, Or.inl (List.prefix_append _ _)⟩
  simp only [hfile, hlanded]
  exact Form.write _ _ _

/-- Writing a line behind a record that owes its newline. -/
theorem kept_of_owing {w : World δ} {call : Call} {rs : List Record} {r : Record}
    (hkept : w.kept = rs ++ [r]) (hfile : w.disk.file = fileOf rs ++ r.bytes) :
    Kept digest w call (([newline] ++ call.record.bytes ++ [newline]).map .write) := by
  have hlanded := call.landed_iff
    (([newline] ++ call.record.bytes ++ [newline]).map (Effect.write (δ := δ)))
  rw [List.length_map] at hlanded
  rw [Kept, call.performs_eq, ← List.map_take, foldl_write]
  refine ⟨?_, Or.inl (List.prefix_append _ _)⟩
  simp only [hkept, hfile, hlanded]
  cases hcount : call.count
      (([newline] ++ call.record.bytes ++ [newline]).map (Effect.write (δ := δ))) with
  | zero =>
      have hpos : 0 < call.record.bytes.length :=
        List.length_pos_iff.mpr (bytes_ne_nil call.record)
      rw [if_neg (by simp), List.append_nil, List.take_zero, List.append_nil]
      exact .owing rs r
  | succ n =>
      have hwrite := Form.write (rs ++ [r]) call.record n
      have hshape : fileOf rs ++ r.bytes ++
          ([newline] ++ call.record.bytes ++ [newline]).take (n + 1) =
          fileOf (rs ++ [r]) ++ (call.record.bytes ++ [newline]).take n := by
        simp [fileOf_append, fileOf_singleton]
      have hiff : ([newline] ++ call.record.bytes ++ [newline]).length ≤ n + 1 + 1 ↔
          call.record.bytes.length ≤ n := by
        simp
      rw [hshape]
      simp only [hiff]
      exact hwrite

/-- Repairing a torn tail, then writing a line. -/
theorem kept_of_torn {w : World δ} {call : Call} {r : Record} {part : Bytes}
    (hpart : part <+: r.bytes) (hne : part ≠ []) (hproper : part ≠ r.bytes)
    (hfile : w.disk.file = fileOf w.kept ++ part) :
    Kept digest w call
      ([.save (digest w.disk.file) part, .truncate (fileOf w.kept).length] ++
        (call.record.bytes ++ [newline]).map .write) := by
  have hpos : 0 < call.record.bytes.length :=
    List.length_pos_iff.mpr (bytes_ne_nil call.record)
  have htake : (fileOf w.kept ++ part).take (fileOf w.kept).length = fileOf w.kept :=
    List.take_left
  have hdrop : (fileOf w.kept ++ part).drop (fileOf w.kept).length = part :=
    List.drop_left
  have hform : Form w.kept w.disk.file := by
    rw [hfile]
    exact .torn _ hpart hne hproper
  set es : List (Effect δ) :=
    [.save (digest w.disk.file) part, .truncate (fileOf w.kept).length] ++
      (call.record.bytes ++ [newline]).map .write with hes
  have hlength : es.length = call.record.bytes.length + 3 := by
    simp [hes]
  have hlanded := call.landed_iff es
  rw [Kept, call.performs_eq]
  obtain hzero | hone | ⟨n, hn⟩ :
      call.count es = 0 ∨ call.count es = 1 ∨ ∃ n, call.count es = n + 2 := by
    rcases call.count es with _ | _ | n
    · exact Or.inl rfl
    · exact Or.inr (Or.inl rfl)
    · exact Or.inr (Or.inr ⟨n, rfl⟩)
  · -- killed before the recovery file is there
    rw [hzero] at hlanded ⊢
    refine ⟨?_, Or.inl (List.prefix_refl _)⟩
    rw [if_neg (by rw [hlanded]; omega), List.append_nil]
    exact hform
  · -- killed before the tail is cut off
    rw [hone] at hlanded ⊢
    refine ⟨?_, Or.inl (List.prefix_refl _)⟩
    rw [if_neg (by rw [hlanded]; omega), List.append_nil]
    exact hform
  · rw [hn] at hlanded ⊢
    have hafter : (es.take (n + 2)).foldl Disk.apply w.disk =
        { file := fileOf w.kept ++ (call.record.bytes ++ [newline]).take n
          recovery := (digest w.disk.file, part) ::
            w.disk.recovery.filter (fun saved => saved.1 ≠ digest w.disk.file) } := by
      simp only [hes, List.cons_append, List.nil_append, List.take_succ_cons,
        List.foldl_cons, ← List.map_take, foldl_write, Disk.apply]
      rw [hfile, htake]
    have hiff : es.length ≤ n + 2 + 1 ↔ call.record.bytes.length ≤ n := by
      omega
    rw [hafter]
    constructor
    · simp only [hlanded, hiff]
      exact Form.write _ _ _
    · refine Or.inr ⟨(fileOf w.kept).length, ?_, ?_⟩
      · rw [hfile, htake]
        exact List.prefix_append _ _
      · rw [hfile, hdrop]
        exact List.mem_cons_self

/-- **One call.**  It reads the journal, and keeps it in form. -/
theorem append_keeps {w : World δ} (hform : Form w.kept w.disk.file) (call : Call) :
    ∃ es, effects codec digest w.disk.file call.record = .ok es ∧
      Kept digest w call es := by
  obtain ⟨disk, kept⟩ := w
  obtain ⟨file, recovery⟩ := disk
  dsimp only at hform ⊢
  cases hform with
  | lines =>
      refine ⟨_, ?_, kept_of_lines rfl⟩
      simp only [effects, decode_lines, repair, lt_irrefl, if_false, List.nil_append,
        List.take_length, lead_fileOf]
  | torn _ hpart hne hproper =>
      rename_i r part
      refine ⟨_, ?_, kept_of_torn hpart hne hproper rfl⟩
      have hlt : (fileOf kept).length < (fileOf kept ++ part).length := by
        rw [List.length_append]
        have := List.length_pos_iff.mpr hne
        omega
      simp only [effects, decode_torn kept hpart hne hproper, repair, if_pos hlt,
        List.take_left, List.drop_left, lead_fileOf, List.nil_append]
  | owing rs r =>
      refine ⟨_, ?_, kept_of_owing rfl rfl⟩
      simp only [effects, decode_owing, repair, lt_irrefl, if_false, List.nil_append,
        List.take_length, lead_owing]

theorem run_keeps {w : World δ} (hform : Form w.kept w.disk.file) (calls : List Call) :
    ∃ w', w.run codec digest calls = .ok w' ∧ Form w'.kept w'.disk.file := by
  induction calls generalizing w with
  | nil =>
      exact ⟨w, rfl, hform⟩
  | cons call later ih =>
      obtain ⟨es, hes, hkept, -⟩ : ∃ es,
          effects codec digest w.disk.file call.record = .ok es ∧
            Kept digest w call es :=
        append_keeps hform call
      rw [World.run, World.append, hes]
      exact ih hkept

/--
**Torn writes.**  After any calls, killed where they may be, the journal reads
as the records that were written out; the next call is not refused, adds its
own record at the end or nothing, and cuts off no byte that it has not saved.
-/
theorem journal_survives (codec : Encoding → Bytes → Option Str)
    (digest : Bytes → δ) (calls : List Call) :
    ∃ w, World.start.run codec digest calls = .ok w ∧
      readJsonl codec w.disk.file = .ok (w.kept.map Record.value) ∧
      ∀ call, ∃ es w',
        effects codec digest w.disk.file call.record = .ok es ∧
        w.append codec digest call = .ok w' ∧
        w'.kept = w.kept ++ (if call.landed es then [call.record] else []) ∧
        readJsonl codec w'.disk.file = .ok (w'.kept.map Record.value) ∧
        Saved digest w.disk w'.disk := by
  obtain ⟨w, hrun, hform⟩ : ∃ w, World.start.run codec digest calls = .ok w ∧
      Form w.kept w.disk.file :=
    run_keeps (Form.lines []) calls
  refine ⟨w, hrun, hform.read, fun call => ?_⟩
  obtain ⟨es, hes, hkept, hsaved⟩ : ∃ es,
      effects codec digest w.disk.file call.record = .ok es ∧ Kept digest w call es :=
    append_keeps hform call
  refine ⟨es,
    { disk := (call.performs es).foldl Disk.apply w.disk
      kept := w.kept ++ if call.landed es then [call.record] else [] },
    hes, ?_, rfl, hkept.read, hsaved⟩
  rw [World.append, hes]

end Calls

end RunState
end SwFactory
