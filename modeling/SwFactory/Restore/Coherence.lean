import SwFactory.Cells.Store
import SwFactory.Journal.Statements

/-!
# Restore contract: the joins between the stores

A backup is judged by the joins between the Cell store and the operation
journal.  `coherence_problems` reads both and names what does not fit: a row of
the journal whose Cell is missing or behind, and an external effect in the
history of a Cell that the journal has no row for.

The check reads the key of a row and not its state: a row that was never
committed passes for a receipt.

Source: `restore_contract.py` (`coherence_problems`).
-/

namespace SwFactory
namespace Restore

open Text Machine

variable {V : Type}

/-- The table `operations`, by its primary key. -/
abbrev Operations (V : Type) := List (String × Journal.Row V)

/-- The row under an operation key. -/
def Operations.find (journal : Operations V) (key : String) :
    Option (Journal.Row V) :=
  (lookup Prod.fst key journal).map Prod.snd

/-- What the check reports. -/
inductive Problem
  | unknownCell (key cellId : String)
  | journalAhead (key : String) (epoch : Nat) (cellId : String) (current : Int)
  | noReceipt (cellId key : String) (epoch : Int)
deriving DecidableEq, Repr

/-- The text of a problem. -/
def Problem.message : Problem → String
  | unknownCell key cellId =>
      "operation " ++ key ++ " belongs to Cell " ++ cellId ++
        ", which the Cell store does not hold; " ++
        "these two stores are not from the same instant"
  | journalAhead key epoch cellId current =>
      "operation " ++ key ++ " is at epoch " ++ toString epoch ++
        " but Cell " ++ cellId ++ " is at epoch " ++ toString current ++
        "; the operation journal is newer than the Cell store"
  | noReceipt cellId key epoch =>
      "Cell " ++ cellId ++ " records external effect " ++ key ++
        " at epoch " ++ toString epoch ++ ", and the operation " ++
        "journal holds no receipt for it; the Cell store is newer than " ++
        "the journal, so the factory would re-drive an effect it has " ++
        "already made"

/-- The events of kind `external_mutation`. -/
def effects (cells : Cells.Store) : List Cells.Event :=
  cells.events.filter (fun e => e.kind = .externalMutation)

/-- The check of one row of the journal. -/
def rowProblem (cells : Cells.Store) (entry : String × Journal.Row V) :
    Option Problem :=
  match cells.find entry.2.cellId with
  | none => some (.unknownCell entry.1 entry.2.cellId)
  | some cell =>
      if cell.epoch < entry.2.epoch then
        some (.journalAhead entry.1 entry.2.epoch entry.2.cellId cell.epoch)
      else none

/-- The check of one effect of a Cell. -/
def effectProblem (journal : Operations V) (effect : Cells.Event) :
    Option Problem :=
  if journal.any (fun entry => entry.1 = effect.operationKey) then none
  else some (.noReceipt effect.cellId effect.operationKey effect.epoch)

/-- The order of `sorted(effects)`. -/
def effectLe (a b : Cells.Event) : Bool :=
  decide (a.cellId < b.cellId) ||
    (decide (a.cellId = b.cellId) &&
      (decide (a.operationKey < b.operationKey) ||
        (decide (a.operationKey = b.operationKey) &&
          decide (a.epoch ≤ b.epoch))))

/-- The two joins over the two stores. -/
def problems (cells : Cells.Store) (journal : Operations V) : List Problem :=
  (journal.mergeSort (fun a b => decide (a.1 ≤ b.1))).filterMap
      (rowProblem cells) ++
    ((effects cells).mergeSort effectLe).filterMap (effectProblem journal)

/-- `coherence_problems`; a store that is missing is not joined. -/
def coherenceProblems (cells : Option Cells.Store) (journal : Option (Operations V)) :
    List String :=
  match cells, journal with
  | some cells, some journal => (problems cells journal).map Problem.message
  | _, _ => []

/-- Every row of the journal names a Cell that has reached its epoch. -/
def RowsReached (cells : Cells.Store) (journal : Operations V) : Prop :=
  ∀ entry ∈ journal, ∃ cell,
    cells.find entry.2.cellId = some cell ∧ entry.2.epoch ≤ cell.epoch

/-- Every effect of a Cell has a row in the journal. -/
def EffectsListed (cells : Cells.Store) (journal : Operations V) : Prop :=
  ∀ effect ∈ effects cells, ∃ entry ∈ journal, entry.1 = effect.operationKey

theorem rowProblem_eq_none_iff (cells : Cells.Store)
    (entry : String × Journal.Row V) :
    rowProblem cells entry = none ↔
      ∃ cell, cells.find entry.2.cellId = some cell ∧
        entry.2.epoch ≤ cell.epoch := by
  unfold rowProblem
  cases hfind : cells.find entry.2.cellId with
  | none =>
      simp
  | some cell =>
      simp [ite_eq_right_iff, not_lt]

theorem effectProblem_eq_none_iff (journal : Operations V)
    (effect : Cells.Event) :
    effectProblem journal effect = none ↔
      ∃ entry ∈ journal, entry.1 = effect.operationKey := by
  unfold effectProblem
  simp

/-- What an empty list of problems says about the two stores. -/
theorem problems_eq_nil_iff (cells : Cells.Store) (journal : Operations V) :
    problems cells journal = [] ↔
      RowsReached cells journal ∧ EffectsListed cells journal := by
  rw [problems, List.append_eq_nil_iff, List.filterMap_eq_nil_iff,
    List.filterMap_eq_nil_iff]
  apply and_congr
  · simp only [List.mem_mergeSort, rowProblem_eq_none_iff]
    rfl
  · simp only [List.mem_mergeSort, effectProblem_eq_none_iff]
    rfl

theorem coherenceProblems_eq_nil_iff (cells : Cells.Store)
    (journal : Operations V) :
    coherenceProblems (some cells) (some journal) = [] ↔
      RowsReached cells journal ∧ EffectsListed cells journal := by
  rw [coherenceProblems, List.map_eq_nil_iff, problems_eq_nil_iff]

/-- The row is the receipt of the effect. -/
def IsReceipt (effect : Cells.Event) (row : Journal.Row V) : Prop :=
  row.state = .committed ∧ row.cellId = effect.cellId ∧
    (row.epoch : Int) = effect.epoch

/-- The journal holds a receipt for every effect of a Cell. -/
def EffectsReceipted (cells : Cells.Store) (journal : Operations V) : Prop :=
  ∀ effect ∈ effects cells, ∃ row,
    journal.find effect.operationKey = some row ∧ IsReceipt effect row

/--
The row that stands under the key of an effect, where there is one, is the
receipt of that effect.
-/
def RowsMatch (cells : Cells.Store) (journal : Operations V) : Prop :=
  ∀ effect ∈ effects cells, ∀ row,
    journal.find effect.operationKey = some row → IsReceipt effect row

theorem find_isSome_of_mem {journal : Operations V} {key : String}
    (h : ∃ entry ∈ journal, entry.1 = key) :
    ∃ row, journal.find key = some row := by
  obtain ⟨entry, hmem, hkey⟩ := h
  cases hfind : lookup Prod.fst key journal with
  | none =>
      exact absurd hkey (lookup_none hfind hmem)
  | some found =>
      exact ⟨found.2, by rw [Operations.find, hfind]; rfl⟩

/--
**The join of the stores.**  For every Cell store and journal: an empty answer
of `coherence_problems` proves both joins, with a committed row for every
effect, if and only if no row of another state, Cell or epoch stands under the
key of an effect (where the answer is empty at all).
-/
theorem coherence_join_iff
    (cells : Cells.Store)
    (journal : Operations V) :
    (coherenceProblems (some cells) (some journal) = [] →
        RowsReached cells journal ∧ EffectsReceipted cells journal) ↔
      (coherenceProblems (some cells) (some journal) = [] →
        RowsMatch cells journal) := by
  rw [coherenceProblems_eq_nil_iff]
  constructor
  · rintro hjoin hclear effect heffect row hrow
    obtain ⟨receipt, hreceipt, hmatch⟩ := (hjoin hclear).2 effect heffect
    cases hreceipt.symm.trans hrow
    exact hmatch
  · rintro hmatch hclear
    refine ⟨hclear.1, fun effect heffect => ?_⟩
    obtain ⟨row, hrow⟩ := find_isSome_of_mem (hclear.2 effect heffect)
    exact ⟨row, hrow, hmatch hclear effect heffect row hrow⟩

/-- A Cell that remembers a publication. -/
def publishedCells : Cells.Store where
  cells := [{
    cellId := "cell_0769b1604171d921fa6d6ffa"
    identity := ⟨"repo", "main", "1"⟩
    epoch := 1
    state := .running
    createdAt := 0
    updatedAt := 0 }]
  events := [{
    cellId := "cell_0769b1604171d921fa6d6ffa"
    epoch := 1
    operationKey := "publish:1"
    kind := .externalMutation
    payload := .document "published"
    seq := 1
    createdAt := 0 }]

/-- The journal from before the commit: the publication is in doubt. -/
def doubtfulJournal : Operations Unit :=
  [("publish:1",
    { cellId := "cell_0769b1604171d921fa6d6ffa"
      epoch := 1
      kind := "github_publish"
      state := .inDoubt
      resultJson := none
      updatedAt := 0
      attempts := 1
      lastError := some "timeout"
      observation := none
      nextAttemptAt := none
      intentDigest := none
      attemptOwner := none
      attemptLeaseUntil := none
      replaySafe := none
      maxAttempts := some 3 })]

/-- The torn pair of stores passes the check without a receipt. -/
theorem coherence_accepts_uncommitted :
    coherenceProblems (some publishedCells) (some doubtfulJournal) = [] ∧
      ¬ EffectsReceipted publishedCells doubtfulJournal := by
  constructor
  · rw [coherenceProblems_eq_nil_iff]
    constructor
    · intro entry hentry
      rw [List.mem_singleton.mp hentry]
      exact ⟨_, rfl, by decide⟩
    · intro effect heffect
      refine ⟨_, List.mem_singleton_self _, ?_⟩
      rw [List.mem_singleton.mp heffect]
  · intro hreceipted
    obtain ⟨row, hrow, hcommitted, -⟩ :=
      hreceipted _ (List.mem_singleton_self _)
    cases hrow
    cases hcommitted

end Restore
end SwFactory
