import Mathlib.Algebra.BigOperators.Group.List.Basic
import Mathlib.Data.List.Induction
import Mathlib.Data.List.Nodup
import Mathlib.Algebra.Order.BigOperators.Group.List
import Mathlib.Algebra.Order.Ring.Nat

/-!
# The call ledger

The rows of `agent_calls.jsonl`: the floor that was adopted once, and the rows
of the calls.  A call is folded over its rows, and the last one says what it is
charged with.  Amounts are micro-dollars.

Source: `call_accounting.py`.
-/

namespace SwFactory
namespace Spending

/-- A row of one call, and a call folded over its rows. -/
structure CallRow where
  callId : String
  stage : String
  iteration : Nat
  reservedUsd : Nat
  costUsd : Option Nat
deriving DecidableEq, Repr

inductive Row
  | floor (usd : Nat)
  | call (row : CallRow)
deriving DecidableEq, Repr

abbrev Ledger :=
  List Row

/-- What the call takes out of the run ceiling. -/
def CallRow.charge (record : CallRow) : Nat :=
  record.costUsd.getD record.reservedUsd

/-- `folded[row["call_id"]] = ...` -/
def upsert (records : List CallRow) (row : CallRow) : List CallRow :=
  if row.callId ∈ records.map CallRow.callId then
    records.map (fun r => if r.callId = row.callId then row else r)
  else
    records ++ [row]

def foldRow (records : List CallRow) : Row → List CallRow
  | .floor _ => records
  | .call row => upsert records row

/-- Every call of the run, folded in journal order. -/
def records (ledger : Ledger) : List CallRow :=
  ledger.foldl foldRow []

/-- `record` -/
def findRecord (ledger : Ledger) (callId : String) : Option CallRow :=
  (records ledger).find? (fun r => r.callId == callId)

/-- Billed usage and every unreconciled reservation. -/
def chargedUsd (ledger : Ledger) : Nat :=
  ((records ledger).map CallRow.charge).sum

/-- The floor a row adopts. -/
def Row.floor? : Row → Option Nat
  | .floor usd => some usd
  | .call _ => none

/-- `floor_usd`: the first adoption. -/
def floorUsd (ledger : Ledger) : Option Nat :=
  ledger.findSome? Row.floor?

/-- The calls whose usage nobody has observed. -/
def unreconciled (ledger : Ledger) : List CallRow :=
  (records ledger).filter (fun r => r.costUsd.isNone)

/-! ## Appending a row -/

@[simp] theorem records_append_floor (ledger : Ledger) (usd : Nat) :
    records (ledger ++ [.floor usd]) = records ledger := by
  simp [records, foldRow]

@[simp] theorem records_append_call (ledger : Ledger) (row : CallRow) :
    records (ledger ++ [.call row]) = upsert (records ledger) row := by
  simp [records, foldRow]

@[simp] theorem floorUsd_append_call (ledger : Ledger) (row : CallRow) :
    floorUsd (ledger ++ [.call row]) = floorUsd ledger := by
  simp [floorUsd, List.findSome?_append, Row.floor?]

theorem floorUsd_append_floor (ledger : Ledger) (usd : Nat) :
    floorUsd (ledger ++ [.floor usd]) = some ((floorUsd ledger).getD usd) := by
  unfold floorUsd
  rw [List.findSome?_append]
  cases List.findSome? Row.floor? ledger with
  | none => rfl
  | some f => rfl

/-- The first adoption wins. -/
theorem floorUsd_append_of_some {ledger : Ledger} {f : Nat} (row : Row)
    (h : floorUsd ledger = some f) :
    floorUsd (ledger ++ [row]) = some f := by
  cases row with
  | floor usd => rw [floorUsd_append_floor, h, Option.getD_some]
  | call row => rw [floorUsd_append_call, h]

theorem map_callId_upsert (records : List CallRow) (row : CallRow) :
    (upsert records row).map CallRow.callId =
      if row.callId ∈ records.map CallRow.callId then
        records.map CallRow.callId
      else
        records.map CallRow.callId ++ [row.callId] := by
  unfold upsert
  split
  · rw [List.map_map]
    refine List.map_congr_left fun r _ => ?_
    simp only [Function.comp_apply]
    split
    · rename_i h
      exact h.symm
    · rfl
  · simp

theorem nodup_upsert {records : List CallRow} (row : CallRow)
    (h : (records.map CallRow.callId).Nodup) :
    ((upsert records row).map CallRow.callId).Nodup := by
  rw [map_callId_upsert]
  split
  · exact h
  · rename_i hnew
    rw [List.nodup_append]
    refine ⟨h, List.nodup_singleton _, ?_⟩
    rintro id hid _ hrow rfl
    rw [List.mem_singleton.mp hrow] at hid
    exact hnew hid

/-- No call is folded twice. -/
theorem nodup_records (ledger : Ledger) :
    ((records ledger).map CallRow.callId).Nodup := by
  induction ledger using List.reverseRecOn with
  | nil =>
      exact List.nodup_nil
  | append_singleton ledger row ih =>
      cases row with
      | floor usd =>
          rw [records_append_floor]
          exact ih
      | call row =>
          rw [records_append_call]
          exact nodup_upsert row ih

theorem mem_upsert_self (records : List CallRow) (row : CallRow) :
    row ∈ upsert records row := by
  unfold upsert
  split
  · rename_i h
    obtain ⟨r, hr, hid⟩ := List.mem_map.mp h
    exact List.mem_map.mpr ⟨r, hr, by simp [hid]⟩
  · simp

/-- What is folded after a row: the row, and the other calls as before. -/
theorem mem_upsert {records : List CallRow} {row r : CallRow}
    (h : r ∈ upsert records row) :
    r = row ∨ (r ∈ records ∧ r.callId ≠ row.callId) := by
  unfold upsert at h
  split at h
  · obtain ⟨r', hr', rfl⟩ := List.mem_map.mp h
    split
    · exact Or.inl rfl
    · rename_i hne
      exact Or.inr ⟨hr', hne⟩
  · rename_i hnew
    rcases List.mem_append.mp h with h | h
    · right
      refine ⟨h, fun heq => hnew ?_⟩
      rw [← heq]
      exact List.mem_map_of_mem h
    · exact Or.inl (List.mem_singleton.mp h)

theorem mem_upsert_of_ne {records : List CallRow} {row r : CallRow}
    (h : r ∈ records) (hne : r.callId ≠ row.callId) :
    r ∈ upsert records row := by
  unfold upsert
  split
  · exact List.mem_map.mpr ⟨r, h, if_neg hne⟩
  · exact List.mem_append_left _ h

/-- A new call adds to a sum over the calls. -/
theorem sum_upsert_new (f : CallRow → Nat) {records : List CallRow} {row : CallRow}
    (h : row.callId ∉ records.map CallRow.callId) :
    ((upsert records row).map f).sum = (records.map f).sum + f row := by
  unfold upsert
  rw [if_neg h]
  simp

theorem map_replace_of_not_mem {records : List CallRow} {row : CallRow}
    (h : row.callId ∉ records.map CallRow.callId) :
    records.map (fun r => if r.callId = row.callId then row else r) = records := by
  conv_rhs => rw [← List.map_id records]
  refine List.map_congr_left fun r hr => ?_
  refine if_neg fun heq => h ?_
  rw [← heq]
  exact List.mem_map_of_mem hr

/-- A further row of a call exchanges its summand. -/
theorem sum_upsert_old (f : CallRow → Nat) {records : List CallRow} {row r : CallRow}
    (hnodup : (records.map CallRow.callId).Nodup)
    (hr : r ∈ records) (hid : r.callId = row.callId) :
    ((upsert records row).map f).sum + f r = (records.map f).sum + f row := by
  unfold upsert
  rw [if_pos (by rw [← hid]; exact List.mem_map_of_mem hr)]
  induction records with
  | nil =>
      cases hr
  | cons first rest ih =>
      simp only [List.map_cons, List.nodup_cons] at hnodup
      rcases List.mem_cons.mp hr with rfl | hr
      · have hrest : rest.map (fun r => if r.callId = row.callId then row else r) = rest :=
          map_replace_of_not_mem (by rw [← hid]; exact hnodup.1)
        simp only [List.map_cons, if_pos hid, hrest, List.sum_cons]
        omega
      · have hne : first.callId ≠ row.callId := by
          intro heq
          apply hnodup.1
          rw [heq, ← hid]
          exact List.mem_map_of_mem hr
        have := ih hnodup.2 hr
        simp only [List.map_cons, if_neg hne, List.sum_cons]
        omega

/-- The bill of one call adds to the sum of the bills. -/
theorem sum_update_bill {records : List CallRow} {record : CallRow} {callId : String}
    (hnodup : (records.map CallRow.callId).Nodup)
    (hmem : record ∈ records) (hid : record.callId = callId)
    (bill : String → Nat) (amount : Nat) :
    (records.map (fun r =>
        Function.update bill callId (bill callId + amount) r.callId)).sum =
      (records.map (fun r => bill r.callId)).sum + amount := by
  subst hid
  have hrest : ∀ rest : List CallRow, record.callId ∉ rest.map CallRow.callId →
      rest.map (fun r =>
          Function.update bill record.callId (bill record.callId + amount) r.callId) =
        rest.map (fun r => bill r.callId) := by
    intro rest hnot
    refine List.map_congr_left fun r hr => ?_
    refine Function.update_of_ne (fun heq => hnot ?_) _ _
    rw [← heq]
    exact List.mem_map_of_mem hr
  induction records with
  | nil =>
      cases hmem
  | cons first rest ih =>
      simp only [List.map_cons, List.nodup_cons] at hnodup
      rcases List.mem_cons.mp hmem with rfl | hmem
      · simp only [List.map_cons, List.sum_cons, Function.update_self, hrest rest hnodup.1]
        omega
      · have hne : first.callId ≠ record.callId := by
          intro heq
          exact hnodup.1 (heq ▸ List.mem_map_of_mem hmem)
        simp only [List.map_cons, List.sum_cons, Function.update_of_ne hne,
          ih hnodup.2 hmem]
        omega

theorem findRecord_eq_some {ledger : Ledger} {callId : String} {r : CallRow}
    (h : findRecord ledger callId = some r) :
    r ∈ records ledger ∧ r.callId = callId :=
  ⟨List.mem_of_find?_eq_some h, by simpa using List.find?_some h⟩

end Spending
end SwFactory
