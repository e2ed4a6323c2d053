import SwFactory.Rollup.Views

/-!
# The two roll-ups agree

The dictionaries of the factory and the pairs of the console hold the same
entries, so rows and words agree.  The labels agree unless every job of the run
is at a stage without a name, and the check roll-ups as long as the counters of
the console do not wrap around.
-/

namespace SwFactory
namespace Rollup

open Lexical
open Machine

/-! ## Words -/

theorem stateOrNone_eq (task : TaskState) :
    Rust.stateOrNone task = Python.stateOf task := by
  unfold Rust.stateOrNone Python.stateOf
  cases task.state with
  | none => rfl
  | some s =>
      by_cases h : s = ""
      · subst h
        rfl
      · simp [Python.truthy, h]

theorem isFailed_eq : Rust.isFailed = fun s => decide (s ∈ Python.failedTaskStates) := by
  funext s
  exact List.contains_eq_mem s _

theorem isActive_eq : Rust.isActive = fun s => decide (s ∈ Python.activeTaskStates) := by
  funext s
  exact List.contains_eq_mem s _

theorem isFinal_eq : Rust.isFinal = fun s => decide (s ∈ Python.finalTaskStates) := by
  funext s
  exact List.contains_eq_mem s _

theorem jobState_eq (tasks : List TaskState) :
    Rust.jobState tasks = Python.jobState tasks := by
  have hstates : tasks.map Rust.stateOrNone = tasks.map Python.stateOf :=
    List.map_congr_left fun t _ => stateOrNone_eq t
  unfold Rust.jobState Python.jobState
  rw [hstates, isFailed_eq, isActive_eq, isFinal_eq]
  simp only [List.isEmpty_iff, ne_eq, ← List.length_pos_iff, List.countP_eq_length_filter,
    decide_not, beq_eq_decide]

/-! ## Rows -/

/-- One pass over the pairs after the other builds the dictionary. -/
theorem foldl_amend_eq {α κ υ : Type*} [DecidableEq κ] {key : α → κ} {default : υ}
    {f g : α → υ → υ} {good : υ → Prop}
    (hdefault : good default)
    (hg : ∀ a v, good v → good (g a v))
    (hfg : ∀ a v, good v → f a v = g a v)
    (xs : List α) {d : Dict κ υ}
    (hnodup : d.keys.Nodup) (hgood : ∀ e ∈ d, good e.2) :
    xs.foldl (fun found a => Dict.amend (key a) (f a default) (f a) found) d =
        xs.foldl (fun d a => d.update (key a) default (g a)) d ∧
      (xs.foldl (fun d a => d.update (key a) default (g a)) d).keys.Nodup ∧
      ∀ e ∈ xs.foldl (fun d a => d.update (key a) default (g a)) d, good e.2 := by
  induction xs generalizing d with
  | nil =>
      exact ⟨rfl, hnodup, hgood⟩
  | cons a rest ih =>
      have hstored : good ((d.get? (key a)).getD default) := by
        cases hget : d.get? (key a) with
        | none => exact hdefault
        | some v => exact hgood _ (Dict.mem_of_get? hget)
      have hsame : d.update (key a) default (f a) = d.update (key a) default (g a) := by
        rw [Dict.update, Dict.update, hfg a _ hstored]
      simp only [List.foldl_cons]
      rw [Dict.amend_eq_update hnodup, hsame]
      refine ih (Dict.nodup_update _ _ _ hnodup) fun e he => ?_
      rcases Dict.mem_assign he with rfl | he
      · exact hg a _ hstored
      · exact hgood e he

theorem buckets_eq (tasks : List TaskState) :
    Rust.buckets tasks = Python.byIndex tasks ∧ (Python.byIndex tasks).keys.Nodup := by
  have hfold := @foldl_amend_eq _ _ _ _ TaskState.mapIndex [] (fun t => (· ++ [t]))
    (fun t => (· ++ [t])) (fun _ => True) trivial (fun _ _ _ => trivial) (fun _ _ _ => rfl)
    tasks [] List.nodup_nil (by rintro _ ⟨⟩)
  exact ⟨hfold.1, hfold.2.1⟩

theorem issueOf_eq (idx : Int) (fanOut : List Entry) (fallback : List String) :
    Rust.issueOf idx fanOut fallback = Python.issueOf idx fanOut fallback := by
  have hvalue : ∀ value : Option IssueValue,
      (value.filter Rust.pyTruthy).map Rust.pyStr = value.bind Python.issueText := by
    rintro (- | (text | number))
    · rfl
    · by_cases h : text = ""
      · subst h
        rfl
      · simp [Option.filter, Rust.pyTruthy, Rust.pyStr, Python.issueText, Python.truthy, h]
    · by_cases h : number = 0
      · subst h
        rfl
      · simp [Option.filter, Rust.pyTruthy, Rust.pyStr, Python.issueText, h]
  have hknown :
      ((if 0 ≤ idx then fanOut[idx.toNat]? else none).join.join.filter Rust.pyTruthy).map
          Rust.pyStr =
        if 0 ≤ idx ∧ idx < fanOut.length then
          (fanOut[idx.toNat]?.join.join).bind Python.issueText
        else
          none := by
    rw [hvalue]
    by_cases hneg : 0 ≤ idx
    · by_cases hlong : idx < fanOut.length
      · rw [if_pos hneg, if_pos ⟨hneg, hlong⟩]
      · have hout : fanOut[idx.toNat]? = none := List.getElem?_eq_none (by omega)
        rw [if_pos hneg, if_neg (fun h => hlong h.2), hout]
        rfl
    · rw [if_neg hneg, if_neg (fun h => hneg h.1)]
      rfl
  unfold Rust.issueOf Python.issueOf
  rw [← hknown]
  dsimp only
  cases ((if 0 ≤ idx then fanOut[idx.toNat]? else none).join.join.filter Rust.pyTruthy) with
  | none => rfl
  | some issue => rfl

theorem groupJobs_eq (dagId runId : String) (tasks : List TaskState) (fanOut : List Entry)
    (fallback : List String) :
    Rust.groupJobs dagId runId tasks fanOut fallback =
      Python.groupJobs dagId runId tasks fanOut fallback := by
  obtain ⟨heq, -⟩ := buckets_eq tasks
  unfold Rust.groupJobs Python.groupJobs
  rw [heq]
  dsimp only
  generalize Python.byIndex tasks = jobs
  change List.filterMap _ (List.insertionSort _
    (if (jobs.keys.filter (0 ≤ ·)).isEmpty then jobs.keys
      else jobs.keys.filter (0 ≤ ·))) = _
  have horder : List.insertionSort (· ≤ ·)
        (if (jobs.keys.filter (0 ≤ ·)).isEmpty then jobs.keys
          else jobs.keys.filter (0 ≤ ·)) =
      if (jobs.keys.filter (0 ≤ ·)).insertionSort (· ≤ ·) ≠ [] then
        (jobs.keys.filter (0 ≤ ·)).insertionSort (· ≤ ·)
      else jobs.keys.insertionSort (· ≤ ·) := by
    have hnil : (jobs.keys.filter (0 ≤ ·)).insertionSort (· ≤ ·) = [] ↔
        (jobs.keys.filter (0 ≤ ·)).isEmpty = true := by
      rw [List.isEmpty_iff, ← List.length_eq_zero_iff, List.length_insertionSort,
        List.length_eq_zero_iff]
    by_cases h : (jobs.keys.filter (0 ≤ ·)).isEmpty = true
    · rw [if_pos h, if_neg (not_not.mpr (hnil.mpr h))]
    · rw [if_neg h, if_pos (mt hnil.mp h)]
  rw [horder]
  have hkeys : ∀ idx ∈ (if (jobs.keys.filter (0 ≤ ·)).insertionSort (· ≤ ·) ≠ [] then
        (jobs.keys.filter (0 ≤ ·)).insertionSort (· ≤ ·)
      else jobs.keys.insertionSort (· ≤ ·)), idx ∈ jobs.keys := by
    intro idx hidx
    split at hidx
    · rw [List.mem_insertionSort] at hidx
      exact (List.mem_filter.mp hidx).1
    · rwa [List.mem_insertionSort] at hidx
  generalize (if (jobs.keys.filter (0 ≤ ·)).insertionSort (· ≤ ·) ≠ [] then
      (jobs.keys.filter (0 ≤ ·)).insertionSort (· ≤ ·)
    else jobs.keys.insertionSort (· ≤ ·)) = order at hkeys
  induction order with
  | nil => rfl
  | cons idx rest ih =>
      obtain ⟨e, he⟩ : ∃ e, jobs.find? (fun bucket => bucket.1 = idx) = some e := by
        have hmem := hkeys idx List.mem_cons_self
        obtain ⟨e, he, hidx⟩ := List.mem_map.mp hmem
        rw [← Option.isSome_iff_exists, List.find?_isSome]
        exact ⟨e, he, by simpa using hidx⟩
      have hget : jobs.get? idx = some e.2 := by simp [Dict.get?, he]
      rw [List.filterMap_cons, he, List.map_cons, hget,
        ih (fun i hi => hkeys i (List.mem_cons_of_mem _ hi))]
      simp [issueOf_eq, jobState_eq]

end Rollup
end SwFactory
