import SwFactory.Rollup.Agreement

/-!
# The label of a run, and the counts of the checks

Both compute the label of a run from the last state of every stage, job by job.
The stages come in the same order, so every job has the same frontier; only a
run all of whose frontiers are the stage without a name gets two labels.

Both sort every check into one of three classes.  The console counts in 32
bits, so the numbers that it prints are those of the factory modulo `2 ^ 32`.
-/

namespace SwFactory
namespace Rollup

open Lexical
open Machine

/-! ## Stages -/

theorem exists_splitAll_append {post : List Char} (h : '.' ∉ post) (pre : List Char) :
    ∃ front, front ≠ [] ∧ splitAll '.' (pre ++ '.' :: post) = front ++ [post] := by
  induction pre with
  | nil =>
      exact ⟨[[]], List.cons_ne_nil _ _, by simp [splitAll, splitAll_of_not_mem h]⟩
  | cons a pre ih =>
      obtain ⟨front, hne, hfront⟩ := ih
      by_cases hsep : a = '.'
      · exact ⟨[] :: front, List.cons_ne_nil _ _, by simp [splitAll, hsep, hfront]⟩
      · obtain ⟨part, parts, rfl⟩ := List.exists_cons_of_ne_nil hne
        exact ⟨(a :: part) :: parts, List.cons_ne_nil _ _, by simp [splitAll, hsep, hfront]⟩

theorem stageOf_eq (taskId : String) : Rust.stageOf taskId = Python.stageOf taskId := by
  unfold Rust.stageOf Python.stageOf
  cases hcut : rsplitOnce '.' taskId.toList with
  | none =>
      rw [splitAll_of_not_mem (rsplitOnce_eq_none.mp hcut)]
      simp
  | some cut =>
      obtain ⟨pre, post⟩ := cut
      obtain ⟨htext, hpost⟩ := rsplitOnce_eq_some.mp hcut
      obtain ⟨front, -, hfront⟩ := exists_splitAll_append hpost pre
      rw [htext, hfront]
      simp

theorem byJob_eq (tasks : List TaskState) :
    Rust.byJob tasks = Python.byJob tasks ∧
      ∀ job ∈ Python.byJob tasks, Dict.keys job.2 |>.Nodup := by
  have hfold := @foldl_amend_eq _ _ _ _ TaskState.mapIndex ([] : Dict String String)
    (fun t => Dict.amend (Rust.stageOf t.taskId) (Rust.stateOrNone t)
      (fun _ => Rust.stateOrNone t))
    (fun t states => Dict.assign states (Python.stageOf t.taskId) (Python.stateOf t))
    (fun states => (Dict.keys states).Nodup) List.nodup_nil
    (fun t states h => Dict.nodup_assign _ _ h)
    (fun t states h => by
      rw [stageOf_eq, stateOrNone_eq]
      exact Dict.amend_eq_update h _ (Python.stateOf t) (fun _ => Python.stateOf t))
    tasks [] List.nodup_nil (by rintro _ ⟨⟩)
  exact ⟨hfold.1, hfold.2.2⟩

/-! ## The order of the stages -/

/-- A stage with its state. -/
def withState (states : Dict String String) (stage : String) : String × String :=
  (stage, (states.get? stage).getD "")

theorem map_withState {states : Dict String String} (hnodup : states.keys.Nodup) :
    states.keys.map (withState states) = states := by
  rw [Dict.keys, List.map_map]
  conv_rhs => rw [← List.map_id states]
  refine List.map_congr_left fun e he => ?_
  simp [withState, Dict.get?_of_mem hnodup he]

theorem dedupAfter_eq {last : String × String} {states : List (String × String)}
    (h : ((last :: states).map Prod.fst).Nodup) : Rust.dedupAfter last states = states := by
  induction states generalizing last with
  | nil => rfl
  | cons s rest ih =>
      obtain ⟨hnew, hrest⟩ := List.nodup_cons.mp h
      have hne : s.1 ≠ last.1 := fun heq =>
        hnew (List.mem_map.mpr ⟨s, List.mem_cons_self, heq⟩)
      rw [Rust.dedupAfter, if_neg hne, ih hrest]

theorem dedupByName_eq {states : List (String × String)} (h : (states.map Prod.fst).Nodup) :
    Rust.dedupByName states = states := by
  cases states with
  | nil => rfl
  | cons s rest => rw [Rust.dedupByName, dedupAfter_eq h]

theorem filterMap_find?_eq (names : List String) (states : Dict String String) :
    names.filterMap (fun name => states.find? (fun s => s.1 = name)) =
      (names.filter (· ∈ states.keys)).map (withState states) := by
  induction names with
  | nil => rfl
  | cons name rest ih =>
      cases hfind : states.find? (fun s => s.1 = name) with
      | none =>
          have hget : states.get? name = none := by simp [Dict.get?, hfind]
          rw [List.filterMap_cons, hfind, ih,
            List.filter_cons_of_neg (by simpa using Dict.get?_eq_none_iff.mp hget)]
      | some e =>
          have hname : e.1 = name := by simpa using List.find?_some hfind
          have hget : states.get? name = some e.2 := by simp [Dict.get?, hfind]
          have hmem : name ∈ states.keys := by
            by_contra h
            rw [Dict.get?_eq_none_iff.mpr h] at hget
            cases hget
          rw [List.filterMap_cons, hfind, ih, List.filter_cons_of_pos (by simpa using hmem),
            List.map_cons, withState, hget, ← hname]
          rfl

theorem orderStages_eq {states : Dict String String} (hnodup : states.keys.Nodup) :
    Rust.orderStages states = (Python.ordered states).map (withState states) := by
  have hextra : states.filter (fun s => !Rust.taskOrder.contains s.1) =
      (states.keys.filter (· ∉ Python.taskOrder)).map (withState states) := by
    conv_lhs => rw [← map_withState hnodup]
    rw [List.filter_map]
    congr 1
    refine List.filter_congr fun stage _ => ?_
    simp only [Function.comp_apply, withState, List.contains_eq_mem, decide_not]
    rfl
  have hsorted : ((states.keys.filter (· ∉ Python.taskOrder)).map (withState states)).insertionSort
        (fun a b => a.1 ≤ b.1) =
      ((states.keys.filter (· ∉ Python.taskOrder)).insertionSort (· ≤ ·)).map
        (withState states) :=
    (List.map_insertionSort (· ≤ ·) (fun a b : String × String => a.1 ≤ b.1)
      (withState states) _ fun _ _ _ _ => Iff.rfl).symm
  have hnames : ((((states.keys.filter (· ∉ Python.taskOrder)).insertionSort (· ≤ ·)).map
        (withState states)).map Prod.fst).Nodup := by
    rw [List.map_map]
    change (List.map id _).Nodup
    rw [List.map_id, (List.perm_insertionSort _ _).nodup_iff]
    exact hnodup.filter _
  unfold Rust.orderStages Python.ordered
  dsimp only
  rw [hextra, hsorted, dedupByName_eq hnames, List.map_append]
  exact congrArg (· ++ _) (filterMap_find?_eq Python.taskOrder states)

theorem label_eq {states : Dict String String} (hnodup : states.keys.Nodup) :
    Rust.label states = Python.label states := by
  unfold Rust.label Python.label
  rw [orderStages_eq hnodup, isActive_eq, isFinal_eq]
  dsimp only
  rw [← List.map_reverse, List.find?_map, List.find?_map, List.getLast?_filter]
  have hactive : (fun s : String × String => decide (s.2 ∈ Python.activeTaskStates)) ∘
        withState states =
      fun s => decide ((states.get? s).getD "" ∈ Python.activeTaskStates) := rfl
  have hfinal : (fun s : String × String => decide (s.2 ∈ Python.finalTaskStates)) ∘
        withState states =
      fun s => decide ((states.get? s).getD "" ∈ Python.finalTaskStates) := rfl
  rw [hactive, hfinal]
  cases (Python.ordered states).find?
      (fun s => decide ((states.get? s).getD "" ∈ Python.activeTaskStates)) with
  | some active => rfl
  | none =>
      cases (Python.ordered states).reverse.find?
          (fun s => decide ((states.get? s).getD "" ∈ Python.finalTaskStates)) with
      | none => rfl
      | some last => rfl

/-! ## The stage without a name -/

/-- The last state of a stage in a job. -/
def lastState (tasks : List TaskState) (idx : Int) (stage : String) : Option String :=
  ((tasks.filter (fun t => t.mapIndex = idx ∧ Python.stageOf t.taskId = stage)).getLast?).map
    Python.stateOf

/-- The stage is in one of these states. -/
def In (states : List String) (found : Option String) : Prop :=
  ∃ state ∈ states, found = some state

/-- The frontier is the stage without a name: it is active and no known stage is,
or nothing is active, it succeeded, and no other unknown stage is finished. -/
def Nameless (stateOf : String → Option String) : Prop :=
  (In Python.activeTaskStates (stateOf "") ∧
      ∀ stage ∈ Python.taskOrder, ¬ In Python.activeTaskStates (stateOf stage)) ∨
    ((∀ stage, ¬ In Python.activeTaskStates (stateOf stage)) ∧
      stateOf "" = some "success" ∧
      ∀ stage, stage ∉ Python.taskOrder → In Python.finalTaskStates (stateOf stage) →
        stage = "")

theorem in_iff {states : List String} (h : "" ∉ states) (found : Option String) :
    In states found ↔ found.getD "" ∈ states := by
  cases found with
  | none => simp [In, h]
  | some state => simp [In]

theorem mem_ordered {states : Dict String String} {stage : String} :
    stage ∈ Python.ordered states ↔ stage ∈ states.keys := by
  simp only [Python.ordered, List.mem_append, List.mem_filter, List.mem_insertionSort,
    decide_eq_true_eq]
  by_cases h : stage ∈ Python.taskOrder
  · simp [h]
  · simp [h]

theorem empty_le (text : String) : "" ≤ text := by
  rw [String.le_iff_toList_le]
  exact not_lt.mp (List.not_lt_nil _)

theorem eq_empty_of_le {text : String} (h : text ≤ "") : text = "" :=
  le_antisymm h (empty_le text)

/-- Whatever is in a state of its own is a key. -/
theorem mem_keys_of_in {states : Dict String String} {words : List String} {stage : String}
    (h : In words (states.get? stage)) : stage ∈ states.keys := by
  obtain ⟨state, -, hstate⟩ := h
  by_contra hnot
  rw [Dict.get?_eq_none_iff.mpr hnot] at hstate
  cases hstate

/-- The first active stage. -/
def firstActive (states : Dict String String) : Option String :=
  (Python.ordered states).find?
    (fun s => (states.get? s).getD "" ∈ Python.activeTaskStates)

/-- The last finished stage. -/
def lastFinal (states : Dict String String) : Option String :=
  ((Python.ordered states).filter
    (fun s => (states.get? s).getD "" ∈ Python.finalTaskStates)).getLast?

theorem firstActive_eq_none_iff {states : Dict String String} :
    firstActive states = none ↔
      ∀ stage, ¬ In Python.activeTaskStates (states.get? stage) := by
  rw [firstActive, List.find?_eq_none]
  constructor
  · intro h stage hactive
    exact h stage (mem_ordered.mpr (mem_keys_of_in hactive))
      (by simpa using (in_iff (by decide) _).mp hactive)
  · intro h stage _
    simpa using mt (in_iff (by decide) _).mpr (h stage)

theorem unknown_sorted (states : Dict String String) :
    ((states.keys.filter (· ∉ Python.taskOrder)).insertionSort (· ≤ ·)).Pairwise (· ≤ ·) :=
  List.pairwise_insertionSort _ _

/-- The stage without a name is the first active one when no known stage is active. -/
theorem firstActive_eq_empty_iff {states : Dict String String} :
    firstActive states = some "" ↔
      In Python.activeTaskStates (states.get? "") ∧
        ∀ stage ∈ Python.taskOrder, ¬ In Python.activeTaskStates (states.get? stage) := by
  have hin : ∀ stage, In Python.activeTaskStates (states.get? stage) ↔
      (states.get? stage).getD "" ∈ Python.activeTaskStates :=
    fun stage => in_iff (by decide) (states.get? stage)
  rw [firstActive, Python.ordered, List.find?_append]
  constructor
  · intro h
    cases hknown : (Python.taskOrder.filter (· ∈ states.keys)).find?
        (fun s => (states.get? s).getD "" ∈ Python.activeTaskStates) with
    | some known =>
        rw [hknown] at h
        cases h
        have hmem := (List.mem_filter.mp (List.mem_of_find?_eq_some hknown)).1
        exact absurd hmem (by decide)
    | none =>
        rw [hknown, Option.none_or] at h
        refine ⟨(hin "").mpr (by simpa using List.find?_some h), fun stage hstage hactive => ?_⟩
        refine List.find?_eq_none.mp hknown stage ?_ (by simpa using (hin stage).mp hactive)
        exact List.mem_filter.mpr ⟨hstage, by simpa using mem_keys_of_in hactive⟩
  · rintro ⟨hactive, hknown⟩
    have hnone : (Python.taskOrder.filter (· ∈ states.keys)).find?
        (fun s => (states.get? s).getD "" ∈ Python.activeTaskStates) = none := by
      rw [List.find?_eq_none]
      intro stage hstage
      simpa using mt (hin stage).mpr (hknown stage (List.mem_filter.mp hstage).1)
    have hmem : "" ∈ (states.keys.filter (· ∉ Python.taskOrder)).insertionSort (· ≤ ·) := by
      rw [List.mem_insertionSort]
      exact List.mem_filter.mpr ⟨mem_keys_of_in hactive, by decide⟩
    rw [hnone, Option.none_or]
    have hsorted := unknown_sorted states
    cases hunknown : (states.keys.filter (· ∉ Python.taskOrder)).insertionSort (· ≤ ·) with
    | nil =>
        rw [hunknown] at hmem
        cases hmem
    | cons first rest =>
        rw [hunknown] at hmem hsorted
        have hfirst : first = "" := by
          rcases List.mem_cons.mp hmem with heq | hrest
          · exact heq.symm
          · exact eq_empty_of_le ((List.pairwise_cons.mp hsorted).1 _ hrest)
        subst hfirst
        exact List.find?_cons_of_pos (by simpa using (hin "").mp hactive)

/-- The stage without a name is the last finished one when it is the only unknown one. -/
theorem lastFinal_eq_empty_iff {states : Dict String String} :
    lastFinal states = some "" ↔
      In Python.finalTaskStates (states.get? "") ∧
        ∀ stage, stage ∉ Python.taskOrder → In Python.finalTaskStates (states.get? stage) →
          stage = "" := by
  have hin : ∀ stage, In Python.finalTaskStates (states.get? stage) ↔
      (states.get? stage).getD "" ∈ Python.finalTaskStates :=
    fun stage => in_iff (by decide) (states.get? stage)
  have hmem : ∀ stage, stage ∈ ((states.keys.filter (· ∉ Python.taskOrder)).insertionSort
        (· ≤ ·)).filter (fun s => (states.get? s).getD "" ∈ Python.finalTaskStates) ↔
      stage ∉ Python.taskOrder ∧ In Python.finalTaskStates (states.get? stage) := by
    intro stage
    simp only [List.mem_filter, List.mem_insertionSort, decide_eq_true_eq, ← hin stage]
    exact ⟨fun h => ⟨h.1.2, h.2⟩, fun h => ⟨⟨mem_keys_of_in h.2, h.1⟩, h.2⟩⟩
  have hsorted := (unknown_sorted states).filter
    (fun s => (states.get? s).getD "" ∈ Python.finalTaskStates)
  rw [lastFinal, Python.ordered, List.filter_append, List.getLast?_append]
  generalize ((states.keys.filter (· ∉ Python.taskOrder)).insertionSort (· ≤ ·)).filter
    (fun s => (states.get? s).getD "" ∈ Python.finalTaskStates) = unknown at hmem hsorted
  rcases List.eq_nil_or_concat' unknown with rfl | ⟨front, last, rfl⟩
  · rw [List.getLast?_nil, Option.none_or]
    constructor
    · intro h
      have hknown := (List.mem_filter.mp (List.mem_filter.mp (List.mem_of_getLast? h)).1).1
      exact absurd hknown (by decide)
    · rintro ⟨hfinal, -⟩
      exact absurd ((hmem "").mpr ⟨by decide, hfinal⟩) List.not_mem_nil
  · rw [List.getLast?_concat, Option.some_or, Option.some.injEq]
    have hlast := (hmem last).mp (List.mem_append_right _ List.mem_cons_self)
    constructor
    · rintro rfl
      refine ⟨hlast.2, fun stage hstage hfinal => ?_⟩
      rcases List.mem_append.mp ((hmem stage).mpr ⟨hstage, hfinal⟩) with hfront | hend
      · exact eq_empty_of_le
          ((List.pairwise_append.mp hsorted).2.2 _ hfront _ List.mem_cons_self)
      · exact List.mem_singleton.mp hend
    · exact fun h => h.2 last hlast.1 hlast.2

theorem label_of_active {states : Dict String String} {active : String}
    (h : firstActive states = some active) : Python.label states = active := by
  unfold firstActive at h
  unfold Python.label
  dsimp only
  rw [h]

theorem label_of_final {states : Dict String String} {last : String}
    (hactive : firstActive states = none) (hlast : lastFinal states = some last) :
    Python.label states =
      if (states.get? last).getD "" = "success" then last
      else last ++ ":" ++ (states.get? last).getD "" := by
  unfold firstActive at hactive
  unfold lastFinal at hlast
  unfold Python.label
  dsimp only
  rw [hactive, hlast]

theorem label_of_none {states : Dict String String}
    (hactive : firstActive states = none) (hlast : lastFinal states = none) :
    Python.label states = "pending" := by
  unfold firstActive at hactive
  unfold lastFinal at hlast
  unfold Python.label
  dsimp only
  rw [hactive, hlast]

/-- The frontier of a job is the empty text exactly when it is at the stage without a name. -/
theorem label_eq_empty_iff {states : Dict String String} :
    Python.label states = "" ↔ Nameless states.get? := by
  cases hactive : firstActive states with
  | some active =>
      have hsome : ¬ ∀ stage, ¬ In Python.activeTaskStates (states.get? stage) := by
        rw [← firstActive_eq_none_iff, hactive]
        simp
      rw [label_of_active hactive, Nameless, ← firstActive_eq_empty_iff, hactive]
      simp only [Option.some.injEq, hsome, false_and, or_false]
  | none =>
      have hidle := firstActive_eq_none_iff.mp hactive
      rw [Nameless, ← firstActive_eq_empty_iff, hactive]
      simp only [reduceCtorEq, false_or, hidle, not_false_eq_true, implies_true, true_and]
      have hempty := @lastFinal_eq_empty_iff states
      have hsuccess : states.get? "" = some "success" →
          In Python.finalTaskStates (states.get? "") := fun h =>
        ⟨"success", by decide, h⟩
      cases hlast : lastFinal states with
      | none =>
          rw [hlast] at hempty
          rw [label_of_none hactive hlast]
          constructor
          · intro h
            exact absurd h (by decide)
          · rintro ⟨hstate, hothers⟩
            cases hempty.mpr ⟨hsuccess hstate, hothers⟩
      | some last =>
          rw [hlast, Option.some.injEq] at hempty
          rw [label_of_final hactive hlast]
          constructor
          · intro h
            split at h
            · rename_i hstate
              obtain ⟨⟨state, -, hget⟩, hothers⟩ := hempty.mp h
              rw [h, hget, Option.getD_some] at hstate
              exact ⟨hstate ▸ hget, hothers⟩
            · simp [String.append_eq_empty_iff] at h
          · rintro ⟨hstate, hothers⟩
            have hname := hempty.mpr ⟨hsuccess hstate, hothers⟩
            rw [hname, hstate]
            rfl

/-! ## The states of a run -/

theorem byJob_concat (tasks : List TaskState) (t : TaskState) :
    Python.byJob (tasks ++ [t]) =
      (Python.byJob tasks).update t.mapIndex []
        (fun states => Dict.assign states (Python.stageOf t.taskId) (Python.stateOf t)) := by
  simp [Python.byJob]

theorem get?_byJob (tasks : List TaskState) (idx : Int) (stage : String) :
    Dict.get? (((Python.byJob tasks).get? idx).getD []) stage = lastState tasks idx stage := by
  induction tasks using List.reverseRecOn with
  | nil => rfl
  | append_singleton tasks t ih =>
      rw [byJob_concat, Dict.get?_update, lastState, List.filter_append, List.getLast?_append]
      by_cases hidx : idx = t.mapIndex
      · subst hidx
        rw [if_pos rfl, Option.getD_some, Dict.get?_assign]
        by_cases hstage : stage = Python.stageOf t.taskId
        · subst hstage
          simp
        · simp only [hstage, Ne.symm hstage, if_false, ih, lastState, and_false, decide_false,
            List.filter_cons_of_neg, Bool.false_eq_true, not_false_eq_true, List.filter_nil,
            List.getLast?_nil, Option.none_or]
      · simp only [hidx, Ne.symm hidx, if_false, ih, lastState, false_and, decide_false,
          List.filter_cons_of_neg, Bool.false_eq_true, not_false_eq_true, List.filter_nil,
          List.getLast?_nil, Option.none_or]

theorem mem_keys_byJob {tasks : List TaskState} {idx : Int} :
    idx ∈ (Python.byJob tasks).keys ↔ ∃ t ∈ tasks, t.mapIndex = idx := by
  induction tasks using List.reverseRecOn with
  | nil => simp [Python.byJob, Dict.keys]
  | append_singleton tasks t ih =>
      rw [byJob_concat, Dict.update, Dict.keys_assign]
      split
      · rename_i hold
        rw [ih]
        simp only [List.mem_append, List.mem_singleton]
        constructor
        · rintro ⟨t', ht', heq⟩
          exact ⟨t', Or.inl ht', heq⟩
        · rintro ⟨t', ht' | rfl, heq⟩
          · exact ⟨t', ht', heq⟩
          · exact ih.mp (heq ▸ hold)
      · simp only [List.mem_append, List.mem_singleton, ih]
        constructor
        · rintro (⟨t', ht', heq⟩ | rfl)
          · exact ⟨t', Or.inl ht', heq⟩
          · exact ⟨t, Or.inr rfl, rfl⟩
        · rintro ⟨t', ht' | rfl, heq⟩
          · exact Or.inl ⟨t', ht', heq⟩
          · exact Or.inr heq.symm

theorem nodup_byJob (tasks : List TaskState) : (Python.byJob tasks).keys.Nodup := by
  induction tasks using List.reverseRecOn with
  | nil => exact List.nodup_nil
  | append_singleton tasks t ih =>
      rw [byJob_concat]
      exact Dict.nodup_update _ _ _ ih

/-! ## The frontiers -/

theorem mem_foldl_addFrontier {labels : List String} {found : List String} {label : String} :
    label ∈ labels.foldl Python.addFrontier found ↔ label ∈ found ∨ label ∈ labels := by
  induction labels generalizing found with
  | nil => simp
  | cons first rest ih =>
      rw [List.foldl_cons, ih, List.mem_cons, Python.addFrontier]
      split
      · rename_i hold
        constructor
        · rintro (h | h)
          · exact Or.inl h
          · exact Or.inr (Or.inr h)
        · rintro (h | rfl | h)
          · exact Or.inl h
          · exact Or.inl hold
          · exact Or.inr h
      · simp [or_assoc]

theorem nodup_foldl_addFrontier (labels : List String) {found : List String}
    (h : found.Nodup) : (labels.foldl Python.addFrontier found).Nodup := by
  induction labels generalizing found with
  | nil => exact h
  | cons first rest ih =>
      refine ih ?_
      unfold Python.addFrontier
      split
      · exact h
      · rename_i hnew
        exact List.nodup_append.mpr ⟨h, List.nodup_singleton _,
          fun a ha b hb heq => hnew (List.mem_singleton.mp hb ▸ heq ▸ ha)⟩

theorem intercalate_eq_empty_iff {texts : List String} :
    ", ".intercalate texts = "" ↔ texts = [] ∨ texts = [""] := by
  rcases texts with - | ⟨first, - | ⟨second, rest⟩⟩
  · simp
  · simp
  · simp [String.append_eq_empty_iff]

/-- The frontiers of the jobs, as both collect them. -/
def frontiers (tasks : List TaskState) : List String :=
  ((Python.byJob tasks).map (fun job => Python.label job.2)).foldl Python.addFrontier []

theorem rust_stageProgress_eq (tasks : List TaskState) :
    Rust.stageProgress tasks =
      if frontiers tasks = [] then "-" else ", ".intercalate (frontiers tasks) := by
  obtain ⟨hjobs, hnodup⟩ := byJob_eq tasks
  have hlabels : (Rust.byJob tasks).map (fun job => Rust.label job.2) =
      (Python.byJob tasks).map (fun job => Python.label job.2) := by
    rw [hjobs]
    exact List.map_congr_left fun job hjob => label_eq (hnodup job hjob)
  have hadd : (fun (found : List String) label =>
      if found.contains label then found else found ++ [label]) = Python.addFrontier := by
    funext found label
    simp [Python.addFrontier]
  unfold Rust.stageProgress frontiers
  dsimp only
  rw [hlabels, hadd]
  simp only [List.isEmpty_iff]

theorem python_stageProgress_eq (tasks : List TaskState) :
    Python.stageProgress tasks =
      if ", ".intercalate (frontiers tasks) = "" then "-"
      else ", ".intercalate (frontiers tasks) := by
  change (Python.truthy (some (", ".intercalate (frontiers tasks)))).getD "-" = _
  by_cases h : ", ".intercalate (frontiers tasks) = ""
  · rw [if_pos h, h]
    rfl
  · simp [Python.truthy, h]

theorem mem_frontiers {tasks : List TaskState} {label : String} :
    label ∈ frontiers tasks ↔ ∃ job ∈ Python.byJob tasks, Python.label job.2 = label := by
  rw [frontiers, mem_foldl_addFrontier]
  simp

/-- The only frontier is the empty text exactly when every job is at the nameless stage. -/
theorem frontiers_eq_iff {tasks : List TaskState} :
    frontiers tasks = [""] ↔
      tasks ≠ [] ∧ ∀ t ∈ tasks, Nameless (lastState tasks t.mapIndex) := by
  have hjob : ∀ job ∈ Python.byJob tasks,
      Nameless (lastState tasks job.1) ↔ Python.label job.2 = "" := by
    intro job hmem
    have hget : (Python.byJob tasks).get? job.1 = some job.2 :=
      Dict.get?_of_mem (nodup_byJob tasks) hmem
    have hstates : lastState tasks job.1 = Dict.get? job.2 := by
      funext stage
      rw [← get?_byJob, hget, Option.getD_some]
    rw [hstates, label_eq_empty_iff]
  have hall : (∀ label ∈ frontiers tasks, label = "") ↔
      ∀ t ∈ tasks, Nameless (lastState tasks t.mapIndex) := by
    constructor
    · intro h t ht
      obtain ⟨job, hmem, hidx⟩ :=
        List.mem_map.mp (mem_keys_byJob.mpr ⟨t, ht, rfl⟩ : t.mapIndex ∈ _)
      rw [← hidx]
      exact (hjob job hmem).mpr (h _ (mem_frontiers.mpr ⟨job, hmem, rfl⟩))
    · intro h label hlabel
      obtain ⟨job, hmem, rfl⟩ := mem_frontiers.mp hlabel
      obtain ⟨t, ht, hidx⟩ := mem_keys_byJob.mp (List.mem_map.mpr ⟨job, hmem, rfl⟩)
      exact (hjob job hmem).mp (hidx ▸ h t ht)
  have hempty : frontiers tasks = [] ↔ tasks = [] := by
    constructor
    · intro h
      cases tasks with
      | nil => rfl
      | cons t rest =>
          obtain ⟨job, hmem, -⟩ :=
            List.mem_map.mp (mem_keys_byJob.mpr ⟨t, List.mem_cons_self, rfl⟩ : t.mapIndex ∈ _)
          have hlabel := mem_frontiers.mpr ⟨job, hmem, rfl⟩
          rw [h] at hlabel
          cases hlabel
    · rintro rfl
      rfl
  rw [← hall, ne_eq, ← hempty]
  constructor
  · intro h
    rw [h]
    simp
  · rintro ⟨hne, hsame⟩
    have hrep := List.eq_replicate_iff.mpr ⟨rfl, hsame⟩
    have hnodup : (frontiers tasks).Nodup := nodup_foldl_addFrontier _ List.nodup_nil
    rw [hrep, List.nodup_replicate] at hnodup
    have hlength : (frontiers tasks).length = 1 := by
      have := List.length_pos_iff.mpr hne
      omega
    rw [hrep, hlength]
    rfl

/-- The labels differ exactly when every job is at the stage without a name. -/
theorem stageProgress_eq_iff (tasks : List TaskState) :
    Rust.stageProgress tasks = Python.stageProgress tasks ↔
      ¬ (tasks ≠ [] ∧ ∀ t ∈ tasks, Nameless (lastState tasks t.mapIndex)) := by
  rw [rust_stageProgress_eq, python_stageProgress_eq, ← frontiers_eq_iff]
  simp only [intercalate_eq_empty_iff]
  by_cases hnil : frontiers tasks = []
  · simp [hnil]
  · by_cases hone : frontiers tasks = [""]
    · simp [hone]
    · simp [hnil, hone]

/-! ## The printed numbers -/

theorem blank_not_mem_toDigits (n : Nat) : ' ' ∉ Nat.toDigits 10 n := by
  intro h
  have hdigit := Nat.isDigit_of_mem_toDigits (by decide) le_rfl h
  exact absurd hdigit (by decide)

theorem toDigits_inj {m n : Nat} (h : Nat.toDigits 10 m = Nat.toDigits 10 n) : m = n := by
  rw [← Nat.ofDigitChars_ten_toDigits (n := m), h, Nat.ofDigitChars_ten_toDigits]

theorem toList_counted (passed failed pending : Nat) :
    (counted passed failed pending).toList =
      Nat.toDigits 10 passed ++ ' ' :: ("pass / ".toList ++
        (Nat.toDigits 10 failed ++ ' ' :: ("fail / ".toList ++
          (Nat.toDigits 10 pending ++ ' ' :: "pending".toList)))) := by
  have hpass : " pass / ".toList = ' ' :: "pass / ".toList := by decide
  have hfail : " fail / ".toList = ' ' :: "fail / ".toList := by decide
  have hpending : " pending".toList = ' ' :: "pending".toList := by decide
  simp only [counted, Nat.toString_eq_ofList_toDigits, String.toList_append,
    String.toList_ofList, List.append_assoc, hpass, hfail, hpending, List.cons_append]

theorem counted_inj {passed failed pending passed' failed' pending' : Nat}
    (h : counted passed failed pending = counted passed' failed' pending') :
    passed = passed' ∧ failed = failed' ∧ pending = pending' := by
  have htext := congrArg String.toList h
  rw [toList_counted, toList_counted] at htext
  obtain ⟨hpassed, htext⟩ :=
    cut_inj (blank_not_mem_toDigits _) (blank_not_mem_toDigits _) htext
  obtain ⟨hfailed, htext⟩ :=
    cut_inj (blank_not_mem_toDigits _) (blank_not_mem_toDigits _)
      (List.append_cancel_left htext)
  obtain ⟨hpending, -⟩ :=
    cut_inj (blank_not_mem_toDigits _) (blank_not_mem_toDigits _)
      (List.append_cancel_left htext)
  exact ⟨toDigits_inj hpassed, toDigits_inj hfailed, toDigits_inj hpending⟩

/-! ## The counters -/

section Checks

variable (upper : String → String)

/-- The classes of the checks, in their order. -/
def verdicts (items : List (Option Check)) : List Python.Verdict :=
  (items.filterMap id).map (Python.verdictOf upper)

def Rust.Tally.add (tally : Rust.Tally) : Python.Verdict → Rust.Tally
  | .passed => { tally with passed := tally.passed + 1 }
  | .failed => { tally with failed := tally.failed + 1 }
  | .pending => { tally with pending := tally.pending + 1 }

theorem field_eq (value : Option String) : Rust.field value = Python.truthy value := by
  cases value with
  | none => rfl
  | some text =>
      by_cases h : text = ""
      · subst h
        rfl
      · simp [Rust.field, Python.truthy, Option.filter, h]

theorem countCheck_eq (tally : Rust.Tally) (item : Check) :
    Rust.countCheck upper tally (some item) = tally.add (Python.verdictOf upper item) := by
  simp only [Rust.countCheck, Python.verdictOf, field_eq, Bool.and_eq_true, Bool.not_eq_true',
    bne_iff_ne, Option.isNone_iff_eq_none, List.contains_eq_mem, decide_eq_true_eq,
    String.isEmpty_eq_false_iff, and_assoc,
    show Rust.checkPass = Python.checkPass from rfl,
    show Rust.checkFail = Python.checkFail from rfl]
  split
  · rfl
  · split
    · rfl
    · split <;> rfl

/-- The counters hold the numbers of the checks of each class, modulo `2 ^ 32`. -/
theorem foldl_countCheck (items : List (Option Check)) (tally : Rust.Tally) :
    items.foldl (Rust.countCheck upper) tally =
      ⟨tally.passed + UInt32.ofNat ((verdicts upper items).count .passed),
        tally.failed + UInt32.ofNat ((verdicts upper items).count .failed),
        tally.pending + UInt32.ofNat ((verdicts upper items).count .pending)⟩ := by
  induction items generalizing tally with
  | nil => simp [verdicts]
  | cons item rest ih =>
      cases item with
      | none =>
          rw [List.foldl_cons, ih]
          rfl
      | some item =>
          have hverdicts : verdicts upper (some item :: rest) =
              Python.verdictOf upper item :: verdicts upper rest := rfl
          rw [List.foldl_cons, countCheck_eq, ih, hverdicts]
          cases Python.verdictOf upper item <;>
            simp [Rust.Tally.add, UInt32.ofNat_add, UInt32.add_assoc, UInt32.add_comm]

/-- The list of checks has fewer than `2 ^ 32` checks of each class. -/
def Countable : CheckRollup → Prop
  | none => True
  | some items => ∀ verdict, (verdicts upper items).count verdict < 2 ^ 32

theorem summarizeChecks_eq_iff (checks : CheckRollup) :
    Rust.summarizeChecks upper checks = Python.summarizeChecks upper checks ↔
      Countable upper checks := by
  rcases checks with - | ⟨- | ⟨item, rest⟩⟩
  · simp [Rust.summarizeChecks, Python.summarizeChecks, Countable]
  · simp [Rust.summarizeChecks, Python.summarizeChecks, Countable, verdicts]
  · generalize hitems : item :: rest = items
    have hne : items.isEmpty = false := by
      rw [← hitems]
      rfl
    have hpython : Python.summarizeChecks upper (some items) =
        counted ((verdicts upper items).count .passed) ((verdicts upper items).count .failed)
          ((verdicts upper items).count .pending) := by
      rw [← hitems]
      rfl
    have hrust : Rust.summarizeChecks upper (some items) =
        counted ((verdicts upper items).count .passed % 2 ^ 32)
          ((verdicts upper items).count .failed % 2 ^ 32)
          ((verdicts upper items).count .pending % 2 ^ 32) := by
      simp only [Rust.summarizeChecks, hne, Bool.false_eq_true, if_false, foldl_countCheck,
        UInt32.zero_add, UInt32.toNat_ofNat']
    rw [hpython, hrust, Countable]
    constructor
    · intro h verdict
      obtain ⟨hpassed, hfailed, hpending⟩ := counted_inj h
      cases verdict with
      | passed => exact (Nat.mod_eq_iff_lt (by decide)).mp hpassed
      | failed => exact (Nat.mod_eq_iff_lt (by decide)).mp hfailed
      | pending => exact (Nat.mod_eq_iff_lt (by decide)).mp hpending
    · intro h
      rw [Nat.mod_eq_of_lt (h .passed), Nat.mod_eq_of_lt (h .failed),
        Nat.mod_eq_of_lt (h .pending)]

end Checks

/-- The roll-ups agree unless every job is at the stage without a name, or a class of the
checks does not fit into a counter. -/
theorem rollups_agree_iff
    (dagId runId : String)
    (tasks : List TaskState)
    (fanOut : List Entry)
    (fallback : List String)
    (upper : String → String)
    (checks : CheckRollup) :
    (Rust.groupJobs dagId runId tasks fanOut fallback =
          Python.groupJobs dagId runId tasks fanOut fallback ∧
        Rust.jobState tasks = Python.jobState tasks ∧
        Rust.stageProgress tasks = Python.stageProgress tasks ∧
        Rust.summarizeChecks upper checks = Python.summarizeChecks upper checks) ↔
      ¬ (tasks ≠ [] ∧ ∀ t ∈ tasks, Nameless (lastState tasks t.mapIndex)) ∧
        Countable upper checks := by
  rw [stageProgress_eq_iff, summarizeChecks_eq_iff]
  constructor
  · rintro ⟨-, -, hlabels, hcounts⟩
    exact ⟨hlabels, hcounts⟩
  · rintro ⟨hlabels, hcounts⟩
    exact ⟨groupJobs_eq dagId runId tasks fanOut fallback, jobState_eq tasks, hlabels, hcounts⟩

/-- A task whose id ends in a dot runs: one label is a dash, the other is empty. -/
theorem rollups_differ :
    Python.stageProgress [⟨"job.", 0, some "running"⟩] = "-" ∧
      Rust.stageProgress [⟨"job.", 0, some "running"⟩] = "" := by
  decide +kernel

end Rollup
end SwFactory
