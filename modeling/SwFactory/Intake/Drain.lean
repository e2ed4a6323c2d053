import Mathlib.Data.List.Dedup
import SwFactory.Intake.Backlog

/-!
# What a drained backlog selects

The loop of `select_backlog` takes the first candidates that are ready, and every
other candidate has its reason.  Whether they are the first issues that nothing
holds back depends on the bodies of the issues ahead: a body is read right when the
line that is read blocks the issue exactly if all of its lines do.

Source: `intake_governance.py` (`select_backlog`, `drain_line`).
-/

namespace SwFactory
namespace Intake

open Lexical
open Machine

/-! ## The loop -/

section Loop

variable (completed : List Nat)
variable (limit : Int)

/-- Nothing but the batch limit keeps the candidate back. -/
def ready (item : Candidate) : Bool :=
  decide (item.state = .opened) && !item.active && !item.implementationPrOpen &&
    item.prerequisites.all (fun dep => decide (dep ∈ completed))

variable {completed : List Nat}
variable {limit : Int}

theorem skipReason_eq_none_iff {full : Bool} {item : Candidate} :
    skipReason completed full item = none ↔ ready completed item = true ∧ full = false := by
  have hmissing : item.prerequisites.filter (fun dep => decide (dep ∉ completed)) = [] ↔
      item.prerequisites.all (fun dep => decide (dep ∈ completed)) = true := by
    simp [List.filter_eq_nil_iff]
  unfold skipReason ready
  split
  · next hstate => simp [hstate]
  · next hstate =>
      rw [ne_eq, not_not] at hstate
      split
      · next hactive => simp [hactive]
      · next hactive =>
          split
          · next hopen => simp [hopen]
          · next hopen =>
              dsimp only
              split
              · next hblocked =>
                  have hnot := mt hmissing.mpr hblocked
                  simp [hnot]
              · next hblocked =>
                  rw [ne_eq, not_not] at hblocked
                  rw [hmissing.mp hblocked]
                  split
                  · next hfull => simp [hfull]
                  · next hfull => simp [hstate, hactive, hopen, hfull]

/-- A round selects the candidate or skips it. -/
theorem take_cases (s : Selection) (item : Candidate) :
    (ready completed item = true ∧ (s.selected.length : Int) < limit ∧
        s.take completed limit item = { s with selected := s.selected ++ [item] }) ∨
      ((ready completed item = true → limit ≤ s.selected.length) ∧
        ∃ reason, s.take completed limit item =
          { s with skipped := s.skipped.assign item.issue reason }) := by
  cases hreason : skipReason completed (limit ≤ s.selected.length) item with
  | none =>
      obtain ⟨hready, hroom⟩ := skipReason_eq_none_iff.mp hreason
      refine Or.inl ⟨hready, by simpa using hroom, ?_⟩
      rw [Selection.take, hreason]
  | some reason =>
      refine Or.inr ⟨fun hready => ?_, reason, by rw [Selection.take, hreason]⟩
      by_contra hroom
      have hnone := skipReason_eq_none_iff.mpr ⟨hready, decide_eq_false hroom⟩
      rw [hnone] at hreason
      cases hreason

/-- The loop selects the first candidates that are ready. -/
theorem selected_foldl (items : List Candidate) (s : Selection) :
    (items.foldl (Selection.take completed limit) s).selected =
      s.selected ++
        (items.filter (ready completed)).take (limit - s.selected.length).toNat := by
  induction items generalizing s with
  | nil => simp
  | cons item items ih =>
      rw [List.foldl_cons, ih]
      rcases @take_cases completed limit s item with
        ⟨hready, hroom, htake⟩ | ⟨hfull, reason, htake⟩
      · have hcount : (limit - s.selected.length).toNat =
            (limit - (s.selected ++ [item]).length).toNat + 1 := by
          rw [List.length_append, List.length_singleton]
          omega
        rw [htake, List.filter_cons_of_pos hready, hcount, List.take_succ_cons, List.append_assoc]
        rfl
      · rw [htake]
        by_cases hready : ready completed item = true
        · have hnone : (limit - s.selected.length).toNat = 0 := by
            have := hfull hready
            omega
          simp [hnone]
        · rw [List.filter_cons_of_neg hready]

/-- The loop puts every candidate into one of the two places. -/
theorem places_foldl (items : List Candidate) (s : Selection)
    (hnodup : (s.skipped.keys ++ items.map Candidate.issue).Nodup) :
    ((items.foldl (Selection.take completed limit) s).selected.map Candidate.issue ++
        (items.foldl (Selection.take completed limit) s).skipped.keys).Perm
      (s.selected.map Candidate.issue ++ s.skipped.keys ++ items.map Candidate.issue) := by
  induction items generalizing s with
  | nil => simp
  | cons item items ih =>
      rw [List.foldl_cons]
      rcases @take_cases completed limit s item with
        ⟨-, -, htake⟩ | ⟨-, reason, htake⟩
      · rw [htake]
        refine (ih _ ?_).trans ?_
        · exact hnodup.sublist ((List.sublist_cons_self _ _).append_left _)
        · simp only [List.map_append, List.map_cons, List.map_nil, List.append_assoc,
            List.cons_append, List.nil_append]
          exact (List.perm_middle.symm).append_left _
      · have hnew : item.issue ∉ s.skipped.keys := fun hmem =>
          (List.nodup_append.mp hnodup).2.2 _ hmem _ List.mem_cons_self rfl
        have hkeys : (s.skipped.assign item.issue reason).keys = s.skipped.keys ++ [item.issue] := by
          rw [Dict.keys_assign, if_neg hnew]
        rw [htake]
        refine (ih _ ?_).trans ?_
        · simpa [hkeys] using hnodup
        · simp [hkeys]

end Loop

/-! ## The first of a list -/

theorem not_mem_take_filter {α β : Type} {f : α → β} {p : α → Bool} {first : α} {items : List α}
    (hfirst : f first ∉ items.map f) {n : Nat} :
    f first ∉ ((items.filter p).take n).map f :=
  fun h => hfirst (((List.take_sublist _ _).trans List.filter_sublist).map f |>.subset h)

/-- Two selections of a list are one where they agree on what is reached. -/
theorem take_filter_eq_iff {α β : Type} [DecidableEq α] {f : α → β} {p q : α → Bool}
    {items : List α} (hnodup : (items.map f).Nodup) (batch : Nat) :
    ((items.filter p).take batch).map f = ((items.filter q).take batch).map f ↔
      ∀ item ∈ items, ((items.takeWhile (· ≠ item)).filter q).length < batch → p item = q item := by
  induction items generalizing batch with
  | nil => simp
  | cons first items ih =>
      rw [List.map_cons, List.nodup_cons] at hnodup
      obtain ⟨hfirst, hnodup⟩ := hnodup
      have hne : ∀ item ∈ items, first ≠ item := fun item hitem heq =>
        hfirst (heq ▸ List.mem_map_of_mem hitem)
      have hahead : ∀ item ∈ items, ((first :: items).takeWhile (· ≠ item)) =
          first :: items.takeWhile (· ≠ item) := by
        intro item hitem
        rw [List.takeWhile_cons_of_pos (by simpa using hne item hitem)]
      have hself : (first :: items).takeWhile (· ≠ first) = [] := by
        rw [List.takeWhile_cons_of_neg (by simp)]
      cases batch with
      | zero => simp
      | succ batch =>
          rw [List.forall_mem_cons, hself]
          simp only [List.filter_nil, List.length_nil, Nat.zero_lt_succ, true_implies]
          cases hp : p first <;> cases hq : q first
          · have htail := ih hnodup (batch + 1)
            simp only [List.filter_cons, hp, hq, Bool.false_eq_true, if_false, true_and]
            rw [htail]
            refine forall₂_congr fun item hitem => ?_
            rw [hahead item hitem, List.filter_cons_of_neg (by simp [hq])]
          · -- only the other selection begins with the first item
            simp only [List.filter_cons, hp, hq, Bool.false_eq_true, if_false, if_true,
              false_and, iff_false, List.take_succ_cons, List.map_cons]
            exact fun heq => not_mem_take_filter hfirst (heq ▸ List.mem_cons_self)
          · simp only [List.filter_cons, hp, hq, Bool.false_eq_true, if_false, if_true,
              false_and, iff_false, List.take_succ_cons, List.map_cons, reduceCtorEq]
            exact fun heq => not_mem_take_filter hfirst (heq.symm ▸ List.mem_cons_self)
          · have htail := ih hnodup batch
            simp only [List.filter_cons, hp, hq, if_true, true_and, List.take_succ_cons,
              List.map_cons, List.cons.injEq]
            rw [htail]
            refine forall₂_congr fun item hitem => ?_
            rw [hahead item hitem, List.filter_cons_of_pos hq, List.length_cons,
              Nat.succ_lt_succ_iff]

/-! ## The issues of a line -/

section Line

variable (digit : Char → Option Nat)
variable (s : Source)
variable (active : List Nat)

/-- The issue of that number is closed: every listed issue is open. -/
def Source.closed (n : Nat) : Bool :=
  decide (n ∉ s.known) && decide (s.fetch n = some .closed)

/-- Open, not active, and without an open pull request of the factory. -/
def Source.startable (item : Issue) : Bool :=
  decide (item.state = .opened) && !active.contains item.number && !s.prOpen item

/-- Every number on every line of prerequisites is that of a closed issue. -/
def Source.unblocked (item : Issue) : Bool :=
  (namedPrerequisites digit item.body).all s.closed

def Source.eligible (item : Issue) : Bool :=
  s.startable active item && s.unblocked digit item

/-- `(priority, issue number)`, compared. -/
def Issue.le (a b : Issue) : Prop :=
  priorityOf digit a.title < priorityOf digit b.title ∨
    (priorityOf digit a.title = priorityOf digit b.title ∧ a.number ≤ b.number)

instance : DecidableRel (Issue.le digit) :=
  fun _ _ => inferInstanceAs (Decidable (_ ∨ _))

/-- The listed issues in the order of the selection. -/
def Source.inOrder : List Issue :=
  s.listed.insertionSort (Issue.le digit)

/-- The first eligible issues. -/
def Source.firstEligible (batch : Nat) : List Issue :=
  ((s.inOrder digit).filter (s.eligible digit active)).take batch

/--
The first eligible issues are selected, and every listed issue is either selected
or has exactly one recorded reason.
-/
structure StartsFirst (batch : Nat) (selection : Selection) : Prop where
  selected : selection.selected.map Candidate.issue =
    (s.firstEligible digit active batch).map Issue.number
  accounted : ∀ item ∈ s.listed,
    (selection.selected.map Candidate.issue ++ selection.skipped.keys).count item.number = 1

/-- Fewer eligible issues than the batch takes stand ahead of the issue. -/
def Source.Reached (batch : Nat) (item : Issue) : Prop :=
  (((s.inOrder digit).takeWhile (· ≠ item)).filter (s.eligible digit active)).length < batch

variable {digit : Char → Option Nat}
variable {s : Source}
variable {active : List Nat}

theorem mem_inOrder {item : Issue} : item ∈ s.inOrder digit ↔ item ∈ s.listed :=
  List.mem_insertionSort _

theorem nodup_inOrder : ((s.inOrder digit).map Issue.number).Nodup :=
  (((List.perm_insertionSort (Issue.le digit) s.listed).map Issue.number).nodup_iff).mpr s.distinct

/-- The prerequisites that were fetched. -/
theorem mem_completed {completed : List Nat} (h : s.completed digit = some completed)
    {item : Issue} (hitem : item ∈ s.listed) {dep : Nat}
    (hdep : dep ∈ prerequisitesOf digit item.body) :
    dep ∈ completed ↔ s.closed dep = true := by
  obtain ⟨states, hstates, rfl⟩ := Option.map_eq_some_iff.mp h
  have hfetched : ∀ e, e ∈ states ↔ e.1 ∈ s.wanted digit ∧ s.fetch e.1 = some e.2 := by
    clear h
    generalize s.wanted digit = wanted at hstates
    induction wanted generalizing states with
    | nil =>
        cases hstates
        simp
    | cons first wanted ih =>
        rw [List.mapM_cons] at hstates
        obtain ⟨entry, hentry, hstates⟩ := Option.bind_eq_some_iff.mp hstates
        obtain ⟨rest, hrest, hstates⟩ := Option.bind_eq_some_iff.mp hstates
        obtain ⟨state, hstate, rfl⟩ := Option.map_eq_some_iff.mp hentry
        cases hstates
        intro e
        rw [List.mem_cons, List.mem_cons, ih rest hrest e]
        constructor
        · rintro (rfl | ⟨hmem, hfetch⟩)
          · exact ⟨Or.inl rfl, hstate⟩
          · exact ⟨Or.inr hmem, hfetch⟩
        · rintro ⟨heq | hmem, hfetch⟩
          · refine Or.inl (Prod.ext heq ?_)
            rw [heq, hstate] at hfetch
            exact (Option.some.inj hfetch).symm
          · exact Or.inr ⟨hmem, hfetch⟩
  have hwanted : dep ∈ s.wanted digit ↔ dep ∉ s.known := by
    have hnamed : dep ∈ s.listed.flatMap (fun item => prerequisitesOf digit item.body) :=
      List.mem_flatMap.mpr ⟨item, hitem, hdep⟩
    rw [Source.wanted, List.mem_insertionSort, List.mem_dedup, List.mem_filter, decide_eq_true_eq]
    exact and_iff_right hnamed
  simp only [List.mem_map, List.mem_filter, decide_eq_true_eq, hfetched, Source.closed,
    Bool.and_eq_true]
  constructor
  · rintro ⟨⟨_, state⟩, ⟨⟨hmem, hfetch⟩, hstate⟩, rfl⟩
    dsimp only at hmem hfetch hstate
    exact ⟨hwanted.mp hmem, hstate ▸ hfetch⟩
  · rintro ⟨hknown, hfetch⟩
    exact ⟨(dep, .closed), ⟨⟨hwanted.mpr hknown, hfetch⟩, rfl⟩, rfl⟩

theorem ready_candidate {completed : List Nat} (h : s.completed digit = some completed)
    {item : Issue} (hitem : item ∈ s.listed) :
    ready completed (s.candidate digit active item) =
      (s.startable active item && (prerequisitesOf digit item.body).all s.closed) := by
  have hall : (prerequisitesOf digit item.body).all (fun dep => decide (dep ∈ completed)) =
      (prerequisitesOf digit item.body).all s.closed := by
    rw [Bool.eq_iff_iff, List.all_eq_true, List.all_eq_true]
    refine forall₂_congr fun dep hdep => ?_
    rw [decide_eq_true_eq]
    exact mem_completed h hitem hdep
  unfold ready Source.startable
  exact congrArg _ hall

/-- Every listed issue has its place. -/
theorem accounted_of_drainLine {batch : Int} {selection : Selection}
    (h : drainLine digit s active batch = some selection) :
    ∀ item ∈ s.listed,
      (selection.selected.map Candidate.issue ++ selection.skipped.keys).count item.number = 1 := by
  obtain ⟨completed, -, h⟩ := Option.bind_eq_some_iff.mp h
  unfold selectBacklog at h
  split at h
  · cases h
  · cases h
    intro item hitem
    have hnumbers : ((s.listed.map (s.candidate digit active)).insertionSort Candidate.le).map
        Candidate.issue |>.Perm (s.listed.map Issue.number) := by
      refine ((List.perm_insertionSort Candidate.le _).map Candidate.issue).trans ?_
      rw [List.map_map]
      exact List.Perm.refl _
    have hplaces := @places_foldl completed batch
      ((s.listed.map (s.candidate digit active)).insertionSort Candidate.le) ⟨[], []⟩
      ((hnumbers.nodup_iff).mpr s.distinct)
    rw [(hplaces.trans hnumbers).count_eq]
    exact List.count_eq_one_of_mem s.distinct (List.mem_map_of_mem hitem)

/-- The candidates that are selected. -/
theorem selected_of_drainLine {batch : Nat} {selection : Selection}
    (h : drainLine digit s active batch = some selection) :
    selection.selected.map Candidate.issue =
      (((s.inOrder digit).filter (fun item => s.startable active item &&
        (prerequisitesOf digit item.body).all s.closed)).take batch).map Issue.number := by
  obtain ⟨completed, hcompleted, h⟩ := Option.bind_eq_some_iff.mp h
  unfold selectBacklog at h
  split at h
  · cases h
  · cases h
    have hsorted : (s.listed.map (s.candidate digit active)).insertionSort Candidate.le =
        (s.inOrder digit).map (s.candidate digit active) :=
      (List.map_insertionSort (Issue.le digit) Candidate.le _ _ fun _ _ _ _ => Iff.rfl).symm
    have hready : (s.inOrder digit).filter (ready completed ∘ s.candidate digit active) =
        (s.inOrder digit).filter (fun item => s.startable active item &&
          (prerequisitesOf digit item.body).all s.closed) :=
      List.filter_congr fun item hitem => ready_candidate hcompleted (mem_inOrder.mp hitem)
    have hlimit : ((batch : Int) - ([] : List Candidate).length).toNat = batch := by
      simp
    rw [selected_foldl, hsorted, List.filter_map, hready, hlimit, List.nil_append, ← List.map_take,
      List.map_map]
    rfl

end Line

def asciiDigit (c : Char) : Option Nat :=
  if '0' ≤ c && c ≤ '9' then some (c.toNat - '0'.toNat) else none

/-- One open issue that waits for a closed issue and, if there is a second line, for an open one. -/
def waiting (second : String) : Source where
  listed := [⟨7, "Ship".toList, ("Depends on: #1\n" ++ second).toList, .opened⟩]
  heads := []
  fetch n := if n = 1 then some .closed else some .opened
  distinct := by simp
  opened := by simp

def seventh : Candidate :=
  ⟨7, .opened, 9, [1], false, false⟩

end Intake
end SwFactory
