import SwFactory.Admission.Conservation

/-!
# Durable admission: first come, first served

Two orders of one class that ask for the same units stand or fall together: as
long as nothing is given back, what blocks one blocks the other.  Within one
drain units are only taken, so the order that is ahead at its start is admitted
first or neither is.

Across drains this is lost.  A blocked order is moved to the end of its class,
and the turns of a drain may end before its twin is moved behind it again.
`fifo_within_class` is the guarantee for drains that find twins in the order of
their submission.
-/

namespace SwFactory
namespace Admission

open Text Machine

/-- Orders of one class that ask for the same units. -/
structure Twins (a b : Order) : Prop where
  priority : a.priority = b.priority
  actor : a.actor = b.actor
  blueprint : a.blueprint = b.blueprint
  repos : (a.members.map Member.repo).Perm (b.members.map Member.repo)

instance (a b : Order) : Decidable (Twins a b) :=
  decidable_of_iff
    (a.priority = b.priority ∧ a.actor = b.actor ∧
      a.blueprint = b.blueprint ∧
      (a.members.map Member.repo).Perm (b.members.map Member.repo))
    ⟨fun h => ⟨h.1, h.2.1, h.2.2.1, h.2.2.2⟩,
      fun h => ⟨h.priority, h.actor, h.blueprint, h.repos⟩⟩

section Requests

variable {limits : Limits} {s s' : Store} {a b : Order}
variable {repos repos' : List String} {actor blueprint : String}

/-- Sorting forgets the order. -/
theorem insertionSort_congr (h : repos.Perm repos') :
    repos.insertionSort (· ≤ ·) = repos'.insertionSort (· ≤ ·) := by
  refine List.Perm.eq_of_pairwise' (r := (· ≤ ·))
    (List.pairwise_insertionSort _ _) (List.pairwise_insertionSort _ _) ?_
  exact (List.perm_insertionSort _ _).trans
    (h.trans (List.perm_insertionSort _ _).symm)

/-- The checks do not depend on the order of the members. -/
theorem checks_perm (h : repos.Perm repos') (held : List HeldUnit) :
    checks limits repos actor blueprint held =
      checks limits repos' actor blueprint held := by
  by_cases hnil : repos = []
  · subst hnil
    rw [h.nil_eq]
  · have hnil' : repos' ≠ [] := fun hnil' => hnil (by simpa [hnil'] using h)
    unfold checks
    simp only [hnil, hnil', if_false, h.length_eq,
      insertionSort_congr h.dedup, h.countP_eq]

/-- Twins fit together. -/
theorem Twins.fits (h : Twins a b) : s.Fits limits a ↔ s.Fits limits b := by
  unfold Store.Fits capacityBlock
  rw [checks_perm h.repos, h.actor, h.blueprint]

/-- With more units held, less fits. -/
theorem Store.Fits.of_le
    (hle : ∀ φ : HeldUnit → Bool,
      s.heldMembers.countP φ ≤ s'.heldMembers.countP φ)
    (h : s'.Fits limits a) : s.Fits limits a := by
  have htotal := hle (fun _ => true)
  simp only [List.countP_true] at htotal
  unfold Store.Fits capacityBlock at h ⊢
  rw [firstBlock_eq_none] at h ⊢
  intro c hc
  simp only [checks, List.mem_append, List.mem_cons, List.mem_map,
    List.not_mem_nil, or_false] at hc h
  -- the checks of both stores differ in the units that are held already
  rcases hc with (rfl | ⟨repo, hrepo, rfl⟩) | rfl | rfl
  · exact (Nat.add_le_add_right htotal _).trans (h _ (Or.inl (Or.inl rfl)))
  · exact (Nat.add_le_add_right (hle _) _).trans
      (h _ (Or.inl (Or.inr ⟨repo, hrepo, rfl⟩)))
  · exact (Nat.add_le_add_right (hle _) _).trans
      (h _ (Or.inr (Or.inl rfl)))
  · exact (Nat.add_le_add_right (hle _) _).trans
      (h _ (Or.inr (Or.inr rfl)))

end Requests

section Keys

variable {Q : Order → Terminal → Prop}
variable {hashes : Hashes} {limits : Limits} {s s' : Store} {a b o o' : Order}

/-- The display key, from the repositories of the members. -/
def displayKey (hashes : Hashes) (repos : List String) : String :=
  let sorted := repos.insertionSort (· ≤ ·)
  if sorted.dedup.length = 1 then sorted.headD ""
  else hashes.multiRepoKey sorted

/-- The order is filed under the key of its members. -/
def Order.Filed (hashes : Hashes) (o : Order) : Prop :=
  o.repo = displayKey hashes (o.members.map Member.repo)

theorem Order.Filed.of_sameWork (h : o.Filed hashes) (hsame : SameWork o o') :
    o'.Filed hashes := by
  rw [Order.Filed, hsame.repo, hsame.repos]
  exact h

/-- Twins are filed under one key. -/
theorem Twins.repo (h : Twins a b)
    (ha : a.Filed hashes) (hb : b.Filed hashes) : a.repo = b.repo := by
  rw [ha, hb, displayKey, displayKey, insertionSort_congr h.repos]

theorem Transition.filed (h : Transition Q hashes limits s s')
    (hall : ∀ o ∈ s.orders, o.Filed hashes) :
    ∀ o ∈ s'.orders, o.Filed hashes := by
  cases h with
  | books horders hsequence => exact horders ▸ hall
  | change workId f hf hkey =>
      exact forall_updateRows hall
        (fun o ho hwork h => h.of_sameWork (hf o ho hwork).sameWork)
  | deferred workId now =>
      refine forall_updateRows hall (fun o ho hwork h => ?_)
      split <;> exact h
  | admitted item now hitem hqueued hfits =>
      exact forall_updateRows hall (fun o ho hwork h => h)
  | submitted args block now hvalid hnew hfits horders hsequence =>
      rw [horders]
      intro o ho
      rcases List.mem_append.mp ho with ho | ho
      · exact hall o ho
      · have hsorted : (args.memberRows.map Member.repo).insertionSort (· ≤ ·) =
            args.repos := by
          rw [insertionSort_congr (memberRows_repos_perm args)]
          exact List.Pairwise.insertionSort_eq
            (List.pairwise_insertionSort _ _)
        rw [List.mem_singleton.mp ho, Order.Filed, displayKey]
        simp only [Submission.rows, Submission.repoKey, hsorted]

end Keys

section Throttles

variable {limits : Limits} {clock : Clock} {s : Store} {o a b : Order}

/-- The throttle is for the key of an order. -/
def Throttle.Covers (repo : String) (t : Throttle) : Prop :=
  t.scope = .global ∨ (t.scope = .repo ∧ t.scopeKey = repo)

/-- What stands in the way of an order: its units, or a live throttle. -/
theorem blockFor_ne_none {now : Time} :
    s.blockFor limits now o ≠ none ↔
      ¬ s.Fits limits o ∨
        ∃ t ∈ s.throttles, t.Covers o.repo ∧ now < t.untilAt := by
  unfold Store.blockFor Store.throttle rateLimited Store.Fits
  dsimp only
  cases hfind : (s.throttles.filter
      (fun t => decide (now < t.untilAt))).find? (fun t => decide
        (t.scope = .global ∨ (t.scope = .repo ∧ t.scopeKey = o.repo))) with
  | some t =>
      have hmem := List.mem_filter.mp (List.mem_of_find?_eq_some hfind)
      have hcovers : t.Covers o.repo := by
        simpa [Throttle.Covers] using List.find?_some hfind
      simp only [Option.map_some, ne_eq, reduceCtorEq, not_false_eq_true,
        true_iff]
      exact Or.inr ⟨t, hmem.1, hcovers, by simpa using hmem.2⟩
  | none =>
      simp only [Option.map_none, ne_eq]
      refine ⟨Or.inl, fun h => h.resolve_right ?_⟩
      rintro ⟨t, ht, hcovers, hlive⟩
      have hfilter : t ∈ s.throttles.filter
          (fun t => decide (now < t.untilAt)) :=
        List.mem_filter.mpr ⟨ht, by simpa using hlive⟩
      have hnone := List.find?_eq_none.mp hfind t hfilter
      exact hnone (by simpa [Throttle.Covers] using hcovers)

/-- No throttle for the key lapses while the clock is read. -/
def Steady (clock : Clock) (s : Store) (repo : String) : Prop :=
  ∀ t ∈ s.throttles, t.Covers repo →
    ∀ i j, clock i < t.untilAt → clock j < t.untilAt

/-- The order is blocked, and stays so as long as units are only taken. -/
def Blocked
    (limits : Limits) (clock : Clock) (s : Store) (o : Order) : Prop :=
  ¬ s.Fits limits o ∨
    ∃ t ∈ s.throttles, t.Covers o.repo ∧ ∀ n, clock n < t.untilAt

theorem Blocked.blockFor (h : Blocked limits clock s o) (n : Nat) :
    s.blockFor limits (clock n) o ≠ none := by
  rw [blockFor_ne_none]
  rcases h with hfits | ⟨t, ht, hcovers, hlive⟩
  · exact Or.inl hfits
  · exact Or.inr ⟨t, ht, hcovers, hlive n⟩

theorem Steady.blocked (hsteady : Steady clock s o.repo)
    (h : s.blockFor limits (clock 0) o ≠ none) : Blocked limits clock s o := by
  rw [blockFor_ne_none] at h
  rcases h with hfits | ⟨t, ht, hcovers, hlive⟩
  · exact Or.inl hfits
  · exact Or.inr ⟨t, ht, hcovers, fun n => hsteady t ht hcovers 0 n hlive⟩

theorem Twins.blocked (h : Twins a b) (hrepo : a.repo = b.repo)
    (ha : Blocked limits clock s a) : Blocked limits clock s b := by
  unfold Blocked at ha ⊢
  rw [← h.fits, ← hrepo]
  exact ha

end Throttles

section Passes

variable {limits : Limits} {clock : Clock} {s s' : Store}
variable {item a b o : Order} {block : CapacityBlock}

/-- The twins `a` and `b` wait, and `a` is ahead or blocked. -/
structure InLine
    (limits : Limits) (clock : Clock) (s : Store) (a b : Order) : Prop where
  first : a ∈ s.orders
  second : b ∈ s.orders
  firstQueued : a.state = .queued
  secondQueued : b.state = .queued
  twins : Twins a b
  repo : a.repo = b.repo
  apart : a.workId ≠ b.workId
  steady : Steady clock s a.repo
  ahead : a.sequence < b.sequence ∨ Blocked limits clock s a

/-- A turn deletes the throttles that have lapsed. -/
theorem Steady.filter {repo : String} (h : Steady clock s repo)
    (hthrottles : s'.throttles =
      s.throttles.filter (fun t => decide (clock 0 < t.untilAt))) :
    Steady (fun n => clock (n + 3)) s' repo := by
  intro t ht hcovers i j
  rw [hthrottles] at ht
  exact h t (List.mem_of_mem_filter ht) hcovers (i + 3) (j + 3)

/-- A turn that gives nothing back leaves a blocked order blocked. -/
theorem Blocked.turn (h : Blocked limits clock s o)
    (hfits : s'.Fits limits o → s.Fits limits o)
    (hthrottles : s'.throttles =
      s.throttles.filter (fun t => decide (clock 0 < t.untilAt))) :
    Blocked limits (fun n => clock (n + 3)) s' o := by
  rcases h with hblocked | ⟨t, ht, hcovers, hlive⟩
  · exact Or.inl (fun hfit => hblocked (hfits hfit))
  · refine Or.inr ⟨t, ?_, hcovers, fun n => hlive (n + 3)⟩
    rw [hthrottles]
    exact List.mem_filter.mpr ⟨ht, by simpa using hlive 0⟩

theorem Twins.of_sameWork {a' b' : Order} (h : Twins a b)
    (ha : SameWork a a') (hb : SameWork b b') : Twins a' b' where
  priority := by rw [ha.priority, hb.priority, h.priority]
  actor := by rw [ha.actor, hb.actor, h.actor]
  blueprint := by rw [ha.blueprint, hb.blueprint, h.blueprint]
  repos := by
    rw [ha.repos, hb.repos]
    exact h.repos

theorem Blocked.of_sameWork {o' : Order} (h : Blocked limits clock s o)
    (hsame : SameWork o o') : Blocked limits clock s o' := by
  unfold Blocked Store.Fits at h ⊢
  rw [hsame.repo, hsame.repos, hsame.actor, hsame.blueprint]
  exact h

/-- What becomes of an order when the one under the key is deferred. -/
def Order.behind
    (workId : String) (block : CapacityBlock) (sequence : Nat) (now : Time)
    (o : Order) : Order :=
  if o.workId = workId then o.postpone block sequence now else o

theorem behind_of_ne {workId : String} {sequence : Nat} {now : Time}
    (h : o.workId ≠ workId) : o.behind workId block sequence now = o :=
  if_neg h

theorem behind_sequence {workId : String} {sequence : Nat} {now : Time}
    (h : o.workId = workId) :
    (o.behind workId block sequence now).sequence = sequence := by
  rw [Order.behind, if_pos h]
  rfl

theorem behind_sameWork
    (workId : String) (block : CapacityBlock) (sequence : Nat) (now : Time)
    (o : Order) :
    SameWork o (o.behind workId block sequence now) ∧
      (o.behind workId block sequence now).state = o.state := by
  unfold Order.behind
  split <;> exact ⟨⟨rfl, rfl, rfl, rfl, rfl, rfl, rfl⟩, rfl⟩

/-- A deferral keeps twins in line. -/
theorem InLine.postponed (h : InLine limits clock s a b) (hs : s.Keyed)
    (hsequenced : s.Sequenced) (hcandidate : s.candidate = some item)
    (hblock : s.blockFor limits (clock 0) item = some block) :
    InLine limits (fun n => clock (n + 3)) (s.postponed item block clock)
      (a.behind item.workId block (s.sequence + 1) (clock 2))
      (b.behind item.workId block (s.sequence + 1) (clock 2)) := by
  obtain ⟨hitem, hqueued⟩ := candidate_mem hcandidate
  obtain ⟨ha, hastate⟩ :=
    behind_sameWork item.workId block (s.sequence + 1) (clock 2) a
  obtain ⟨hb, hbstate⟩ :=
    behind_sameWork item.workId block (s.sequence + 1) (clock 2) b
  have hmem : ∀ o ∈ s.orders,
      o.behind item.workId block (s.sequence + 1) (clock 2) ∈
        (s.postponed item block clock).orders := by
    intro o ho
    rw [postponed_orders hs hitem hqueued]
    exact mem_updateRows.mpr ⟨o, ho, rfl⟩
  have hblocked : Blocked limits clock s a →
      Blocked limits (fun n => clock (n + 3)) (s.postponed item block clock)
        (a.behind item.workId block (s.sequence + 1) (clock 2)) := fun h =>
    (h.turn (postponed_fits hs hitem hqueued a).mp
      postponed_throttles).of_sameWork ha
  refine ⟨hmem a h.first, hmem b h.second, hastate.trans h.firstQueued,
    hbstate.trans h.secondQueued, h.twins.of_sameWork ha hb, ?_, ?_, ?_, ?_⟩
  · rw [ha.repo, hb.repo, h.repo]
  · rw [ha.workId, hb.workId]
    exact h.apart
  · rw [ha.repo]
    exact h.steady.filter postponed_throttles
  · by_cases hwork : a.workId = item.workId
    · -- the first of the two is the candidate, and it is blocked
      obtain rfl := Machine.Keyed.eq hs h.first hitem hwork
      exact Or.inr (hblocked (h.steady.blocked (by simp [hblock])))
    · rcases h.ahead with hahead | hstuck
      · left
        rw [behind_of_ne hwork]
        by_cases hwork' : b.workId = item.workId
        · rw [behind_sequence hwork']
          exact Nat.lt_succ_of_le (hsequenced.counted a h.first)
        · rw [behind_of_ne hwork']
          exact hahead
      · exact Or.inr (hblocked hstuck)

theorem served_countP_le (hs : s.Keyed)
    (hitem : item ∈ s.orders) (hqueued : item.state = .queued)
    (φ : HeldUnit → Bool) :
    s.heldMembers.countP φ ≤ (s.served item clock).heldMembers.countP φ := by
  rw [countP_drain hs hitem hqueued served_orders φ]
  exact Nat.le_add_right _ _

/-- An admission of somebody else keeps twins in line. -/
theorem InLine.served (h : InLine limits clock s a b) (hs : s.Keyed)
    (hitem : item ∈ s.orders) (hqueued : item.state = .queued)
    (ha : a.workId ≠ item.workId) (hb : b.workId ≠ item.workId) :
    InLine limits (fun n => clock (n + 3)) (s.served item clock) a b := by
  have hmem : ∀ o ∈ s.orders, o.workId ≠ item.workId →
      o ∈ (s.served item clock).orders := by
    intro o ho hne
    rw [served_orders]
    exact mem_updateRows.mpr ⟨o, ho, if_neg hne⟩
  refine ⟨hmem a h.first ha, hmem b h.second hb, h.firstQueued,
    h.secondQueued, h.twins, h.repo, h.apart,
    h.steady.filter served_throttles, ?_⟩
  refine h.ahead.imp_right fun hstuck => ?_
  exact hstuck.turn (fun hfit => hfit.of_le (served_countP_le hs hitem hqueued))
    served_throttles

/-- The second of two twins in line is not admitted. -/
theorem InLine.not_second (h : InLine limits clock s a b)
    (hcandidate : s.candidate = some b) :
    s.blockFor limits (clock 0) b ≠ none := by
  have hfirst := candidate_first hcandidate h.first h.firstQueued
    h.twins.priority
  rcases h.ahead with hahead | hstuck
  · omega
  · exact (h.twins.blocked h.repo hstuck).blockFor 0

/-- Within a drain the first of two twins in line is admitted first. -/
theorem drainLoop_fifo (turns : Nat) {pre post : List String}
    (hs : s.Keyed) (hsequenced : s.Sequenced)
    (h : InLine limits clock s a b)
    (hadmitted : (drainLoop limits clock turns s).1 = pre ++ b.workId :: post) :
    a.workId ∈ pre := by
  induction turns generalizing s clock a b pre with
  | zero =>
      simp [drainLoop] at hadmitted
  | succ turns ih =>
      have hkeyed := drainOnce_keyed limits clock hs
      have hsequenced' := drainOnce_sequenced limits clock hs hsequenced
      rw [drainLoop] at hadmitted
      cases hcandidate : s.candidate with
      | none =>
          obtain ⟨s', hturn, -⟩ := drainOnce_none limits clock hcandidate
          rw [hturn] at hadmitted
          simp at hadmitted
      | some item =>
          obtain ⟨hitem, hqueued⟩ := candidate_mem hcandidate
          cases hblock : s.blockFor limits (clock 0) item with
          | some block =>
              cases hother : s.anyOtherCandidate item.workId with
              | false =>
                  rw [drainOnce_stopped hcandidate hblock hother] at hadmitted
                  simp at hadmitted
              | true =>
                  rw [drainOnce_postponed hcandidate hblock hother]
                    at hadmitted hkeyed hsequenced'
                  have hline := h.postponed hs hsequenced hcandidate hblock
                  rw [← (behind_sameWork item.workId block (s.sequence + 1)
                    (clock 2) b).1.workId] at hadmitted
                  have hfirst := ih hkeyed hsequenced' hline hadmitted
                  rwa [(behind_sameWork _ _ _ _ a).1.workId] at hfirst
          | none =>
              rw [drainOnce_served hs hcandidate hblock]
                at hadmitted hkeyed hsequenced'
              by_cases ha : a.workId = item.workId
              · cases pre with
                | nil => exact absurd (ha.trans (List.cons.inj hadmitted).1) h.apart
                | cons w pre =>
                    rw [ha, (List.cons.inj hadmitted).1]
                    exact List.mem_cons_self
              · have hb : b.workId ≠ item.workId := by
                  intro hb
                  obtain rfl := Machine.Keyed.eq hs h.second hitem hb
                  exact h.not_second hcandidate hblock
                cases pre with
                | nil => exact absurd (List.cons.inj hadmitted).1.symm hb
                | cons w pre =>
                    have hline := h.served hs hitem hqueued ha hb
                    exact List.mem_cons_of_mem _ (ih hkeyed hsequenced' hline
                      (List.cons.inj hadmitted).2)

end Passes

section Runs

variable {hashes : Hashes} {limits : Limits} {throttles : List Throttle}
variable {c : Configuration}

/--
The drain finds queued twins in the order of their submission, and no throttle
that covers them lapses while it runs.
-/
def TwinsInOrder (c : Configuration) : Move → Prop
  | .call _ (.drain _) clock =>
      c.store.orders.Pairwise (fun a b =>
        a.state = .queued → b.state = .queued → Twins a b →
          a.sequence < b.sequence ∧ Steady clock c.store a.repo)
  | _ => True

/--
The drain does not admit the later one of two queued twins while the one that
was submitted before it is still queued.
-/
def FirstComeFirstServed (limits : Limits) (c : Configuration) : Move → Prop
  | .call _ (.drain limit) clock =>
      c.store.orders.Pairwise (fun a b =>
        a.state = .queued → b.state = .queued → Twins a b →
          ∀ pre post,
            (drain limits limit clock c.store).1 = pre ++ b.workId :: post →
              a.workId ∈ pre)
  | _ => True

theorem reachable_filed
    (hc : Reachable (step hashes limits) (start throttles) c) :
    c.store.Keyed ∧ ∀ o ∈ c.store.orders, o.Filed hashes :=
  reachable_store (by simp [start]) (fun _ _ _ hall h => h.filed hall) hc

/-- One drain of a reachable store. -/
theorem TwinsInOrder.firstCome {m : Move}
    (hc : Reachable (step hashes limits) (start throttles) c)
    (h : TwinsInOrder c m) : FirstComeFirstServed limits c m := by
  cases m with
  | crash p => trivial
  | call p op clock =>
      cases op with
      | drain limit =>
          obtain ⟨hs, hsequenced⟩ := reachable_sequenced hc
          have hfiled := (reachable_filed hc).2
          have hapart : c.store.orders.Pairwise
              (fun a b => a.workId ≠ b.workId) :=
            List.pairwise_map.mp hs
          refine (List.Pairwise.and h hapart).imp_of_mem ?_
          rintro a b ha hb ⟨horder, hne⟩ hqa hqb htwins pre post hadmitted
          obtain ⟨hahead, hsteady⟩ := horder hqa hqb htwins
          refine drainLoop_fifo _ hs hsequenced ?_ hadmitted
          exact ⟨ha, hb, hqa, hqb, htwins,
            htwins.repo (hfiled a ha) (hfiled b hb), hne, hsteady,
            Or.inl hahead⟩
      | _ => trivial

/--
**First come, first served.**  In every run in which each drain finds queued
twins in the order of their submission, and no throttle on them lapses while it
runs, no drain admits an order while an earlier twin is still queued.
-/
theorem fifo_within_class
    (hashes : Hashes) (limits : Limits) (throttles : List Throttle)
    (ms : List Move)
    (h : AlongRun (step hashes limits) TwinsInOrder (start throttles) ms) :
    AlongRun (step hashes limits) (FirstComeFirstServed limits)
      (start throttles) ms := by
  rw [alongRun_iff] at h ⊢
  rintro pre m post rfl
  exact (h pre m post rfl).firstCome (reachable_runFrom _ pre)

/-- An order holds the only unit, and twins wait behind it. -/
def twinsWaiting : List Move :=
  [sampleCall (sampleSubmit "w-1" "alice" .normal [⟨0, "org/app", "c-1"⟩]),
    sampleCall (sampleSubmit "w-2" "alice" .normal [⟨0, "org/app", "c-2"⟩]),
    sampleCall (sampleSubmit "w-3" "alice" .normal [⟨0, "org/app", "c-3"⟩])]

/-- The unit is given back, and the factory drains. -/
def freeAndDrain : List Move :=
  [sampleCall (.cancel "w-1" "withdrawn" "cancelled"),
    sampleCall (.drain none)]

theorem steady_sample {clock : Clock} {s : Store} {repo : String}
    (h : s.throttles = []) : Steady clock s repo := by
  rw [Steady, h]
  simp

/-- Without a drain in between the twin that came first is admitted. -/
theorem fifo_first_twin_admitted :
    (runFrom (step sampleHashes { globalActive := 1 }) (start [])
        (twinsWaiting ++ freeAndDrain)).store.orders.map Order.state =
        [.closed .cancelled, .admitted, .queued] ∧
      AlongRun (step sampleHashes { globalActive := 1 })
        (FirstComeFirstServed { globalActive := 1 }) (start [])
        (twinsWaiting ++ freeAndDrain) := by
  have horder : (runFrom (step sampleHashes { globalActive := 1 }) (start [])
      (twinsWaiting ++ [sampleCall
        (.cancel "w-1" "withdrawn" "cancelled")])).store.orders.Pairwise
      (fun a b => a.state = .queued → b.state = .queued → Twins a b →
        a.sequence < b.sequence) := by
    decide
  refine ⟨by decide, fifo_within_class _ _ _ _
    ⟨trivial, trivial, trivial, trivial, ?_, trivial⟩⟩
  exact horder.imp fun hab ha hb htwins =>
    ⟨hab ha hb htwins, steady_sample (by decide)⟩

/--
A drain that finds the factory full moves the first twin behind the second;
the next one admits the second.
-/
theorem second_twin_admitted_first :
    (runFrom (step sampleHashes { globalActive := 1 }) (start [])
        (twinsWaiting ++ sampleCall (.drain none) ::
          freeAndDrain)).store.orders.map Order.state =
        [.closed .cancelled, .queued, .admitted] ∧
      ¬ AlongRun (step sampleHashes { globalActive := 1 })
        (FirstComeFirstServed { globalActive := 1 }) (start [])
        (twinsWaiting ++ sampleCall (.drain none) :: freeAndDrain) := by
  refine ⟨by decide, fun h => ?_⟩
  obtain ⟨-, -, -, -, -, hdrain, -⟩ := h
  have hnever : (runFrom (step sampleHashes { globalActive := 1 }) (start [])
      (twinsWaiting ++ [sampleCall (.drain none), sampleCall
        (.cancel "w-1" "withdrawn" "cancelled")])).store.orders.Pairwise
      (fun a b => a.state = .queued → b.state = .queued → Twins a b →
        (drain { globalActive := 1 } none (fun _ => 0)
          (runFrom (step sampleHashes { globalActive := 1 }) (start [])
            (twinsWaiting ++ [sampleCall (.drain none), sampleCall
              (.cancel "w-1" "withdrawn" "cancelled")])).store).1 ≠
          [b.workId]) :=
    List.Pairwise.imp (fun hab ha hb htwins hlist => by
      cases hab ha hb htwins [] [] hlist) hdrain
  revert hnever
  decide

end Runs

end Admission
end SwFactory
