import SwFactory.Admission.Capacity
import SwFactory.Admission.Draining

/-!
# Durable admission: work conservation

`drain` takes the first class that has credit and tries the head of its queue.
A head that does not fit goes to the end of the same queue, and costs its class
no credit, so the next turn tries the next order of the same class.  A drain
that admits nothing has therefore looked at one class only; it has looked at as
many of its orders as it has turns.

`work_conserving_iff` makes this precise: a drain with its default limit misses
no order that fits exactly if nothing fits, or something fits among the first
`global_active` orders of the class that is served first.
-/

namespace SwFactory
namespace Admission

open Text Machine

section Fits

variable {limits : Limits} {clock : Clock} {s s' : Store}
variable {item o : Order} {block : CapacityBlock}

/-- The units of the order fit. -/
def Store.Fits (limits : Limits) (s : Store) (o : Order) : Prop :=
  capacityBlock limits s (o.members.map Member.repo) o.actor o.blueprint = none

/-- No queued order fits. -/
def Store.AllBlocked (limits : Limits) (s : Store) : Prop :=
  ∀ o ∈ s.orders, o.state = .queued → ¬ s.Fits limits o

/-- No throttle is live at a reading of the clock. -/
def Calm (clock : Clock) (s : Store) : Prop :=
  ∀ t ∈ s.throttles, ∀ n, t.untilAt ≤ clock n

/-- Without a live throttle nothing but capacity stands in the way. -/
theorem Calm.blockFor_eq (h : Calm clock s) (n : Nat) :
    s.blockFor limits (clock n) o =
      capacityBlock limits s (o.members.map Member.repo) o.actor
        o.blueprint := by
  have hnone : s.throttles.filter (fun t => decide (clock n < t.untilAt)) =
      [] := by
    refine List.filter_eq_nil_iff.mpr fun t ht => ?_
    simpa using h t ht n
  unfold Store.blockFor Store.throttle
  dsimp only
  rw [hnone]
  rfl

theorem Calm.postponed (h : Calm clock s) :
    Calm (fun n => clock (n + 3)) (s.postponed item block clock) := by
  intro t ht n
  rw [postponed_throttles] at ht
  exact h t (List.mem_of_mem_filter ht) (n + 3)

/-- What holds the same units leaves the same capacity. -/
theorem capacityBlock_of_heldMembers
    (h : s'.heldMembers = s.heldMembers) :
    capacityBlock limits s' = capacityBlock limits s := by
  unfold capacityBlock
  rw [h]

theorem heldMembers_updateRows {workId : String} {f : Order → Order}
    (horders : s'.orders = updateRows Order.workId workId f s.orders)
    (hf : ∀ o, (f o).heldUnits = o.heldUnits) :
    s'.heldMembers = s.heldMembers := by
  unfold Store.heldMembers
  rw [List.flatMap_def, List.flatMap_def, horders,
    map_updateRows (fun o _ _ => hf o)]

/-- A change of queued orders that touches neither units nor states. -/
theorem allBlocked_updateRows {workId : String} {f : Order → Order}
    (horders : s'.orders = updateRows Order.workId workId f s.orders)
    (hwork : ∀ o, SameWork o (f o))
    (hstate : ∀ o, (f o).state = o.state)
    (hunits : ∀ o, (f o).heldUnits = o.heldUnits) :
    s'.AllBlocked limits ↔ s.AllBlocked limits := by
  have hcapacity : capacityBlock limits s' = capacityBlock limits s :=
    capacityBlock_of_heldMembers (heldMembers_updateRows horders hunits)
  have hfits : ∀ o, s'.Fits limits (f o) ↔ s.Fits limits o := by
    intro o
    rw [Store.Fits, Store.Fits, hcapacity, (hwork o).repos, (hwork o).actor,
      (hwork o).blueprint]
  have hsame : ∀ o, s'.Fits limits o ↔ s.Fits limits o := by
    intro o
    rw [Store.Fits, Store.Fits, hcapacity]
  unfold Store.AllBlocked
  rw [horders]
  constructor
  · intro h o ho hqueued
    have hmem : (if o.workId = workId then f o else o) ∈
        updateRows Order.workId workId f s.orders :=
      mem_updateRows.mpr ⟨o, ho, rfl⟩
    have hblocked := h _ hmem
    split at hblocked
    · exact fun hfit => hblocked ((hstate o).trans hqueued) ((hfits o).mpr hfit)
    · exact fun hfit => hblocked hqueued ((hsame o).mpr hfit)
  · intro h
    refine forall_updateRows (fun o ho hqueued hfit => ?_)
      (fun o ho _ _ hqueued hfit => ?_)
    · exact h o ho hqueued ((hsame o).mp hfit)
    · exact h o ho ((hstate o).symm.trans hqueued) ((hfits o).mp hfit)

theorem heldUnits_postpone {sequence : Nat} {now : Time} :
    (o.postpone block sequence now).heldUnits = o.heldUnits :=
  rfl

theorem postponed_heldMembers (hs : s.Keyed)
    (hitem : item ∈ s.orders) (hqueued : item.state = .queued) :
    (s.postponed item block clock).heldMembers = s.heldMembers :=
  heldMembers_updateRows (postponed_orders hs hitem hqueued)
    (fun _ => heldUnits_postpone)

/-- A deferral is no news about who fits. -/
theorem postponed_fits (hs : s.Keyed)
    (hitem : item ∈ s.orders) (hqueued : item.state = .queued) (o : Order) :
    (s.postponed item block clock).Fits limits o ↔ s.Fits limits o := by
  unfold Store.Fits
  rw [capacityBlock_of_heldMembers (postponed_heldMembers hs hitem hqueued)]

theorem postponed_allBlocked (hs : s.Keyed)
    (hitem : item ∈ s.orders) (hqueued : item.state = .queued) :
    (s.postponed item block clock).AllBlocked limits ↔
      s.AllBlocked limits :=
  allBlocked_updateRows (postponed_orders hs hitem hqueued)
    (fun _ => ⟨rfl, rfl, rfl, rfl, rfl, rfl, rfl⟩) (fun _ => rfl)
    (fun _ => heldUnits_postpone)

end Fits

section Class

variable {limits : Limits} {clock : Clock} {s s' : Store}
variable {item o : Order} {block : CapacityBlock} {p : Priority}

/-- The classes that have queued orders are those with a queue. -/
theorem mem_available : p ∈ s.available ↔ s.classRows p ≠ [] := by
  have hall : p ∈ Priority.all := by
    cases p <;> simp [Priority.all]
  simp [Store.available, Store.classRows, hall]

/-- A deferral empties no class. -/
theorem postponed_available (hs : s.Keyed)
    (hitem : item ∈ s.orders) (hqueued : item.state = .queued) :
    (s.postponed item block clock).available = s.available := by
  have hmem : ∀ p, (∃ o ∈ (s.postponed item block clock).orders,
      o.state = .queued ∧ o.priority = p) ↔
        ∃ o ∈ s.orders, o.state = .queued ∧ o.priority = p := by
    intro p
    rw [postponed_orders hs hitem hqueued]
    constructor
    · rintro ⟨o', ho', hwaits⟩
      obtain ⟨o, ho, rfl⟩ := mem_updateRows.mp ho'
      refine ⟨o, ho, ?_⟩
      split at hwaits <;> exact hwaits
    · rintro ⟨o, ho, hwaits⟩
      refine ⟨_, mem_updateRows.mpr ⟨o, ho, rfl⟩, ?_⟩
      split <;> exact hwaits
  refine List.filter_congr fun p _ => ?_
  rw [Bool.eq_iff_iff, List.any_eq_true, List.any_eq_true]
  simpa [mem_queuedRows, and_assoc] using hmem p

theorem selectedClass_some (h : s.selectedClass = some p) :
    p ∈ s.available ∧ s.topUp.credit p = true :=
  ⟨List.mem_of_find?_eq_some h, List.find?_some h⟩

/-- The order that the selected class puts forward. -/
theorem candidate_of_selectedClass (h : s.selectedClass = some p) :
    ∃ item rest, s.classRows p = item :: rest ∧ s.candidate = some item := by
  have hrows := mem_available.mp (selectedClass_some h).1
  obtain ⟨item, rest, hcons⟩ := List.exists_cons_of_ne_nil hrows
  refine ⟨item, rest, hcons, ?_⟩
  have hqueue : s.queuedRows ≠ [] := by
    intro hnil
    simp [Store.classRows, hnil] at hrows
  simp [Store.candidate, nextFairCandidate, hqueue, h, hcons]

theorem candidate_of_no_class (h : s.selectedClass = none) :
    s.candidate = none := by
  unfold Store.candidate nextFairCandidate
  split
  · rfl
  · simp [h]

/-- A blocked turn costs no credit, so its class is selected again. -/
theorem postponed_selectedClass (hs : s.Keyed)
    (hitem : item ∈ s.orders) (hqueued : item.state = .queued)
    (h : s.selectedClass = some p) :
    (s.postponed item block clock).selectedClass = some p := by
  obtain ⟨havailable, hcredit⟩ := selectedClass_some h
  have hsame : (s.postponed item block clock).available = s.available :=
    postponed_available hs hitem hqueued
  have hkeeps : (s.postponed item block clock).credit = s.topUp.credit := by
    funext q
    unfold Store.credit
    rw [postponed_fairness]
  have htopUp : (s.postponed item block clock).topUp =
      s.postponed item block clock := by
    unfold Store.topUp
    rw [if_pos]
    rw [hsame, hkeeps]
    exact List.any_eq_true.mpr ⟨p, havailable, hcredit⟩
  unfold Store.selectedClass
  rw [htopUp, hsame, hkeeps]
  exact h

/-- With another order in the class there is another candidate. -/
theorem anyOtherCandidate_of_class {rest : List Order} (hs : s.Keyed)
    (hrows : s.classRows p = item :: rest)
    (hother : s.anyOtherCandidate item.workId = false) : rest = [] := by
  cases rest with
  | nil => rfl
  | cons o rest =>
      exfalso
      have hnodup : (item :: o :: rest).Nodup := by
        rw [← hrows]
        exact classRows_nodup hs
      have hitem := mem_classRows.mp (hrows ▸ List.mem_cons_self)
      have ho := mem_classRows.mp (hrows ▸ List.mem_cons_of_mem item
        List.mem_cons_self)
      have hne : o.workId ≠ item.workId := by
        intro hwork
        obtain rfl := Machine.Keyed.eq hs ho.1 hitem.1 hwork
        simp at hnodup
      have hany : s.anyOtherCandidate item.workId = true :=
        List.any_eq_true.mpr ⟨o, ho.1, by simp [ho.2.1, hne]⟩
      rw [hother] at hany
      cases hany

end Class

section Conservation

variable {limits : Limits} {s : Store} {p : Priority}

/-- Moving a blocked head to the end leaves the first turns as they were. -/
theorem take_rotated {P : Order → Prop} {item item' : Order}
    {rest : List Order} (turns : Nat)
    (hitem : P item) (hitem' : P item') :
    (∀ o ∈ (rest ++ [item']).take turns, P o) ↔
      ∀ o ∈ (item :: rest).take (turns + 1), P o := by
  rw [List.take_append, List.take_succ_cons]
  simp only [List.mem_append, List.mem_cons, or_imp, forall_and, forall_eq]
  constructor
  · exact fun h => ⟨hitem, h.1⟩
  · refine fun h => ⟨h.2, fun o ho => ?_⟩
    obtain rfl := List.mem_singleton.mp (List.mem_of_mem_take ho)
    exact hitem'

/--
A drain admits nothing exactly if none of the orders that its turns reach in
the selected class fits.
-/
theorem drainLoop_nil_iff (clock : Clock) (turns : Nat)
    (hs : s.Keyed) (hsequenced : s.Sequenced) (hcalm : Calm clock s)
    (hclass : s.selectedClass = some p) :
    (drainLoop limits clock turns s).1 = [] ↔
      ∀ o ∈ (s.classRows p).take turns, ¬ s.Fits limits o := by
  induction turns generalizing s clock with
  | zero =>
      simp [drainLoop]
  | succ turns ih =>
      obtain ⟨item, rest, hrows, hcandidate⟩ :=
        candidate_of_selectedClass hclass
      obtain ⟨hitem, hqueued⟩ := candidate_mem hcandidate
      have hkeyed := drainOnce_keyed limits clock hs
      have hsequenced' := drainOnce_sequenced limits clock hs hsequenced
      cases hblock : s.blockFor limits (clock 0) item with
      | none =>
          rw [drainLoop, drainOnce_served hs hcandidate hblock]
          have hfits : s.Fits limits item := by
            rw [Store.Fits, ← hcalm.blockFor_eq 0]
            exact hblock
          simp [hrows, hfits]
      | some block =>
          have hblocked : ¬ s.Fits limits item := by
            rw [Store.Fits, ← hcalm.blockFor_eq 0, hblock]
            simp
          cases hother : s.anyOtherCandidate item.workId with
          | false =>
              obtain rfl := anyOtherCandidate_of_class hs hrows hother
              rw [drainLoop, drainOnce_stopped hcandidate hblock hother]
              simp [hrows, hblocked]
          | true =>
              rw [drainOnce_postponed hcandidate hblock hother]
                at hkeyed hsequenced'
              rw [drainLoop, drainOnce_postponed hcandidate hblock hother,
                hrows, ← take_rotated turns hblocked
                  (show ¬ s.Fits limits (item.postpone block _ _) from
                    hblocked),
                ← postponed_classRows hs hsequenced hsequenced' hrows]
              refine (ih _ hkeyed hsequenced' hcalm.postponed
                (postponed_selectedClass hs hitem hqueued hclass)).trans ?_
              refine forall₂_congr fun o _ => not_congr ?_
              exact postponed_fits hs hitem hqueued o

/-- A drain that admits nothing leaves everybody as blocked as before. -/
theorem drainLoop_allBlocked (clock : Clock) (turns : Nat) (hs : s.Keyed)
    (hnil : (drainLoop limits clock turns s).1 = []) :
    (drainLoop limits clock turns s).2.AllBlocked limits ↔
      s.AllBlocked limits := by
  induction turns generalizing s clock with
  | zero =>
      exact Iff.rfl
  | succ turns ih =>
      have hkeyed := drainOnce_keyed limits clock hs
      cases hcandidate : s.candidate with
      | none =>
          obtain ⟨s', hturn, horders, -⟩ :=
            drainOnce_none limits clock hcandidate
          rw [drainLoop, hturn]
          simp only [Store.AllBlocked, Store.Fits, horders,
            capacityBlock_congr horders]
      | some item =>
          obtain ⟨hitem, hqueued⟩ := candidate_mem hcandidate
          cases hblock : s.blockFor limits (clock 0) item with
          | none =>
              rw [drainLoop, drainOnce_served hs hcandidate hblock] at hnil
              cases hnil
          | some block =>
              cases hother : s.anyOtherCandidate item.workId with
              | false =>
                  rw [drainLoop, drainOnce_stopped hcandidate hblock hother]
                  have horders : (setLimiting item.workId block (clock 1)
                      (s.opened (clock 0))).orders =
                      updateRows Order.workId item.workId (fun o =>
                        { o with
                          limiting := some block
                          updatedAt := clock 1 }) s.orders := by
                    simp [setLimiting, Store.update]
                  exact allBlocked_updateRows horders
                    (fun _ => ⟨rfl, rfl, rfl, rfl, rfl, rfl, rfl⟩)
                    (fun _ => rfl) (fun _ => rfl)
              | true =>
                  rw [drainOnce_postponed hcandidate hblock hother] at hkeyed
                  rw [drainLoop, drainOnce_postponed hcandidate hblock hother]
                    at hnil ⊢
                  exact (ih _ hkeyed hnil).trans
                    (postponed_allBlocked hs hitem hqueued)

variable {hashes : Hashes} {throttles : List Throttle} {c : Configuration}

/-- Some order that the turns of a drain reach in the first class fits. -/
def Store.FirstClassFits (limits : Limits) (s : Store) : Prop :=
  ∃ p, s.selectedClass = some p ∧
    ∃ o ∈ (s.classRows p).take limits.globalActive, s.Fits limits o

theorem reachable_sequenced
    (hc : Reachable (step hashes limits) (start throttles) c) :
    c.store.Keyed ∧ c.store.Sequenced :=
  reachable_store ⟨List.nodup_nil, by simp [start]⟩
    (fun _ _ hs hsequenced h => h.sequenced hs hsequenced) hc

/--
**Work conservation.**  In a reachable store without a live throttle, a drain
with its default limit that admits nothing leaves nothing in the queue that
fits, exactly if nothing fitted before or an order fits among the first
`global_active` ones of the class that is served first.
-/
theorem work_conserving_iff
    (hc : Reachable (step hashes limits) (start throttles) c)
    (clock : Clock) (hcalm : Calm clock c.store) :
    ((drain limits none clock c.store).1 = [] →
        (drain limits none clock c.store).2.AllBlocked limits) ↔
      c.store.AllBlocked limits ∨ c.store.FirstClassFits limits := by
  obtain ⟨hs, hsequenced⟩ := reachable_sequenced hc
  have hturns : ((none : Option Int).getD limits.globalActive).toNat =
      limits.globalActive := by
    simp
  unfold drain
  rw [hturns]
  constructor
  · intro h
    by_cases hnil :
        (drainLoop limits clock limits.globalActive c.store).1 = []
    · exact Or.inl ((drainLoop_allBlocked clock _ hs hnil).mp (h hnil))
    · right
      cases hclass : c.store.selectedClass with
      | none =>
          -- without a class there is no candidate, and the drain stops
          exfalso
          apply hnil
          obtain ⟨s', hturn, -⟩ := drainOnce_none limits clock
            (candidate_of_no_class hclass)
          cases limits.globalActive with
          | zero => rfl
          | succ turns => rw [drainLoop, hturn]
      | some p =>
          rw [drainLoop_nil_iff clock _ hs hsequenced hcalm hclass] at hnil
          push Not at hnil
          exact ⟨p, hclass, hnil⟩
  · rintro (hblocked | ⟨p, hclass, o, ho, hfits⟩) hnil
    · exact (drainLoop_allBlocked clock _ hs hnil).mpr hblocked
    · rw [drainLoop_nil_iff clock _ hs hsequenced hcalm hclass] at hnil
      exact absurd hfits (hnil o ho)

instance : DecidablePred (Store.Fits limits s) := fun o =>
  inferInstanceAs (Decidable (capacityBlock limits s
    (o.members.map Member.repo) o.actor o.blueprint = none))

/-- A hotfix waits for its repository, and a normal order for a free unit. -/
def blockedHotfix : List Move :=
  [sampleCall (sampleSubmit "w-1" "alice" .hotfix [⟨0, "org/app", "c-1"⟩]),
    sampleCall (sampleSubmit "w-2" "bob" .normal [⟨0, "org/lib", "c-2"⟩]),
    sampleCall (sampleSubmit "w-3" "alice" .hotfix [⟨0, "org/app", "c-3"⟩]),
    sampleCall (sampleSubmit "w-4" "bob" .normal [⟨0, "org/lib", "c-4"⟩]),
    sampleCall (.cancel "w-2" "withdrawn" "cancelled")]

/-- Four units, one per repository. -/
def oneEach : Limits :=
  { globalActive := 4, perRepoActive := 1 }

theorem calm_sample {clock : Clock} (h : s.throttles = []) :
    Calm clock s := by
  rw [Calm, h]
  simp

/-- Once the hotfix fits, a drain that admits nothing would miss nothing. -/
theorem work_conserving_hotfix_fits :
    (runFrom (step sampleHashes oneEach) (start [])
        (blockedHotfix ++ [sampleCall
          (.cancel "w-1" "withdrawn" "cancelled")])).store.FirstClassFits
        oneEach ∧
      ((drain oneEach none (fun _ => 0)
          (runFrom (step sampleHashes oneEach) (start [])
            (blockedHotfix ++ [sampleCall
              (.cancel "w-1" "withdrawn" "cancelled")])).store).1 = [] →
        (drain oneEach none (fun _ => 0)
          (runFrom (step sampleHashes oneEach) (start [])
            (blockedHotfix ++ [sampleCall
              (.cancel "w-1" "withdrawn"
                "cancelled")])).store).2.AllBlocked oneEach) := by
  have hfits : (runFrom (step sampleHashes oneEach) (start [])
      (blockedHotfix ++ [sampleCall
        (.cancel "w-1" "withdrawn" "cancelled")])).store.FirstClassFits
      oneEach :=
    ⟨.hotfix, by decide, by decide⟩
  exact ⟨hfits, (work_conserving_iff ⟨_, rfl⟩ (fun _ => 0)
    (calm_sample (by decide))).mpr (Or.inr hfits)⟩

/-- The normal order fits, and the drain spends its turns on the hotfix. -/
theorem hotfix_starves_normal :
    Calm (fun _ => 0)
        (runFrom (step sampleHashes oneEach) (start []) blockedHotfix).store ∧
      (drain oneEach none (fun _ => 0)
        (runFrom (step sampleHashes oneEach) (start [])
          blockedHotfix).store).1 = [] ∧
      ¬ (drain oneEach none (fun _ => 0)
        (runFrom (step sampleHashes oneEach) (start [])
          blockedHotfix).store).2.AllBlocked oneEach := by
  refine ⟨calm_sample (by decide), by decide, fun h => ?_⟩
  have hmissed : ∃ o ∈ (drain oneEach none (fun _ => 0)
      (runFrom (step sampleHashes oneEach) (start [])
        blockedHotfix).store).2.orders, o.state = .queued ∧
      (drain oneEach none (fun _ => 0)
        (runFrom (step sampleHashes oneEach) (start [])
          blockedHotfix).store).2.Fits oneEach o := by
    decide
  obtain ⟨o, ho, hqueued, hfits⟩ := hmissed
  exact h o ho hqueued hfits

end Conservation

end Admission
end SwFactory
