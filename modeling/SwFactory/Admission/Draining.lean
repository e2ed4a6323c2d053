import SwFactory.Admission.Transitions

/-!
# Durable admission: what a drain does

A turn of `drain` writes down what limits its candidate, moves the candidate to
the end of its class, or admits it.  `Turn` says what that is for the single
order, and `drainLoop_forall` carries a property of orders through a whole
drain.  The second half is about the places in the queue: sequence numbers are
never shared, and none is ahead of the counter.
-/

namespace SwFactory
namespace Admission

open Text Machine

/-- What a turn of `drain` can do to one order. -/
inductive Turn : Order → Order → Prop
  | limited (o : Order) (block : CapacityBlock) (now : Time) :
      Turn o { o with limiting := some block, updatedAt := now }
  | deferred (o : Order) (sequence : Nat) (now : Time)
      (hqueued : o.state = .queued) :
      Turn o { o with sequence := sequence, updatedAt := now }
  | admitted (o : Order) (now : Time)
      (hqueued : o.state = .queued) :
      Turn o (o.drain now)

section Turns

variable {s : Store}
variable {P : Order → Prop}

/-- What every turn preserves of an order, a turn preserves of all orders. -/
theorem drainOnce_forall
    (limits : Limits) (clock : Clock)
    (hP : ∀ o o', Turn o o' → P o → P o')
    (hs : s.Keyed) (h : ∀ o ∈ s.orders, P o) :
    ∀ o ∈ (drainOnce limits clock s).2.orders, P o := by
  cases hcandidate : s.candidate with
  | none =>
      obtain ⟨s', heq, horders, -⟩ := drainOnce_none limits clock hcandidate
      rw [heq]
      exact horders ▸ h
  | some item =>
      have hopened : ∀ o ∈ (s.opened (clock 0)).orders, P o := by
        rw [Store.opened_orders]
        exact h
      cases hblock : s.blockFor limits (clock 0) item with
      | some block =>
          have hlimited : ∀ o ∈ (setLimiting item.workId block (clock 1)
              (s.opened (clock 0))).orders, P o :=
            forall_updateRows hopened
              (fun o _ _ ho => hP o _ (.limited o block (clock 1)) ho)
          rw [drainOnce_blocked hcandidate hblock]
          split
          · refine forall_updateRows hlimited (fun o _ _ ho => ?_)
            split
            · rename_i hqueued
              exact hP o _ (.deferred o _ _ (by simpa using hqueued)) ho
            · exact ho
          · exact hlimited
      | none =>
          rw [drainOnce_fits hs hcandidate hblock]
          refine forall_updateRows hopened (fun o _ _ ho => ?_)
          split
          · rename_i hqueued
            exact hP o _ (.admitted o _ (by simpa using hqueued)) ho
          · exact ho

/-- **Drain rule.**  What every turn preserves, a drain preserves. -/
theorem drainLoop_forall
    (limits : Limits) (clock : Clock) (turns : Nat)
    (hP : ∀ o o', Turn o o' → P o → P o')
    (hs : s.Keyed) (h : ∀ o ∈ s.orders, P o) :
    ∀ o ∈ (drainLoop limits clock turns s).2.orders, P o := by
  induction turns generalizing s clock with
  | zero =>
      exact h
  | succ turns ih =>
      have hfirst := drainOnce_forall limits clock hP hs h
      have hkeyed := drainOnce_keyed limits clock hs
      rw [drainLoop]
      cases hturn : drainOnce limits clock s with
      | mk pass s' =>
          rw [hturn] at hfirst hkeyed
          cases pass with
          | stopped => exact hfirst
          | deferred => exact ih _ hkeyed hfirst
          | admitted workId => exact ih _ hkeyed hfirst

end Turns

section Sequences

variable {Q : Order → Terminal → Prop}
variable {hashes : Hashes} {limits : Limits} {s s' : Store}

/-- Places in the queue are not shared, and none is ahead of the counter. -/
structure Store.Sequenced (s : Store) : Prop where
  distinct : Machine.Keyed Order.sequence s.orders
  counted : ∀ o ∈ s.orders, o.sequence ≤ s.sequence

/-- Only a deferral gives an order another place. -/
theorem Change.sequence_eq {o o' : Order} (h : Change Q o o') :
    o'.sequence = o.sequence := by
  cases h with
  | ended cellId epoch outcome now hhits => exact settle_sequence
  | recorded token dagRunId now hlease hepochs => exact recordDispatch_sequence
  | released token error observation now hlease =>
      exact releaseDispatch_sequence
  | retired error observation now => exact markUndeliverable_sequence
  | _ => rfl

/-- An update that keeps the places. -/
theorem Store.Sequenced.update {workId : String} {f : Order → Order}
    (h : s.Sequenced)
    (hf : ∀ o ∈ s.orders, o.workId = workId →
      (f o).sequence = o.sequence) :
    (s.update workId f).Sequenced where
  distinct := by
    rw [Machine.Keyed, Store.update, map_updateRows hf]
    exact h.distinct
  counted := by
    refine forall_updateRows h.counted (fun o ho hwork hle => ?_)
    rw [hf o ho hwork]
    exact hle

/-- Transitions keep the places apart. -/
theorem Transition.sequenced (h : Transition Q hashes limits s s')
    (hs : s.Keyed) (hsequenced : s.Sequenced) : s'.Sequenced := by
  cases h with
  | books horders hsequence =>
      refine ⟨horders ▸ hsequenced.distinct, fun o ho => ?_⟩
      exact (hsequenced.counted o (horders ▸ ho)).trans hsequence
  | change workId f hf hkey =>
      exact hsequenced.update (fun o ho hwork => (hf o ho hwork).sequence_eq)
  | deferred workId now =>
      constructor
      · refine Machine.Keyed.updateRows_fresh hs hsequenced.distinct
          (fun o ho hwork => ?_)
        split
        · refine Or.inr (fun b hb => ?_)
          have hle := hsequenced.counted b hb
          exact Nat.ne_of_lt (Nat.lt_succ_of_le hle)
        · exact Or.inl rfl
      · intro o' ho'
        obtain ⟨o, ho, rfl⟩ := mem_updateRows.mp ho'
        have hle : o.sequence ≤ s.sequence + 1 :=
          Nat.le_succ_of_le (hsequenced.counted o ho)
        split
        · split
          · exact Nat.le_refl _
          · exact hle
        · exact hle
  | admitted item now hitem hqueued hfits =>
      exact hsequenced.update (fun _ _ _ => rfl)
  | submitted args block now hvalid hnew hfits horders hsequence =>
      constructor
      · rw [horders, Machine.Keyed, List.map_append, List.nodup_append]
        refine ⟨hsequenced.distinct, by simp, ?_⟩
        rintro n hn n' hn' rfl
        obtain ⟨o, ho, rfl⟩ := List.mem_map.mp hn
        have hle := hsequenced.counted o ho
        have hnext : o.sequence = s.sequence + 1 := by
          simpa [Submission.rows] using hn'
        omega
      · intro o ho
        rw [horders] at ho
        rw [hsequence]
        rcases List.mem_append.mp ho with ho | ho
        · exact Nat.le_succ_of_le (hsequenced.counted o ho)
        · rw [List.mem_singleton.mp ho]
          exact Nat.le_refl _

theorem Transitions.sequenced (h : Transitions Q hashes limits s s')
    (hs : s.Keyed) (hsequenced : s.Sequenced) : s'.Sequenced := by
  induction h with
  | refl => exact hsequenced
  | tail hpre hlast ih =>
      exact hlast.sequenced (Transitions.keyed hpre hs) ih

end Sequences

section Queue

variable {limits : Limits} {clock : Clock} {s : Store}
variable {item : Order} {block : CapacityBlock} {p : Priority}

theorem drainOnce_sequenced
    (limits : Limits) (clock : Clock) (hs : s.Keyed)
    (hsequenced : s.Sequenced) :
    (drainOnce limits clock s).2.Sequenced :=
  Transitions.sequenced (Q := fun _ _ => True)
    (drainOnce_transitions sampleHashes limits clock hs) hs hsequenced

/-- What a blocked turn writes to its candidate. -/
def Order.postpone
    (block : CapacityBlock) (sequence : Nat) (now : Time) (o : Order) :
    Order :=
  { o with limiting := some block, sequence := sequence, updatedAt := now }

/-- The store behind a blocked turn that defers its candidate. -/
def Store.postponed
    (s : Store) (item : Order) (block : CapacityBlock) (clock : Clock) :
    Store :=
  deferSequence item.workId (clock 2)
    (setLimiting item.workId block (clock 1) (s.opened (clock 0)))

/-- The store behind a turn that admits its candidate. -/
def Store.served (s : Store) (item : Order) (clock : Clock) : Store :=
  recordService item.priority
    ((s.opened (clock 0)).update item.workId (Order.drain (clock 1)))

theorem postponed_orders (hs : s.Keyed)
    (hitem : item ∈ s.orders) (hqueued : item.state = .queued) :
    (s.postponed item block clock).orders =
      updateRows Order.workId item.workId
        (Order.postpone block (s.sequence + 1) (clock 2)) s.orders := by
  have hlimited : (setLimiting item.workId block (clock 1)
      (s.opened (clock 0))).orders =
      updateRows Order.workId item.workId
        (fun o => { o with limiting := some block, updatedAt := clock 1 })
        s.orders := by
    unfold setLimiting Store.update
    dsimp only
    rw [Store.opened_orders]
  have hsequence : (s.opened (clock 0)).sequence = s.sequence :=
    Store.topUp_sequence
  unfold Store.postponed deferSequence Store.updateWhere Store.update
    Store.nextSequence
  dsimp only
  rw [hlimited, updateRows_updateRows (by intro _; rfl)]
  refine List.map_congr_left fun o ho => ?_
  split
  · rename_i hwork
    obtain rfl := Machine.Keyed.eq hs ho hitem hwork
    simp [hqueued, Order.postpone, setLimiting, Store.update, hsequence]
  · rfl

theorem postponed_throttles :
    (s.postponed item block clock).throttles =
      s.throttles.filter (fun t => decide (clock 0 < t.untilAt)) :=
  rfl

theorem postponed_fairness :
    (s.postponed item block clock).fairness = s.topUp.fairness :=
  rfl

theorem served_orders :
    (s.served item clock).orders =
      updateRows Order.workId item.workId (Order.drain (clock 1))
        s.orders := by
  unfold Store.served recordService Store.update
  dsimp only
  rw [Store.opened_orders]

theorem served_throttles :
    (s.served item clock).throttles =
      s.throttles.filter (fun t => decide (clock 0 < t.untilAt)) :=
  rfl

/-- A turn that defers its candidate. -/
theorem drainOnce_postponed
    (h : s.candidate = some item)
    (hblock : s.blockFor limits (clock 0) item = some block)
    (hother : s.anyOtherCandidate item.workId = true) :
    drainOnce limits clock s = (.deferred, s.postponed item block clock) := by
  rw [drainOnce_blocked h hblock, if_pos hother]
  rfl

/-- A turn that stops at its candidate, because there is no other. -/
theorem drainOnce_stopped
    (h : s.candidate = some item)
    (hblock : s.blockFor limits (clock 0) item = some block)
    (hother : s.anyOtherCandidate item.workId = false) :
    drainOnce limits clock s =
      (.stopped,
        setLimiting item.workId block (clock 1) (s.opened (clock 0))) := by
  rw [drainOnce_blocked h hblock, if_neg (by simp [hother])]

/-- A turn that admits its candidate. -/
theorem drainOnce_served (hs : s.Keyed)
    (h : s.candidate = some item)
    (hblock : s.blockFor limits (clock 0) item = none) :
    drainOnce limits clock s =
      (.admitted item.workId, s.served item clock) := by
  obtain ⟨hitem, hqueued⟩ := candidate_mem h
  rw [drainOnce_fits hs h hblock, update_candidate _ _ hqueued]
  · rfl
  · simpa [Store.Keyed] using hs
  · simpa using hitem

instance : Std.Total Store.before where
  total a b := by
    unfold Store.before
    omega

instance : IsTrans Order Store.before where
  trans a b c hab hbc := by
    unfold Store.before at hab hbc ⊢
    omega

/-- The orders that wait in a class. -/
def waiting (p : Priority) (o : Order) : Bool :=
  decide (o.state = .queued ∧ o.priority = p)

theorem classRows_perm :
    (s.classRows p).Perm (s.orders.filter (waiting p)) := by
  have hfilter : s.orders.filter (waiting p) =
      (s.orders.filter (fun o => decide (o.state = .queued))).filter
        (fun o => decide (o.priority = p)) := by
    rw [List.filter_filter]
    congr 1
    funext o
    simp only [waiting, Bool.decide_and]
    exact Bool.and_comm _ _
  rw [hfilter]
  exact (List.perm_insertionSort _ _).filter _

theorem classRows_nodup (hs : s.Keyed) : (s.classRows p).Nodup :=
  classRows_perm.nodup_iff.mpr ((List.Nodup.of_map Order.workId hs).filter _)

/-- The queue of a class is in the order of the sequence numbers. -/
theorem classRows_sorted :
    (s.classRows p).Pairwise (fun a b => a.sequence ≤ b.sequence) := by
  have hrows : s.queuedRows.Pairwise Store.before :=
    List.pairwise_insertionSort _ _
  refine (hrows.filter _).imp_of_mem fun {a b} ha hb hab => ?_
  have hpa : a.priority = p := (mem_classRows.mp ha).2.2
  have hpb : b.priority = p := (mem_classRows.mp hb).2.2
  unfold Store.before at hab
  rw [hpa, hpb] at hab
  omega

/-- The candidate is the first of its class. -/
theorem candidate_first {o : Order}
    (h : s.candidate = some item) (ho : o ∈ s.orders)
    (hqueued : o.state = .queued) (hpriority : o.priority = item.priority) :
    item.sequence ≤ o.sequence := by
  obtain ⟨-, p, -, hhead⟩ := candidate_some h
  have hmem := mem_classRows.mp (List.mem_of_head? hhead)
  have hsorted := classRows_sorted (s := s) (p := p)
  obtain ⟨rest, hrows⟩ := List.head?_eq_some_iff.mp hhead
  have ho' : o ∈ s.classRows p :=
    mem_classRows.mpr ⟨ho, hqueued, hpriority.trans hmem.2.2⟩
  rw [hrows] at hsorted ho'
  rcases List.mem_cons.mp ho' with rfl | hrest
  · exact Nat.le_refl _
  · exact List.rel_of_pairwise_cons hsorted hrest

/-- A sorted list of the waiting orders is the queue of the class. -/
theorem classRows_eq {rows : List Order} (hsequenced : s.Sequenced)
    (hperm : rows.Perm (s.orders.filter (waiting p)))
    (hsorted : rows.Pairwise (fun a b => a.sequence ≤ b.sequence)) :
    s.classRows p = rows := by
  refine List.Perm.eq_of_pairwise (fun a b ha hb hab hba => ?_)
    classRows_sorted hsorted (classRows_perm.trans hperm.symm)
  have hb' : b ∈ s.orders := List.mem_of_mem_filter (hperm.subset hb)
  exact hsequenced.distinct.eq (mem_classRows.mp ha).1 hb'
    (Nat.le_antisymm hab hba)

/-- A deferred candidate goes from the head of its class to the end. -/
theorem postponed_classRows {rest : List Order} (hs : s.Keyed)
    (hsequenced : s.Sequenced)
    (hsequenced' : (s.postponed item block clock).Sequenced)
    (hrows : s.classRows p = item :: rest) :
    (s.postponed item block clock).classRows p =
      rest ++ [item.postpone block (s.sequence + 1) (clock 2)] := by
  have hmem : item ∈ s.classRows p := hrows ▸ List.mem_cons_self
  obtain ⟨hitem, hqueued, hpriority⟩ := mem_classRows.mp hmem
  have hnodup : (item :: rest).Nodup := hrows ▸ classRows_nodup hs
  have hrest : ∀ o ∈ rest, o.workId ≠ item.workId ∧ o ∈ s.orders := by
    intro o ho
    have ho' : o ∈ s.orders :=
      (mem_classRows.mp (hrows ▸ List.mem_cons_of_mem item ho)).1
    refine ⟨fun hwork => ?_, ho'⟩
    obtain rfl := Machine.Keyed.eq hs ho' hitem hwork
    exact (List.nodup_cons.mp hnodup).1 ho
  refine classRows_eq hsequenced' ?_ ?_
  · -- the update commutes with the filter and touches the candidate only
    have hupdated : updateRows Order.workId item.workId
        (Order.postpone block (s.sequence + 1) (clock 2)) (item :: rest) =
        item.postpone block (s.sequence + 1) (clock 2) :: rest := by
      rw [updateRows, List.map_cons, if_pos rfl]
      congr 1
      refine (List.map_congr_left fun o ho => ?_).trans (List.map_id' rest)
      exact if_neg (hrest o ho).1
    have hwaiting : waiting p ∘ (fun o => if o.workId = item.workId then
        o.postpone block (s.sequence + 1) (clock 2) else o) = waiting p := by
      funext o
      simp only [Function.comp_apply]
      split <;> rfl
    rw [postponed_orders hs hitem hqueued, updateRows, List.filter_map,
      hwaiting]
    refine (List.perm_append_singleton _ _).trans ?_
    rw [← hupdated, updateRows, ← hrows]
    exact classRows_perm.map _
  · have hsorted := classRows_sorted (s := s) (p := p)
    rw [hrows] at hsorted
    refine List.pairwise_append.mpr
      ⟨hsorted.of_cons, List.pairwise_singleton _ _, fun o ho o' ho' => ?_⟩
    rw [List.mem_singleton.mp ho']
    exact Nat.le_succ_of_le (hsequenced.counted o (hrest o ho).2)

end Queue

end Admission
end SwFactory
