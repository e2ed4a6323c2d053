import SwFactory.Admission.Lifecycle

/-!
# Durable admission: capacity

Units are added in two places, the fresh admission of `submit` and the turn of
`drain`, each behind a check of every dimension in the same transaction; all
other changes can only give units back.  `capacity_safe` is the bound that
follows, for every dimension and every reachable store.
-/

namespace SwFactory
namespace Admission

open Text Machine

section Units

variable {Q : Order → Terminal → Prop}
variable {s s' : Store} {o o' : Order}

/-- The held units that pass a test, counted order by order. -/
theorem countP_heldMembers (φ : HeldUnit → Bool) :
    s.heldMembers.countP φ =
      (s.orders.map (fun o => o.heldUnits.countP φ)).sum := by
  rw [Store.heldMembers, List.countP_flatMap]
  rfl

theorem heldUnits_of_not_holding (h : o.state.holding = false) :
    o.heldUnits = [] := by
  simp [Order.heldUnits, h]

/-- The units of a holding order, by repository. -/
theorem heldUnits_of_holding (h : o.state.holding = true) :
    o.heldUnits = ((o.members.filter Member.isHeld).map Member.repo).map
      (fun repo => ⟨repo, o.actor, o.blueprint⟩) := by
  simp [Order.heldUnits, h]

/-- Rewriting members without giving a unit back to one. -/
theorem heldRepos_sublist {f : Member → Member}
    (hf : ∀ m, (f m).repo = m.repo ∧ ((f m).state = .held → m.state = .held))
    (ms : List Member) :
    (((ms.map f).filter Member.isHeld).map Member.repo).Sublist
      ((ms.filter Member.isHeld).map Member.repo) := by
  induction ms with
  | nil =>
      exact List.Sublist.refl _
  | cons m ms ih =>
      obtain ⟨hrepo, hheld⟩ := hf m
      rw [List.map_cons]
      by_cases hm : m.state = .held
      · by_cases hfm : (f m).state = .held
        · simpa [Member.isHeld, hm, hfm, hrepo] using ih
        · simpa [Member.isHeld, hm, hfm] using ih.cons m.repo
      · have hfm : (f m).state ≠ .held := fun h => hm (hheld h)
        simpa [Member.isHeld, hm, hfm] using ih

/-- An order that keeps or ends its members holds no more than before. -/
theorem heldUnits_sublist {f : Member → Member}
    (hsame : SameWork o o')
    (hstate : o'.state.holding = true → o.state.holding = true)
    (hmembers : o'.members = o.members.map f)
    (hf : ∀ m, (f m).repo = m.repo ∧ ((f m).state = .held → m.state = .held)) :
    o'.heldUnits.Sublist o.heldUnits := by
  cases hholding : o'.state.holding with
  | false =>
      rw [heldUnits_of_not_holding hholding]
      exact List.nil_sublist _
  | true =>
      rw [heldUnits_of_holding hholding, heldUnits_of_holding (hstate hholding),
        hsame.actor, hsame.blueprint, hmembers]
      exact (heldRepos_sublist hf o.members).map _

/-- A write under `WHERE state='dispatching'` starts from a holding order. -/
theorem holding_of_dispatching {state state' : OrderState} :
    (if state = .dispatching then state' else state).holding = true →
      state.holding = true := by
  intro h
  split at h
  · rename_i hstate
    rw [hstate]
    rfl
  · exact h

/-- No change adds a unit. -/
theorem Change.heldUnits_sublist (h : Change Q o o') :
    o'.heldUnits.Sublist o.heldUnits := by
  have hsame := h.sameWork
  have hid : ∀ m : Member, (id m).repo = m.repo ∧
      ((id m).state = .held → m.state = .held) :=
    fun _ => ⟨rfl, id⟩
  have hend : ∀ cellId epoch outcome, ∀ m : Member,
      (if m.matches_ cellId epoch then { m with state := .ended outcome }
          else m).repo = m.repo ∧
        ((if m.matches_ cellId epoch then { m with state := .ended outcome }
          else m).state = .held → m.state = .held) := by
    intro cellId epoch outcome m
    split
    · exact ⟨rfl, by simp⟩
    · exact ⟨rfl, id⟩
  cases h with
  | limited block now => exact List.Sublist.refl _
  | cancelled outcome reason now hstate hallowed =>
      rw [heldUnits_of_not_holding rfl]
      exact List.nil_sublist _
  | ended cellId epoch outcome now hhits =>
      refine Admission.heldUnits_sublist hsame ?_ settle_members
        (hend cellId epoch outcome)
      rw [settle_state]
      split
      · simp [OrderState.holding]
      · exact id
  | unmatched cellId epoch outcome hhits =>
      exact Admission.heldUnits_sublist hsame id rfl (hend cellId epoch outcome)
  | claimed inflight attempt token leaseUntil now hclaimable =>
      obtain ⟨hstate, -⟩ := claimable_some hclaimable
      refine Admission.heldUnits_sublist hsame (fun _ => ?_)
        (List.map_id _).symm hid
      rcases hstate with hstate | hstate <;> rw [hstate] <;> rfl
  | epoch token jobIdx epoch hlease =>
      refine Admission.heldUnits_sublist hsame id rfl (fun m => ?_)
      split
      · exact ⟨rfl, id⟩
      · exact ⟨rfl, id⟩
  | recorded token dagRunId now hlease hepochs =>
      refine Admission.heldUnits_sublist hsame ?_ (by simp) hid
      rw [recordDispatch_state]
      exact holding_of_dispatching
  | released token error observation now hlease =>
      refine Admission.heldUnits_sublist hsame ?_ (by simp) hid
      rw [releaseDispatch_state]
      exact holding_of_dispatching
  | retired error observation now =>
      refine Admission.heldUnits_sublist hsame ?_ (by simp) hid
      rw [markUndeliverable_state]
      exact holding_of_dispatching
  | noted error observation => exact List.Sublist.refl _

end Units

section Limits

variable {Q : Order → Terminal → Prop}
variable {limits : Limits} {s s' : Store}

/-- The held units are within every limit. -/
structure WithinLimits (limits : Limits) (s : Store) : Prop where
  total : s.heldMembers.length ≤ limits.globalActive
  repo : ∀ r, s.heldMembers.countP (fun u => decide (u.repo = r)) ≤
    limits.perRepoActive
  actor : ∀ a, s.heldMembers.countP (fun u => decide (u.actor = a)) ≤
    limits.perActorActive
  blueprint : ∀ b, s.heldMembers.countP (fun u => decide (u.blueprint = b)) ≤
    limits.perBlueprintActive

/-- A transition that adds no unit. -/
theorem WithinLimits.of_le (h : WithinLimits limits s)
    (hle : ∀ φ : HeldUnit → Bool,
      s'.heldMembers.countP φ ≤ s.heldMembers.countP φ) :
    WithinLimits limits s' where
  total := by
    have := hle (fun _ => true)
    rw [List.countP_true] at this
    exact this.trans h.total
  repo r := (hle _).trans (h.repo r)
  actor a := (hle _).trans (h.actor a)
  blueprint b := (hle _).trans (h.blueprint b)

/-- Nothing blocks exactly if every check passes. -/
theorem firstBlock_eq_none {cs : List Check} :
    firstBlock cs = none ↔ ∀ c ∈ cs, c.current + c.needed ≤ c.limit := by
  rw [firstBlock, Option.map_eq_none_iff, List.find?_eq_none]
  simp [Check.blocks]

/-- A transition that adds the units of one order that fits. -/
theorem WithinLimits.add (h : WithinLimits limits s)
    {repos : List String} {actor blueprint : String}
    (hfits : capacityBlock limits s repos actor blueprint = none)
    (hadd : ∀ φ : HeldUnit → Bool,
      s'.heldMembers.countP φ ≤ s.heldMembers.countP φ +
        repos.countP (fun r => φ ⟨r, actor, blueprint⟩)) :
    WithinLimits limits s' := by
  have hchecks := firstBlock_eq_none.mp hfits
  have hwanted : repos.length ≤ (if repos = [] then [""] else repos).length := by
    split <;> simp_all
  constructor
  · have hnew := hadd (fun _ => true)
    have hcheck := hchecks _ (List.mem_append_left _
      (List.mem_append_left _ (List.mem_singleton_self _)))
    simp only [List.countP_true] at hnew
    dsimp only at hcheck
    omega
  · intro r
    have hnew := hadd (fun u => decide (u.repo = r))
    by_cases hr : r ∈ repos
    · have hne : repos ≠ [] := List.ne_nil_of_mem hr
      have hcheck := hchecks
        ⟨.repo, r, s.heldMembers.countP (fun u => decide (u.repo = r)),
          repos.countP (fun x => decide (x = r)), limits.perRepoActive⟩
        (by simp [checks, hne, hr])
      exact hnew.trans hcheck
    · have hnone : repos.countP (fun x => decide (x = r)) = 0 := by
        rw [List.countP_eq_zero]
        rintro x hx heq
        obtain rfl : x = r := by simpa using heq
        exact hr hx
      exact (hnew.trans (by simp [hnone])).trans (h.repo r)
  · intro a
    have hnew := hadd (fun u => decide (u.actor = a))
    by_cases ha : actor = a
    · have hcheck := hchecks
        ⟨.actor, actor, s.heldMembers.countP (fun u => decide (u.actor = actor)),
          (if repos = [] then [""] else repos).length, limits.perActorActive⟩
        (by simp [checks])
      dsimp only at hcheck
      simp only [ha, decide_true, List.countP_true] at hnew hcheck
      omega
    · simp only [ha, decide_false, List.countP_false, Function.const_apply,
        Nat.add_zero] at hnew
      exact hnew.trans (h.actor a)
  · intro b
    have hnew := hadd (fun u => decide (u.blueprint = b))
    by_cases hb : blueprint = b
    · have hcheck := hchecks
        ⟨.blueprint, blueprint,
          s.heldMembers.countP (fun u => decide (u.blueprint = blueprint)),
          (if repos = [] then [""] else repos).length,
          limits.perBlueprintActive⟩
        (by simp [checks])
      dsimp only at hcheck
      simp only [hb, decide_true, List.countP_true] at hnew hcheck
      omega
    · simp only [hb, decide_false, List.countP_false, Function.const_apply,
        Nat.add_zero] at hnew
      exact hnew.trans (h.blueprint b)

/-- What an order can hold at most, by its repositories. -/
theorem countP_heldUnits_le (o : Order) (φ : HeldUnit → Bool) :
    o.heldUnits.countP φ ≤ (o.members.map Member.repo).countP
      (fun r => φ ⟨r, o.actor, o.blueprint⟩) := by
  cases hholding : o.state.holding with
  | false =>
      rw [heldUnits_of_not_holding hholding]
      exact Nat.zero_le _
  | true =>
      rw [heldUnits_of_holding hholding, List.countP_map]
      exact (List.filter_sublist.map Member.repo).countP_le

/-- The rows of a submission name the repositories that were checked. -/
theorem memberRows_repos_perm (args : Submission) :
    (args.memberRows.map Member.repo).Perm args.repos := by
  have hrows : args.memberRows.map Member.repo =
      (args.members.insertionSort (fun a b => a.jobIdx ≤ b.jobIdx)).map
        MemberSpec.repo := by
    simp [Submission.memberRows, Function.comp_def]
  rw [hrows]
  exact ((List.perm_insertionSort _ _).map _).trans
    (List.perm_insertionSort _ _).symm

/-- An admission adds the units of the order it admits. -/
theorem countP_drain {item : Order} {now : Time} (hs : s.Keyed)
    (hitem : item ∈ s.orders) (hqueued : item.state = .queued)
    (horders : s'.orders =
      updateRows Order.workId item.workId (Order.drain now) s.orders)
    (φ : HeldUnit → Bool) :
    s'.heldMembers.countP φ =
      s.heldMembers.countP φ + (item.drain now).heldUnits.countP φ := by
  have hsum := sum_updateRows (f := Order.drain now)
    (g := fun o => o.heldUnits.countP φ) hs hitem
  have hzero : item.heldUnits.countP φ = 0 := by
    rw [heldUnits_of_not_holding (by simp [hqueued, OrderState.holding])]
    rfl
  rw [countP_heldMembers, countP_heldMembers, horders]
  omega

/-- Transitions stay within the limits. -/
theorem Transition.withinLimits {hashes : Hashes}
    (h : Transition Q hashes limits s s') (hs : s.Keyed)
    (hwithin : WithinLimits limits s) : WithinLimits limits s' := by
  cases h with
  | books horders hsequence =>
      refine hwithin.of_le (fun φ => ?_)
      simp [Store.heldMembers, horders]
  | change workId f hf hkey =>
      refine hwithin.of_le (fun φ => ?_)
      rw [countP_heldMembers, countP_heldMembers]
      exact sum_updateRows_le (fun o ho hwork =>
        (hf o ho hwork).heldUnits_sublist.countP_le)
  | deferred workId now =>
      refine hwithin.of_le (fun φ => ?_)
      rw [countP_heldMembers, countP_heldMembers]
      refine sum_updateRows_le (fun o ho hwork => ?_)
      split <;> exact Nat.le_refl _
  | admitted item now hitem hqueued hfits =>
      refine hwithin.add hfits (fun φ => ?_)
      rw [countP_drain hs hitem hqueued rfl φ]
      exact Nat.add_le_add_left (countP_heldUnits_le (item.drain now) φ) _
  | submitted args block now hvalid hnew hfits horders hsequence =>
      have hrow := fun φ => countP_heldUnits_le
        (args.rows hashes block (s.sequence + 1) now) φ
      have hsum : ∀ φ : HeldUnit → Bool,
          s'.heldMembers.countP φ = s.heldMembers.countP φ +
            (args.rows hashes block (s.sequence + 1) now).heldUnits.countP φ := by
        intro φ
        rw [countP_heldMembers, countP_heldMembers, horders]
        simp
      cases block with
      | some block =>
          refine hwithin.of_le (fun φ => ?_)
          rw [hsum, heldUnits_of_not_holding (by rfl)]
          exact Nat.le_refl _
      | none =>
          refine hwithin.add (hfits rfl) (fun φ => ?_)
          rw [hsum]
          refine Nat.add_le_add_left ((hrow φ).trans (Nat.le_of_eq ?_)) _
          exact (memberRows_repos_perm args).countP_eq _

variable {hashes : Hashes} {throttles : List Throttle} {c : Configuration}

/--
**Capacity safety.**  In every reachable store the held units are within the
global limit and within the limits of every repository, actor and blueprint.
-/
theorem capacity_safe
    (hc : Reachable (step hashes limits) (start throttles) c) :
    WithinLimits limits c.store := by
  refine (reachable_store (P := WithinLimits limits) ?_ ?_ hc).2
  · constructor <;> simp [start, Store.heldMembers]
  · exact fun _ _ hs hwithin h => h.withinLimits hs hwithin

/-- One order of two units fills a factory of two. -/
def fullFactory : List Move :=
  [sampleCall (sampleSubmit "w-1" "alice" .normal
      [⟨0, "org/app", "c-1"⟩, ⟨1, "org/app", "c-2"⟩]),
    sampleCall (sampleSubmit "w-2" "bob" .normal [⟨0, "org/app", "c-3"⟩])]

theorem capacity_safe_full_factory :
    (runFrom (step sampleHashes { globalActive := 2 }) (start [])
        fullFactory).store.heldMembers.length = 2 ∧
      WithinLimits { globalActive := 2 }
        (runFrom (step sampleHashes { globalActive := 2 }) (start [])
          fullFactory).store :=
  ⟨by decide, capacity_safe ⟨fullFactory, rfl⟩⟩

end Limits

end Admission
end SwFactory
