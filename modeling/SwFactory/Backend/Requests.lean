import SwFactory.Backend.Programs

/-!
# The backend: every request keeps to the contract

A delivery records an epoch for a member only after the Cell store has told it
that the epoch is its own: it has activated it, or the history of the Cell
names it.  The sweep and the managed effects open intents only for epochs that
a Cell they have read stands at.
-/

namespace SwFactory
namespace Backend

open Text Machine Cells Restore

variable {V : Type}
variable {setup : Setup V} {guarded : Prop} {known : Stores V → Prop}

section Members

variable {i : Admission.DispatchIntent} {member : Admission.Member} {job : Job}

/-- What an attempt knows of its order fixes the Cell and the actor. -/
theorem seat_of_intent {sh : Stores V} (hs : Ledger setup sh)
    (hi : i.Holds sh.admission.store) (hm : member ∈ i.members)
    (hjob : (setup.loads i.order.payload).job member.jobIdx = some job)
    {o : Admission.Order} (hrow : sh.admission.store.row i.workId = some o)
    {m : Admission.Member} (hmem : m ∈ o.members)
    (hidx : m.jobIdx = member.jobIdx) :
    m.cellId = member.cellId ∧
      setup.stableId (identityForJob setup job) = m.cellId ∧
      orderActor setup o =
        cellActor (setup.loads i.order.payload).actor i.workId := by
  obtain ⟨o', hrow', horder, hseats⟩ := hi
  cases hrow'.symm.trans hrow
  obtain ⟨ho, hwork⟩ := Admission.Store.row_some hrow
  have hfits := hs.orders o ho
  refine ⟨?_, ?_, ?_⟩
  · obtain ⟨m₀, hm₀, hidx₀, hcell₀⟩ := mem_seat hseats.symm hm
    have hsame : m = m₀ :=
      List.inj_on_of_nodup_map hfits.wellFormed.roster.jobs hmem hm₀
        (hidx.trans hidx₀.symm)
    rw [hsame]
    exact hcell₀
  · apply hfits.placed m hmem job
    rw [horder, hidx]
    exact hjob
  · rw [orderActor, horder, hwork]

/-- The record of an epoch that the Cell store says is the order's own. -/
theorem safe_recordEpoch {cell : Cell} (hm : member ∈ i.members)
    (hjob : (setup.loads i.order.payload).job member.jobIdx = some job)
    (hknown : ∀ sh, (contract setup guarded).good sh → known sh →
      i.Holds sh.admission.store ∧
        (cell.cellId = member.cellId ∨
          cell.cellId = setup.stableId (identityForJob setup job)) ∧
        ActivatedBy sh.cells cell.cellId cell.epoch
          (cellActor (setup.loads i.order.payload).actor i.workId)) :
    (contract setup guarded).Safe known (recordEpoch i member cell) := by
  apply Contract.Safe.bind
  · apply safe_then
    · intro sh hgood h o hrow m hmem hidx
      obtain ⟨hholds, hcell, hactivated⟩ := hknown sh hgood h
      obtain ⟨hseat, hplaced, hactor⟩ :=
        seat_of_intent hgood.1 hholds hm hjob hrow hmem hidx
      have hid : m.cellId = cell.cellId := by
        rcases hcell with hcell | hcell
        · exact hseat.trans hcell.symm
        · exact hplaced.symm.trans hcell.symm
      rw [hid, hactor]
      exact hactivated
    · exact fun _ => Contract.Safe.ofExcept
  · exact fun _ => Contract.Safe.ret

/-- The newest event of the epoch is one of the activation it names. -/
theorem wasActivatedBy_spec {events : List Event} {epoch : Int} {owner : String}
    (h : wasActivatedBy events epoch owner = true) :
    ∃ e ∈ events, e.kind = .activated ∧ e.epoch = epoch ∧
      e.payload = .actor owner := by
  unfold wasActivatedBy at h
  split at h
  · rename_i e hfind
    have hmem : e ∈ events := List.mem_reverse.mp (List.mem_of_find?_eq_some hfind)
    have hkind := List.find?_some hfind
    rw [decide_eq_true_eq] at hkind
    exact ⟨e, hmem, hkind.1, hkind.2, of_decide_eq_true h⟩
  · cases h

/-- An activation that the history names is on the timeline. -/
theorem activatedBy_of_history {sh : Stores V} (hs : Ledger setup sh)
    {cellId owner : String} {events : List Event} {epoch : Int}
    (htold : ∀ e, e ∈ events → e.cellId = cellId ∧ e ∈ sh.cells.events)
    (h : wasActivatedBy events epoch owner = true) :
    ActivatedBy sh.cells cellId epoch owner := by
  obtain ⟨e, he, hkind, hepoch, hpayload⟩ := wasActivatedBy_spec h
  obtain ⟨hid, hmem⟩ := htold e he
  obtain ⟨actor, heq⟩ := hs.activations e hmem hkind
  have hactor : Payload.actor actor = Payload.actor owner := by
    rw [← hpayload]
    exact (congrArg Mutation.payload heq).symm
  cases hactor
  refine ⟨e, hmem, ?_⟩
  rw [heq, hid, hepoch]

theorem safe_activateMember (hm : member ∈ i.members)
    (hjob : (setup.loads i.order.payload).job member.jobIdx = some job)
    (hknown : ∀ sh, (contract setup guarded).good sh → known sh →
      i.Holds sh.admission.store) :
    (contract setup guarded).Safe known (activateMember setup i member job
      (cellActor (setup.loads i.order.payload).actor i.workId)) := by
  apply safe_then (fun _ _ _ => trivial)
  intro activated
  split
  · rename_i cell
    apply safe_recordEpoch hm hjob
    rintro sh hgood ⟨h, htold⟩
    obtain ⟨hid, -, hactivated⟩ := htold cell rfl
    exact ⟨hknown sh hgood h, Or.inr hid, hactivated⟩
  · exact Contract.Safe.raise
  · exact Contract.Safe.raise

theorem safe_memberCell (hm : member ∈ i.members)
    (hjob : (setup.loads i.order.payload).job member.jobIdx = some job)
    (hknown : ∀ sh, (contract setup guarded).good sh → known sh →
      i.Holds sh.admission.store) :
    (contract setup guarded).Safe known (memberCell setup i member job
      (setup.loads i.order.payload).actor) := by
  apply safe_then (fun _ _ _ => trivial)
  intro found
  have hactivate : (contract setup guarded).Safe
      (fun sh => known sh ∧
        (contract setup guarded).tells (.getCell member.cellId) found sh)
      (activateMember setup i member job
        (cellActor (setup.loads i.order.payload).actor i.workId)) :=
    safe_activateMember hm hjob (fun sh hgood h => hknown sh hgood h.1)
  split
  · split
    · exact Contract.Safe.ret
    · split
      · exact Contract.Safe.raise
      · exact hactivate
  · rename_i cell hepoch
    split
    · -- the history decides whether an earlier attempt has activated it
      apply safe_then (fun _ _ _ => trivial)
      intro events
      show (contract setup guarded).Safe _
        (if wasActivatedBy events cell.epoch _ then _ else _)
      split
      · rename_i hown
        apply safe_recordEpoch hm hjob
        rintro sh hgood ⟨⟨h, hcell⟩, hhistory⟩
        exact ⟨hknown sh hgood h, Or.inl (hcell cell rfl).1,
          activatedBy_of_history hgood.1 hhistory hown⟩
      · exact hactivate.weaken (fun _ _ h => h.1)
    · exact hactivate
  · exact hactivate

theorem gives_checkPolicy {policyDigest : String} {bound : Cell}
    (hknown : ∀ sh, (contract setup guarded).good sh → known sh →
      sh.cells.Reached bound.cellId bound.epoch) :
    (contract setup guarded).Gives known
      (checkPolicy policyDigest bound : Method V _)
      (fun cell sh => sh.cells.Reached cell.cellId cell.epoch) := by
  unfold checkPolicy
  split
  · exact Contract.Gives.raise
  · exact Contract.Gives.ret hknown

/-- The Cell that a binding returns stands at an epoch it has reached. -/
theorem gives_bindCellPolicy (cell : Cell)
    (operationKey policyDigest generation : String) :
    (contract setup guarded).Gives known
      (bindCellPolicy cell operationKey policyDigest generation : Method V _)
      (fun cell sh => sh.cells.Reached cell.cellId cell.epoch) := by
  unfold bindCellPolicy
  split
  · exact Contract.Gives.raise
  · apply gives_then (fun _ _ _ => trivial)
    intro patched
    split
    · rename_i bound
      exact gives_checkPolicy (fun sh _ h => h.2 bound rfl)
    · apply gives_then (fun _ _ _ => trivial)
      intro found
      cases found with
      | error e => exact Contract.Gives.raise
      | ok bound => exact gives_checkPolicy (fun sh _ h => (h.2 bound rfl).2)
    · exact Contract.Gives.raise

theorem gives_bindMember (hm : member ∈ i.members)
    (hknown : ∀ sh, (contract setup guarded).good sh → known sh →
      i.Holds sh.admission.store) :
    (contract setup guarded).Gives known
      (bindMember setup i (setup.loads i.order.payload) member)
      (fun b sh => sh.cells.Reached b.cellId b.epoch) := by
  unfold bindMember
  split
  · exact Contract.Gives.raise
  · rename_i job hjob
    apply (safe_memberCell hm hjob hknown).bind_gives
    intro cell
    apply (gives_bindCellPolicy cell _ _ _).bind
    intro bound
    exact Contract.Gives.ret (fun _ _ h => h.2)

/-- Every member that is bound has a Cell at an epoch it has reached. -/
theorem gives_bindMembers (members : List Admission.Member)
    (hmembers : ∀ m ∈ members, m ∈ i.members)
    (hknown : ∀ sh, (contract setup guarded).good sh → known sh →
      i.Holds sh.admission.store) :
    (contract setup guarded).Gives known
      (bindMembers setup i (setup.loads i.order.payload) members)
      (fun bs sh => ∀ b ∈ bs, sh.cells.Reached b.cellId b.epoch) := by
  induction members generalizing known with
  | nil =>
      exact Contract.Gives.ret (fun _ _ _ b hb => by cases hb)
  | cons member members ih =>
      apply (gives_bindMember (hmembers member List.mem_cons_self) hknown).bind
      intro first
      refine (ih (fun m hm => hmembers m (List.mem_cons_of_mem _ hm))
        (fun sh hgood h => hknown sh hgood h.1)).bind (fun rest => ?_)
      apply Contract.Gives.ret
      rintro sh - ⟨⟨-, hfirst⟩, hrest⟩ b hb
      rcases List.mem_cons.mp hb with rfl | hb
      · exact hfirst
      · exact hrest b hb

end Members

section Deliveries

variable {i : Admission.DispatchIntent}

theorem authority_mem {bindings : List Binding} {b : Binding}
    (h : authority bindings = some b) : b ∈ bindings := by
  induction bindings generalizing b with
  | nil => cases h
  | cons first rest ih =>
      unfold authority at h
      cases hrest : authority rest with
      | none =>
          simp only [hrest, Option.some.injEq] at h
          rw [h]
          exact List.mem_cons_self
      | some least =>
          simp only [hrest, Option.some.injEq] at h
          split at h
          · rw [← h]
            exact List.mem_cons_of_mem _ (ih hrest)
          · rw [h]
            exact List.mem_cons_self

variable [DecidableEq V]

theorem safe_sendRun {body : WorkBody} {b : Binding}
    (hknown : ∀ sh, (contract setup guarded).good sh → known sh →
      sh.cells.Reached b.cellId b.epoch) :
    (contract setup guarded).Safe known (sendRun setup i body b) := by
  have hground : ∀ kind parts,
      Grounded setup guarded known (buildRef setup b.cellId b.epoch kind parts) :=
    fun kind parts => grounded_buildRef (fun sh hgood h _ => hknown sh hgood h)
  exact (safe_mutate (hground _ _)).bind (fun _ => safe_mutate (hground _ _))

/-- A delivery whose intent was claimed. -/
theorem safe_deliverIntent
    (hknown : ∀ sh, (contract setup guarded).good sh → known sh →
      i.Holds sh.admission.store) :
    (contract setup guarded).Safe known (dispatchIntent setup i) := by
  apply safe_dispatchIntent i (contract_permits i.workId)
    (gives_bindMembers i.members (fun _ hm => hm) hknown)
  intro bindings b hb
  exact safe_sendRun (fun sh _ h => h.2 b (authority_mem hb))

theorem safe_deliver (workId : String) :
    (contract setup guarded).Safe known (deliver setup workId) := by
  have hclaim : (contract setup guarded).Gives known
      (onAdmission (.claimDispatch workId none) : Method V _)
      (fun out sh => ∀ i, out = .intent (some i) →
        i.Holds sh.admission.store) := by
    apply gives_then (fun _ _ _ => trivial)
    intro answer
    cases answer with
    | error e => exact Contract.Gives.raise
    | ok out =>
        apply Contract.Gives.ret
        rintro sh - ⟨-, htold⟩ i rfl
        exact htold i rfl
  apply hclaim.bind_safe
  intro outcome
  split
  · rename_i intent
    exact (safe_deliverIntent (fun sh _ h => h.2 intent rfl)).bind
      (fun _ => Contract.Safe.ret)
  · exact Contract.Safe.ret

theorem safe_submit (workId : WorkId) (payload : Admission.Payload)
    (priority : Admission.Priority) :
    (contract setup guarded).Safe known
      (submit setup workId payload priority) := by
  apply safe_then
  · intro sh _ _
    exact ⟨workId.plain, rfl⟩
  intro answer
  split
  · exact Contract.Safe.raise
  · exact Contract.Safe.raise
  · rename_i decision
    split
    · exact Contract.Safe.raise
    · split
      · exact Contract.Safe.ret
      · split
        · rename_i intent hintent
          exact (safe_deliverIntent
            (fun sh _ h => h.2 decision rfl intent hintent)).bind
            (fun _ => Contract.Safe.ret)
        · exact safe_deliver workId.text
  · exact Contract.Safe.ret

end Deliveries

section Control

theorem only_readCell (cellId : String) :
    (readCell cellId : Method V _).Only Stmt.Routine := by
  apply only_then (by trivial)
  intro found
  split <;> trivial

theorem gives_readCell (cellId : String) :
    (contract setup guarded).Gives known (readCell cellId : Method V _)
      (fun cell sh => sh.cells.Reached cell.cellId cell.epoch) := by
  apply gives_then (fun _ _ _ => trivial)
  intro found
  split
  · rename_i cell
    exact Contract.Gives.ret (fun sh _ h => (h.2 cell rfl).2)
  · exact Contract.Gives.raise

theorem gives_patchOnce (r : Factory.Request) (fields : Fields) :
    (contract setup guarded).Gives known (patchOnce r fields : Method V _)
      (fun cell sh => sh.cells.Reached cell.cellId cell.epoch) := by
  apply gives_then (fun _ _ _ => trivial)
  intro patched
  split
  · rename_i updated
    exact Contract.Gives.ret (fun sh _ h => h.2 updated rfl)
  · exact gives_readCell r.cellId
  · exact Contract.Gives.raise

theorem safe_onAdmission {op : Admission.Op}
    (hop : ∀ sh, requires setup guarded (.admission op) sh) :
    (contract setup guarded).Safe known (onAdmission op : Method V _) :=
  safe_then (fun sh _ _ => hop sh) (fun _ => Contract.Safe.ofExcept)

theorem safe_completeAll (cellId : String) (epoch : Int) (state : String)
    (workIds : List String) :
    (contract setup guarded).Safe known
      (completeAll cellId epoch state workIds : Method V _) := by
  induction workIds with
  | nil => exact Contract.Safe.ret
  | cons workId workIds ih =>
      apply (safe_onAdmission (fun _ => by trivial)).bind
      intro outcome
      split
      · exact (safe_onAdmission (fun _ => by trivial)).bind (fun _ => ih)
      · exact ih

theorem safe_releaseCell (cellId : String) (epoch : Int) (state : String) :
    (contract setup guarded).Safe known
      (releaseCell cellId epoch state : Method V _) :=
  safe_then (fun _ _ _ => trivial)
    (fun workIds => safe_completeAll cellId epoch state workIds)

variable [DecidableEq V]

theorem safe_journalAirflowCancel {cell : Cell}
    (hknown : ∀ sh, (contract setup guarded).good sh → known sh →
      sh.cells.Reached cell.cellId cell.epoch) :
    (contract setup guarded).Safe known (journalAirflowCancel setup cell) := by
  unfold journalAirflowCancel
  dsimp only
  split
  · exact Contract.Safe.ret
  · apply (safe_mutate (grounded_buildRef
      (fun sh hgood h _ => hknown sh hgood h))).bind
    exact fun _ => Contract.Safe.ret

theorem safe_moveCell (r : Factory.Request) (current : Cell) :
    (contract setup guarded).Safe known (moveCell setup r current) := by
  apply Contract.Safe.ofExcept.bind
  intro _
  apply (gives_patchOnce r _).bind_safe
  intro updated
  have hrelease : ∀ {known' : Stores V → Prop}, (contract setup guarded).Safe known'
      (if r.requested.isTerminal = true then
        releaseCell r.cellId r.epoch (cellStateName r.requested)
      else pure () : Method V Unit) := by
    intro known'
    split
    · exact safe_releaseCell r.cellId r.epoch _
    · exact Contract.Safe.ret
  dsimp only
  split
  · apply (safe_journalAirflowCancel (fun sh _ h => h.2)).bind
    exact fun _ => hrelease
  · exact hrelease

omit [DecidableEq V] in
theorem safe_clean (r : Factory.Request) (cleanup : String) :
    (contract setup guarded).Safe known (clean r cleanup : Method V _) := by
  apply (gives_patchOnce r _).safe.bind
  intro updated
  split
  · exact safe_releaseCell r.cellId r.epoch _
  · exact Contract.Safe.ret

theorem safe_transition (body : Factory.Body) (cleanup : String) :
    (contract setup guarded).Safe known (transition setup body cleanup) := by
  apply Contract.Safe.ofExcept.bind
  intro r
  apply Contract.Safe.bind
  · apply (safe_routine (only_readCell r.cellId)).bind
    intro cell
    split
    · exact Contract.Safe.raise
    · exact Contract.Safe.ret
  · intro current
    split
    · exact safe_clean r cleanup
    · exact safe_moveCell r current

end Control

section Effects

theorem safe_alreadyCommitted (key : String) :
    (contract setup guarded).Safe known (alreadyCommitted key : Method V _) := by
  apply (safe_onKey_none (only_get key)).finish
  intro r
  split
  · exact Contract.Safe.ret
  · exact Contract.Safe.ret
  · exact Contract.Safe.raise

/-- The effect is recorded under a key that the journal has a row for. -/
theorem safe_cellEffectOnce {m : Mutation} (hkind : m.kind = .externalMutation)
    (hknown : ∀ sh, (contract setup guarded).good sh → known sh →
      HasRow m.operationKey sh) :
    (contract setup guarded).Safe known (cellEffectOnce m : Method V _) := by
  apply safe_then
  · intro sh hgood h
    refine ⟨?_, fun _ _ => hknown sh hgood h⟩
    rw [hkind]
    exact nofun
  · intro recorded
    split
    · exact Contract.Safe.ret
    · exact safe_then (fun _ _ _ => trivial) (fun _ => Contract.Safe.ofExcept)
    · exact Contract.Safe.raise

theorem gives_currentCell (cellId : String) (epoch : Int) :
    (contract setup guarded).Gives known (currentCell cellId epoch : Method V _)
      (fun _ sh => sh.cells.Reached cellId epoch) := by
  apply gives_then (fun _ _ _ => trivial)
  intro found
  cases found with
  | error e => exact Contract.Gives.raise
  | ok cell =>
      show (contract setup guarded).Gives _
        (if cell.epoch ≠ epoch then _ else _) _
      split
      · exact Contract.Gives.raise
      · rename_i hepoch
        apply Contract.Gives.ret
        rintro sh - ⟨-, htold⟩
        obtain ⟨hid, hreached⟩ := htold cell rfl
        rw [hid, not_ne_iff.mp hepoch] at hreached
        exact hreached

theorem safe_recordFollowup (cellId identifier text : String)
    (dismissed : Bool) :
    (contract setup guarded).Safe known
      (recordFollowup cellId identifier text dismissed : Method V _) := by
  apply (safe_routine (only_readCell cellId)).bind
  intro cell
  apply safe_then
  · intro sh _ _
    cases dismissed with
    | true => exact ⟨nofun, fun _ => nofun⟩
    | false => exact ⟨nofun, fun _ => nofun⟩
  · intro recorded
    split
    · exact Contract.Safe.ret
    · exact Contract.Safe.ret
    · exact Contract.Safe.raise

variable [DecidableEq V]

theorem safe_mutateCore (digests : CoreDigests V) (r : CoreMutationRequest)
    (reconciles : Bool) (budget : Option Journal.RetryBudget) :
    (contract setup guarded).Safe known
      (mutateCore setup digests r reconciles budget) := by
  apply safe_then (fun _ _ _ => trivial)
  intro gate
  apply Contract.Safe.ofExcept.bind
  intro observes
  apply Contract.Safe.ofExcept.bind
  intro _
  apply (gives_currentCell r.airflow.cellId r.airflow.epoch).bind_safe
  intro cell
  apply Contract.Safe.ofExcept.bind
  intro policy
  apply Contract.Safe.ofExcept.bind
  intro _
  apply (safe_alreadyCommitted (coreKey setup r)).bind
  intro replayed
  apply Contract.Safe.ofExcept.bind
  intro _
  apply Contract.Gives.bind_safe
  · apply gives_execute
    intro sh hgood h hguarded hepoch
    obtain ⟨current, hfind, hle⟩ := h.2
    refine ⟨current, hfind, ?_⟩
    have hpos : 0 < r.airflow.epoch.toNat := hepoch
    show (r.airflow.epoch.toNat : Int) ≤ current.epoch
    omega
  · intro result
    apply (safe_cellEffectOnce rfl (fun sh _ h => h.2)).bind
    intro _
    apply safe_then (fun _ _ _ => trivial)
    intro noted
    exact Contract.Safe.ofExcept.bind (fun _ => Contract.Safe.ret)

end Effects

section Sweeps

theorem safe_settleRows [DecidableEq V] (provider : String)
    (present : List String) (rows : List (String × Journal.Row V)) :
    (contract setup guarded).Safe known
      (settleRows setup provider present rows) := by
  induction rows with
  | nil => exact Contract.Safe.ret
  | cons entry rows ih =>
      obtain ⟨key, row⟩ := entry
      unfold settleRows
      split
      · exact ih
      · apply (safe_onKey_none (only_observe _)).bind
        intro outcome
        exact ih.bind (fun _ => Contract.Safe.ret)

variable [DecidableEq V]

theorem safe_observeRemoval (ref : Journal.OperationRef) :
    (contract setup guarded).Safe known (observeRemoval ref : Method V _) := by
  apply (safe_onKey_none (only_observe ref)).finish
  intro r
  split
  · exact Contract.Safe.ret
  · exact Contract.Safe.ret
  · exact Contract.Safe.raise

/-- The identity of a removal is the Cell that the sweep has found for it. -/
def Removal.Nominated (r : Removal) (cells : List Cell) : Prop :=
  ∀ cell, r.cell = some cell →
    cell ∈ cells ∧ r.identity.cellId = cell.cellId

/-- A removal that has an owner is journaled under the owner's epoch. -/
theorem safe_remove {r : Removal} {cells : List Cell} (hr : r.Nominated cells)
    (hknown : ∀ sh, (contract setup guarded).good sh → known sh →
      ∀ cell ∈ cells, sh.cells.Reached cell.cellId cell.epoch) :
    (contract setup guarded).Safe known (remove setup r) := by
  apply safe_then (fun _ _ _ => trivial)
  intro requestedAt
  apply Contract.Safe.finish
  · apply safe_mutate
    apply grounded_buildRef
    rintro sh hgood ⟨h, htold⟩ hguarded
    obtain ⟨cell, hcell, hle⟩ := htold hguarded
    obtain ⟨hmem, hid⟩ := hr cell hcell
    obtain ⟨stored, hfind, hepoch⟩ := hknown sh hgood h cell hmem
    rw [hid]
    exact ⟨stored, hfind, le_trans hle hepoch⟩
  · intro result
    split
    · exact Contract.Safe.ret
    · exact safe_observeRemoval _

variable {cells : List Cell}

theorem safe_removeNominee {r : Removal} (hr : r.Nominated cells)
    (hknown : ∀ sh, (contract setup guarded).good sh → known sh →
      ∀ cell ∈ cells, sh.cells.Reached cell.cellId cell.epoch)
    (decision : CleanupDecision) (debt : CleanupDebt) (report : Report) :
    (contract setup guarded).Safe known
      (removeNominee setup r decision debt report) := by
  unfold removeNominee
  split
  · exact Contract.Safe.ret
  · apply Contract.Safe.ofExcept.bind
    intro debt'
    apply (safe_remove hr hknown).bind
    intro receipt
    split
    · exact Contract.Safe.ofExcept.bind (fun _ => Contract.Safe.ret)
    · exact Contract.Safe.ret

theorem safe_sweepNames (owner : String) (items : List Sandbox)
    (names : List String) (debt : CleanupDebt) (report : Report)
    (hknown : ∀ sh, (contract setup guarded).good sh → known sh →
      ∀ cell ∈ cells, sh.cells.Reached cell.cellId cell.epoch) :
    (contract setup guarded).Safe known
      (sweepNames setup owner items cells names debt report) := by
  induction names generalizing debt report with
  | nil => exact Contract.Safe.ret
  | cons name names ih =>
      apply Contract.Safe.bind
      · unfold sweepSandbox
        split
        · exact Contract.Safe.raise
        · apply Contract.Safe.ofExcept.bind
          intro decision
          apply safe_removeNominee _ hknown
          intro cell hcell
          have hcell : cellForSandbox setup name cells = some cell := hcell
          refine ⟨List.mem_of_find?_eq_some hcell, ?_⟩
          show (sandboxIdentity setup _ (cellForSandbox setup name cells)
            owner).cellId = cell.cellId
          rw [hcell]
          rfl
      · exact fun _ => ih _ _

theorem safe_sweepRows (rows : List Container) (debt : CleanupDebt)
    (report : Report)
    (hknown : ∀ sh, (contract setup guarded).good sh → known sh →
      ∀ cell ∈ cells, sh.cells.Reached cell.cellId cell.epoch) :
    (contract setup guarded).Safe known
      (sweepRows setup cells rows debt report) := by
  induction rows generalizing debt report with
  | nil => exact Contract.Safe.ret
  | cons row rows ih =>
      apply Contract.Safe.bind
      · unfold sweepContainer
        split
        · exact Contract.Safe.ret
        · apply Contract.Safe.ofExcept.bind
          intro decision
          apply safe_removeNominee _ hknown
          intro cell hcell
          obtain ⟨hmem, hid⟩ := lookup_some hcell
          exact ⟨List.mem_reverse.mp hmem, hid.symm⟩
      · exact fun _ => ih _ _

theorem safe_settleAbsent (provider : String) (present : List String) :
    (contract setup guarded).Safe known
      (settleAbsent setup provider present) :=
  safe_then (fun _ _ _ => trivial)
    (fun rows => safe_settleRows provider present rows)

theorem safe_sweepIslo (ttl : Int) (owner : String) (limit : Int)
    (hknown : ∀ sh, (contract setup guarded).good sh → known sh →
      ∀ cell ∈ cells, sh.cells.Reached cell.cellId cell.epoch) :
    (contract setup guarded).Safe known
      (sweepIslo setup ttl owner cells limit) := by
  apply safe_then (fun _ _ _ => trivial)
  intro now
  apply safe_then (fun _ _ _ => trivial)
  intro answer
  apply Contract.Safe.ofExcept.bind
  intro listing
  apply (safe_sweepNames owner _ _ _ _ (fun sh hgood h =>
    hknown sh hgood h.1.1)).bind
  intro out
  exact (safe_settleAbsent "islo" _).bind (fun _ => Contract.Safe.ret)

theorem safe_sweepContainers (limit : Int)
    (hknown : ∀ sh, (contract setup guarded).good sh → known sh →
      ∀ cell ∈ cells, sh.cells.Reached cell.cellId cell.epoch) :
    (contract setup guarded).Safe known
      (sweepContainers setup cells limit) := by
  apply safe_then (fun _ _ _ => trivial)
  intro answer
  apply Contract.Safe.ofExcept.bind
  intro rows
  apply (safe_sweepRows _ _ _ (fun sh hgood h => hknown sh hgood h.1)).bind
  intro out
  exact (safe_settleAbsent "docker" _).bind (fun _ => Contract.Safe.ret)

theorem safe_sweepSandboxes (ttl : Int) (owner : String) (docker : Bool)
    (limit : Int) :
    (contract setup guarded).Safe known
      (sweepSandboxes setup ttl owner docker limit) := by
  apply safe_then (fun _ _ _ => trivial)
  intro cells
  have hcells : ∀ sh, (contract setup guarded).good sh →
      (known sh ∧ (contract setup guarded).tells (.listCells 1000) cells sh) →
      ∀ cell ∈ cells, sh.cells.Reached cell.cellId cell.epoch :=
    fun sh _ h => h.2
  have hcontainers (islo : Report)
      (k : Except BackendError Report → Method V Report)
      (hk : ∀ r, ∃ report, k r = .ret report) :
      (contract setup guarded).Safe
        (fun sh => known sh ∧
          (contract setup guarded).tells (.listCells 1000) cells sh)
        (if docker = true then (sweepContainers setup cells limit).finish k
        else pure islo : Method V Report) := by
    split
    · apply (safe_sweepContainers limit hcells).finish
      intro r
      obtain ⟨report, hreport⟩ := hk r
      rw [hreport]
      exact Contract.Safe.ret
    · exact Contract.Safe.ret
  dsimp only
  split
  · apply hcontainers
    rintro (e | containers)
    · exact ⟨_, rfl⟩
    · exact ⟨_, rfl⟩
  · apply (safe_sweepIslo ttl owner limit hcells).bind
    intro islo
    apply hcontainers
    rintro (e | containers)
    · exact ⟨_, rfl⟩
    · exact ⟨_, rfl⟩

end Sweeps

section Requests

variable [DecidableEq V]

/-- **Every request keeps to the contract.** -/
theorem safe_prog (call : Call V) :
    (contract setup guarded).Safe known (call.prog setup) := by
  cases call with
  | submit workId payload priority => exact safe_submit workId payload priority
  | deliver workId => exact safe_deliver workId
  | queueCancel workId reason =>
      exact safe_ignore (safe_queueCancel (contract_permits workId) reason)
  | drain limit => exact safe_ignore (safe_onAdmission (fun _ => trivial))
  | complete workId cellId epoch state =>
      exact safe_ignore (safe_onAdmission (fun _ => trivial))
  | transition body cleanup => exact safe_transition body cleanup
  | mutateCore digests request reconciles budget =>
      exact safe_ignore (safe_mutateCore digests request reconciles budget)
  | followup cellId identifier text dismissed =>
      exact safe_recordFollowup cellId identifier text dismissed
  | sweep ttl owner docker limit =>
      exact safe_ignore (safe_sweepSandboxes ttl owner docker limit)
  | activate identity actor =>
      exact safe_ignore (safe_perform (fun _ _ _ => trivial))
  | takeEpoch cellId expected actor =>
      exact safe_ignore (safe_perform (fun _ _ _ => trivial))
  | patch cellId expected operationKey fields =>
      exact safe_ignore (safe_perform (fun _ _ _ => trivial))

/-- **The contract of the backend.**  From stores that keep it, every run keeps
it in every state, as long as no removal is without its owner. -/
theorem contract_run {calls : Nat → Call V} {stores : Stores V}
    {moves : List (Move (Input V))}
    (hstores : (contract setup guarded).good stores)
    (hmoves : AlongRun (step setup) (Machine.Performs (ownedRemovals guarded))
      (start setup calls stores) moves) :
    EveryState (step setup)
      (fun c => (contract setup guarded).good c.shared)
      (start setup calls stores) moves := by
  apply contract_sound.run hstores _ hmoves
  intro p prog hprog
  cases hprog
  exact safe_prog (calls p)

omit [DecidableEq V] in
theorem emptyLedger (throttles : List Admission.Throttle) :
    Ledger setup (emptyStores V throttles) where
  cells := Consistent.empty
  activations := fun e he => by cases he
  keyed := List.nodup_nil
  orders := fun o ho => by cases ho

omit [DecidableEq V] in
/-- Nothing is in doubt about empty stores. -/
theorem emptyStores_good (throttles : List Admission.Throttle) :
    (contract setup guarded).good (emptyStores V throttles) := by
  refine ⟨emptyLedger throttles, fun _ => ⟨?_, ?_⟩⟩
  · exact fun entry hentry => by cases hentry
  · exact fun effect heffect => by cases heffect

end Requests

end Backend
end SwFactory
