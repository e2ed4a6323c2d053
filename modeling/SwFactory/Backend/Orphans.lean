import SwFactory.Backend.Requests

/-!
# The backend: activations that nobody ends

A delivery activates a Cell in one store and records the epoch in another one.
The operator who cancels the order, and the attempt that compensates, close the
Cells whose epochs they find recorded and then the order; a Cell between its
activation and its record stays live, bound to no run, and belongs to an order
that is over.

The second contract says what a thread must know to close an order: every
recorded epoch of the members it has read is over.  With it, no such Cell is
left where nothing is activated behind the back of the thread that closes.
-/

namespace SwFactory
namespace Backend

open Text Machine Cells Restore

variable {V : Type}

section Facts

/-- The Cell is live and carries no Airflow run. -/
def Unbound (c : Cell) : Prop :=
  c.state.isLive = true ∧ c.airflowRunId = none

instance (c : Cell) : Decidable (Unbound c) :=
  inferInstanceAs (Decidable (_ ∧ _))

/-- The order was named as the actor of an activation. -/
def NamedBy (cells : Cells.Store) (workId cellId : String) (epoch : Int) : Prop :=
  ∃ actor, ActivatedBy cells cellId epoch (cellActor actor workId)

/-- A live Cell without a run, at an epoch that the order has activated. -/
def Orphan (cells : Cells.Store) (workId : String) (c : Cell) : Prop :=
  cells.find c.cellId = some c ∧ Unbound c ∧
    NamedBy cells workId c.cellId c.epoch

/-- The Cell is neither live without a run nor about to be activated. -/
def Idle (c : Cell) : Prop :=
  ¬ Unbound c ∧ c.isFresh = false

/-- The Cell has left the epoch, or is idle in it. -/
def Over (cells : Cells.Store) (cellId : String) (epoch : Int) : Prop :=
  ∃ c, cells.find cellId = some c ∧ epoch ≤ c.epoch ∧ (c.epoch = epoch → Idle c)

end Facts

section Terms

variable (workId : String)

/-- What a thread must know so that no Cell of the order is left behind. -/
def closingRequires (s : Stmt V) (sh : Stores V) : Prop :=
  match s with
  | .takeEpoch _ _ _ | .record _ => False
  | .patch cellId epoch _ fields =>
      Tame fields ∧ (Closing fields → NamedBy sh.cells workId cellId epoch)
  | .admission (.cancel _ _ _) | .admission (.complete _ _ _ _) => False
  | .close workId' _ _ closing =>
      workId' = workId → ∀ m ∈ closing, ∀ epoch, m.cellEpoch = some epoch →
        Over sh.cells m.cellId epoch
  | _ => True

/-- What answers tell for good. -/
def closingTells : (s : Stmt V) → s.Ans → Stores V → Prop
  | .work workId', a, sh => workId' = workId → ∀ o, a = some o →
      ∀ m ∈ o.members, ∀ epoch, m.cellEpoch = some epoch →
        NamedBy sh.cells workId m.cellId epoch
  | .getCell cellId, a, sh => ∀ c, a = .ok c →
      ∀ epoch, epoch ≤ c.epoch → (c.epoch = epoch → Idle c) →
        Over sh.cells cellId epoch
  | .patch cellId epoch _ fields, a, sh => Closing fields →
      (∀ e, a = .error e → e.isRefusal = true) → Over sh.cells cellId epoch
  | .admission (.claimDispatch workId' _), a, _ =>
      ∀ i, a = .ok (.intent (some i)) → i.workId = workId'
  | .admission (.submit args), a, _ =>
      ∀ d, a = .ok (.decision d) → ∀ i, d.intent = some i → i.workId = args.workId
  | _, _, _ => True

/-- What the read of a Cell says about its moment. -/
def closingReveals : (s : Stmt V) → s.Ans → Stores V → Prop
  | .getCell cellId, a, sh =>
      (∀ c, a = .ok c → sh.cells.find cellId = some c) ∧
        (∀ e, a = .error e → sh.cells.find cellId = none)
  | _, _, _ => True

/-- The contract of the closing. -/
def closing (setup : Setup V) : Contract (Stmt V) Stmt.Ans (Stores V) where
  good sh :=
    Ledger setup sh ∧
      (∀ c, sh.cells.find c.cellId = some c →
        NamedBy sh.cells workId c.cellId c.epoch → c.isFresh = false) ∧
      (sh.admission.store.Closed workId → ∀ c, ¬ Orphan sh.cells workId c)
  pre := closingRequires workId
  tells := closingTells workId
  reveals := closingReveals

/--
The condition on a run.  Where the order is closed, every Cell of it that is
live without a run is recorded on the members that were read; no Cell is
activated for it once it is closed; and a Cell that is closed under a key that
its timeline has already is not live without a run.
-/
def noLateActivation (_p : Nat) (s : Stmt V) (sh : Stores V) : Prop :=
  match s with
  | .close workId' _ _ closing => workId' = workId →
      ∀ c, Orphan sh.cells workId c →
        ∃ m ∈ closing, m.cellId = c.cellId ∧ m.cellEpoch = some c.epoch
  | .activate _ actor => (∃ user, actor = cellActor user workId) →
      ¬ sh.admission.store.Closed workId
  | .patch cellId epoch key fields => Closing fields →
      sh.cells.HasKey cellId key →
        ∀ c, sh.cells.find cellId = some c → c.epoch = epoch → ¬ Unbound c
  | _ => True

end Terms

section Cells

variable {workId : String} {c : Cell}

/-- The state and the run of a Cell behind a patch that revives nothing. -/
theorem tame_assign {fields : Fields} {now : Time} (h : Tame fields)
    (hrun : (fields.assign now c).airflowRunId = none) :
    c.airflowRunId = none ∧
      ((fields.assign now c).state = c.state ∨
        (fields.assign now c).state.isTerminal = true) := by
  obtain ⟨hkeeps, hgiven | hstate⟩ := h
  · obtain ⟨run, hgiven⟩ := hgiven
    simp [Fields.assign, hgiven] at hrun
  · constructor
    · cases hrunId : fields.airflowRunId with
      | none => simpa [Fields.assign, hrunId] using hrun
      | some run =>
          cases run with
          | none => exact absurd hrunId hkeeps
          | some run => simp [Fields.assign, hrunId] at hrun
    · cases hstateOf : fields.state with
      | none =>
          left
          simp [Fields.assign, hstateOf]
      | some state =>
          right
          simpa [Fields.assign, hstateOf] using hstate state hstateOf

theorem unbound_of_patched {fields : Fields} {now : Time} (hfields : Tame fields)
    (h : Unbound (c.patched fields now)) : Unbound c := by
  unfold Cell.patched at h
  split at h
  · exact h
  · obtain ⟨hlive, hrun⟩ := h
    obtain ⟨hrun₀, hsame | hterminal⟩ := tame_assign hfields hrun
    · rw [hsame] at hlive
      exact ⟨hlive, hrun₀⟩
    · cases hstate : (fields.assign now c).state <;>
        simp_all [CellState.isLive, CellState.isTerminal]

theorem fresh_of_patched {fields : Fields} {now : Time} (hfields : Tame fields)
    (h : (c.patched fields now).isFresh = true) : c.isFresh = true := by
  unfold Cell.patched at h
  split at h
  · exact h
  · obtain ⟨hcreated, hrun⟩ := of_decide_eq_true h
    obtain ⟨hrun₀, hsame | hterminal⟩ := tame_assign hfields hrun
    · exact decide_eq_true ⟨hsame ▸ hcreated, hrun₀⟩
    · rw [hcreated] at hterminal
      cases hterminal

/-- A patch that revives nothing keeps a Cell idle. -/
theorem idle_patched {fields : Fields} {now : Time} (hfields : Tame fields)
    (h : Idle c) : Idle (c.patched fields now) := by
  refine ⟨fun hunbound => h.1 (unbound_of_patched hfields hunbound), ?_⟩
  cases hfresh : (c.patched fields now).isFresh with
  | false => rfl
  | true => exact absurd (fresh_of_patched hfields hfresh) (by simp [h.2])

/-- The events that name the order, behind a write of another kind. -/
theorem namedBy_of_grows {m : Mutation} {cells cells' : Cells.Store}
    (h : Grows m cells cells') {cellId : String} {epoch : Int}
    (hnamed : NamedBy cells' workId cellId epoch)
    (hm : ∀ user, m ≠ activation cellId epoch (cellActor user workId)) :
    NamedBy cells workId cellId epoch := by
  obtain ⟨user, e, he, hform⟩ := hnamed
  rcases h.mem_events he with hold | hnew
  · exact ⟨user, e, hold, hform⟩
  · exact absurd (hnew.symm.trans hform) (hm user)

end Cells

section Steps

variable {setup : Setup V} {workId : String}
variable {p : Nat} {s : Stmt V} {input : Input V} {sh : Stores V}

/-- The writes of the Cell store that the contract allows. -/
theorem exec_allowed (hpre : closingRequires workId s sh) :
    (exec setup p s input sh).2.cells = sh.cells ∨
      (∃ identity actor row, s = .activate identity actor ∧
        activate setup.stableId identity actor input.now input.eventAt sh.cells =
          .ok (row, (exec setup p s input sh).2.cells)) ∨
      (∃ cellId epoch key fields updated, s = .patch cellId epoch key fields ∧
        Tame fields ∧
        patch cellId epoch key fields input.now input.eventAt sh.cells =
          .ok (updated, (exec setup p s input sh).2.cells)) := by
  cases s with
  | activate identity actor =>
      rcases writeCells_cases input sh (activate setup.stableId identity actor
        input.now input.eventAt sh.cells) with
        ⟨e, heq⟩ | ⟨row, cells', hok, heq⟩
      · exact Or.inl (by rw [exec, heq])
      · refine Or.inr (Or.inl ⟨identity, actor, row, rfl, ?_⟩)
        rw [exec, heq]
        exact hok
  | patch cellId epoch key fields =>
      rcases writeCells_cases input sh (patch cellId epoch key fields
        input.now input.eventAt sh.cells) with
        ⟨e, heq⟩ | ⟨updated, cells', hok, heq⟩
      · exact Or.inl (by rw [exec, heq])
      · refine Or.inr (Or.inr ⟨cellId, epoch, key, fields, updated, rfl,
          hpre.1, ?_⟩)
        rw [exec, heq]
        exact hok
  | takeEpoch cellId expected actor => exact hpre.elim
  | record m => exact hpre.elim
  | _ => exact Or.inl rfl

/-- What is over stays over. -/
theorem exec_over (hs : Consistent sh.cells)
    (hpre : closingRequires workId s sh) {cellId : String} {epoch : Int}
    (h : Over sh.cells cellId epoch) :
    Over (exec setup p s input sh).2.cells cellId epoch := by
  obtain ⟨c, hfind, hle, hidle⟩ := h
  rcases exec_allowed hpre with
    heq | ⟨identity, actor, row, -, hok⟩ |
      ⟨target, expected, key, fields, updated, -, htame, hok⟩
  · rw [heq]
    exact ⟨c, hfind, hle, hidle⟩
  · obtain ⟨c₀, hopen, hrow, hrewrites⟩ := activate_ok hs.keyed hok
    have hinserted : (sh.cells.insertIdentity setup.stableId identity
        input.now).find cellId = some c :=
      Store.find_insertIdentity identity input.now hfind
    by_cases hid : cellId = setup.stableId identity
    · subst hid
      cases hrewrites.found.symm.trans hinserted
      have hepoch : row.epoch = c.nextEpoch := by
        rw [hrow]
        rfl
      refine ⟨row, hrewrites.written, ?_, ?_⟩
      · rcases nextEpoch_cases hopen with hsame | ⟨hnext, -⟩ <;> omega
      · -- an idle Cell is not fresh, so its activation opens a new epoch
        intro hrowEpoch
        exfalso
        rw [hepoch] at hrowEpoch
        unfold Cell.nextEpoch at hrowEpoch
        split at hrowEpoch
        · rename_i hfresh
          rw [(hidle hrowEpoch).2] at hfresh
          cases hfresh
        · omega
    · exact ⟨c, (hrewrites.other cellId hid).trans hinserted, hle, hidle⟩
  · obtain ⟨c₀, hepoch, hupdated, hrewrites⟩ := patch_ok hs.keyed hok
    by_cases hid : cellId = target
    · subst hid
      cases hrewrites.found.symm.trans hfind
      refine ⟨updated, hrewrites.written, ?_, ?_⟩
      · rw [hupdated, patched_epoch]
        exact hle
      · intro hsame
        rw [hupdated, patched_epoch] at hsame
        rw [hupdated]
        exact idle_patched htame (hidle hsame)
    · exact ⟨c, (hrewrites.other cellId hid).trans hfind, hle, hidle⟩

theorem exec_namedBy (hs : Consistent sh.cells) {cellId : String} {epoch : Int}
    (h : NamedBy sh.cells workId cellId epoch) :
    NamedBy (exec setup p s input sh).2.cells workId cellId epoch := by
  obtain ⟨user, hactivated⟩ := h
  exact ⟨user, exec_activatedBy hs hactivated⟩

/-- A Cell of the order behind a step that is not an activation for it. -/
theorem exec_named_back (hs : Ledger setup sh)
    (hpre : closingRequires workId s sh) {c : Cell}
    (hfind : (exec setup p s input sh).2.cells.find c.cellId = some c)
    (hnamed : NamedBy (exec setup p s input sh).2.cells workId c.cellId c.epoch) :
    (∃ identity actor, s = .activate identity actor ∧
        c.state = .dispatching ∧ ∃ user, actor = cellActor user workId) ∨
      ∃ c₀, sh.cells.find c.cellId = some c₀ ∧
        NamedBy sh.cells workId c.cellId c₀.epoch ∧
        (Unbound c → Unbound c₀) ∧
        (c.isFresh = true → c₀.isFresh = true) := by
  rcases exec_allowed hpre with
    heq | ⟨identity, actor, row, hs', hok⟩ |
      ⟨target, expected, key, fields, updated, -, htame, hok⟩
  · rw [heq] at hfind hnamed
    exact Or.inr ⟨c, hfind, hnamed, id, id⟩
  · obtain ⟨c₀, hopen, hrow, hrewrites⟩ := activate_ok hs.cells.keyed hok
    obtain ⟨hgrows, hwritten⟩ := activate_grows hs.cells hok
    by_cases hid : c.cellId = setup.stableId identity
    · left
      rw [hid] at hfind hnamed
      cases hwritten.symm.trans hfind
      refine ⟨identity, actor, hs', ?_, ?_⟩
      · rw [hrow]
        rfl
      · -- the epoch is activated once, so the event is the one just written
        obtain ⟨user, hactivated⟩ := hnamed
        refine ⟨user, ?_⟩
        have hconsistent := hgrows.consistent
        obtain ⟨e, he, hform⟩ := hgrows.event_added
        obtain ⟨e', he', hform'⟩ := hactivated
        have hsame : e = e' := by
          apply hconsistent.timeline.distinct e he e' he'
          · rw [hform, hform']
            rfl
          · rw [hform, hform']
            rfl
        rw [hsame, hform'] at hform
        have hpayload := congrArg Mutation.payload hform
        cases hpayload
        rfl
    · right
      have hfind₁ := (hrewrites.other c.cellId hid).symm.trans hfind
      have hfind₀ : sh.cells.find c.cellId = some c := by
        rcases Store.find_insertIdentity_cases identity input.now hfind₁ with
          hold | ⟨-, hnew, -⟩
        · exact hold
        · exact absurd hnew hid
      refine ⟨c, hfind₀, ?_, id, id⟩
      apply namedBy_of_grows hgrows hnamed
      intro user heq
      exact hid (congrArg Mutation.cellId heq).symm
  · right
    obtain ⟨c₀, hepoch, hupdated, hrewrites⟩ := patch_ok hs.cells.keyed hok
    obtain ⟨hgrows, hwritten⟩ := patch_grows hs.cells hok
    have hnamed₀ : NamedBy sh.cells workId c.cellId c.epoch := by
      apply namedBy_of_grows hgrows hnamed
      intro user heq
      cases congrArg Mutation.kind heq
    by_cases hid : c.cellId = target
    · rw [hid] at hfind
      cases hwritten.symm.trans hfind
      have hsame : c₀.epoch = c.epoch := by
        rw [hupdated, patched_epoch]
      refine ⟨c₀, ?_, ?_, ?_, ?_⟩
      · rw [hid]
        exact hrewrites.found
      · rw [hsame]
        exact hnamed₀
      · rw [hupdated]
        exact unbound_of_patched htame
      · rw [hupdated]
        exact fresh_of_patched htame
    · have hfind₀ := (hrewrites.other c.cellId hid).symm.trans hfind
      exact ⟨c, hfind₀, hnamed₀, id, id⟩

end Steps

section Keeps

variable {setup : Setup V} {workId : String}
variable {p : Nat} {s : Stmt V} {input : Input V} {sh : Stores V}

/-- A step closes the order, or it was closed before. -/
theorem exec_closed_back (hs : Ledger setup sh)
    (hpre : closingRequires workId s sh)
    (h : (exec setup p s input sh).2.admission.store.Closed workId) :
    sh.admission.store.Closed workId ∨
      ∃ reason state members, s = .close workId reason state members ∧
        (exec setup p s input sh).2.cells = sh.cells := by
  rcases exec_admission setup p s input sh with
    heq | ⟨op, out, hop, hcells, hexec⟩
  · rw [heq] at h
    exact Or.inl h
  · cases s with
    | admission op' =>
        cases hop
        left
        apply Admission.exec_closed hs.keyed hexec _ h
        cases op with
        | cancel => exact hpre.elim
        | complete => exact hpre.elim
        | _ => exact id
    | close target reason state members =>
        cases hop
        by_cases htarget : target = workId
        · subst htarget
          exact Or.inr ⟨reason, state, members, rfl, hcells⟩
        · exact Or.inl (Admission.exec_closed hs.keyed hexec htarget h)
    | _ => cases hop

theorem exec_closing_good (hs : (closing workId setup).good sh)
    (hledger : Ledger setup (exec setup p s input sh).2)
    (hpre : closingRequires workId s sh)
    (hcond : noLateActivation workId p s sh) :
    (closing workId setup).good (exec setup p s input sh).2 := by
  obtain ⟨hs, hfresh, horphans⟩ := hs
  refine ⟨hledger, ?_, ?_⟩
  · intro c hfind hnamed
    rcases exec_named_back hs hpre hfind hnamed with
      ⟨identity, actor, -, hstate, -⟩ | ⟨c₀, hfind₀, hnamed₀, -, hback⟩
    · simp [Cell.isFresh, hstate]
    · have hid := (Store.find_some hfind₀).2
      have hfresh₀ := hfresh c₀ (by rw [hid]; exact hfind₀)
        (by rw [hid]; exact hnamed₀)
      cases hisFresh : c.isFresh with
      | false => rfl
      | true =>
          rw [hback hisFresh] at hfresh₀
          cases hfresh₀
  · rintro hclosed c ⟨hfind, hunbound, hnamed⟩
    rcases exec_closed_back hs hpre hclosed with
      hclosed₀ | ⟨reason, state, members, rfl, hcells⟩
    · rcases exec_named_back hs hpre hfind hnamed with
        ⟨identity, actor, rfl, -, huser⟩ | ⟨c₀, hfind₀, hnamed₀, hback, -⟩
      · exact hcond huser hclosed₀
      · have hid := (Store.find_some hfind₀).2
        apply horphans hclosed₀ c₀
        exact ⟨by rw [hid]; exact hfind₀, hback hunbound,
          by rw [hid]; exact hnamed₀⟩
    · -- every such Cell is recorded, and what is recorded is over
      rw [hcells] at hfind hnamed
      obtain ⟨m, hm, hcell, hepoch⟩ :=
        hcond rfl c ⟨hfind, hunbound, hnamed⟩
      obtain ⟨c', hfind', -, hidle⟩ := hpre rfl m hm c.epoch hepoch
      rw [hcell] at hfind'
      cases hfind'.symm.trans hfind
      exact (hidle rfl).1 hunbound

/-- An epoch that names the order has been reached. -/
theorem NamedBy.reached (hs : Consistent sh.cells) {cellId : String}
    {epoch : Int} (h : NamedBy sh.cells workId cellId epoch) :
    ∃ c, sh.cells.find cellId = some c ∧ epoch ≤ c.epoch := by
  obtain ⟨user, e, he, hform⟩ := h
  have hreached := hs.reached e he
  rw [congrArg Mutation.cellId hform, congrArg Mutation.epoch hform] at hreached
  exact hreached

/-- Behind a closing patch that was made or refused, the epoch is over. -/
theorem over_of_patch (hs : (closing workId setup).good sh)
    {cellId key : String} {epoch : Int} {fields : Fields}
    (hpre : closingRequires workId (.patch cellId epoch key fields : Stmt V) sh)
    (hcond : noLateActivation workId p (.patch cellId epoch key fields) sh) :
    closingTells workId (.patch cellId epoch key fields)
      (exec setup p (.patch cellId epoch key fields) input sh).1
      (exec setup p (.patch cellId epoch key fields) input sh).2 := by
  obtain ⟨hs, hfresh, -⟩ := hs
  intro hclosing hanswer
  have hnamed := hpre.2 hclosing
  rcases writeCells_cases input sh (patch cellId epoch key fields
    input.now input.eventAt sh.cells) with
    ⟨e, heq⟩ | ⟨updated, cells', hok, heq⟩
  · have hanswer := hanswer e (by rw [exec, heq])
    have herror := writeCells_refused (congrArg Prod.fst heq) hanswer
    obtain ⟨c, hfind, hcase⟩ := patch_refused hs.cells.keyed herror hanswer
    obtain ⟨c', hfind', hle⟩ := hnamed.reached hs.cells
    cases hfind'.symm.trans hfind
    rw [exec, heq]
    refine ⟨c, hfind, hle, fun hepoch => ?_⟩
    have hid := (Store.find_some hfind).2
    refine ⟨?_, hfresh c (by rw [hid]; exact hfind) ?_⟩
    · rcases hcase with hne | hkey
      · exact absurd hepoch hne
      · exact hcond hclosing hkey c hfind hepoch
    · rw [hid, hepoch]
      exact hnamed
  · obtain ⟨c, hepoch, hupdated, hrewrites⟩ := patch_ok hs.cells.keyed hok
    rw [exec, heq]
    have hassign : updated.state = .cancelled := by
      rw [hupdated, Cell.patched, if_neg]
      · simp [Fields.assign, Closing.eq_1 fields ▸ hclosing]
      · rintro rfl
        cases hclosing
    refine ⟨updated, hrewrites.written, ?_, fun _ => ⟨?_, ?_⟩⟩
    · rw [hupdated, patched_epoch]
      exact le_of_eq hepoch.symm
    · rintro ⟨hlive, -⟩
      rw [hassign] at hlive
      cases hlive
    · simp [Cell.isFresh, hassign]

theorem exec_closing_told (hs : (closing workId setup).good sh)
    (hpre : closingRequires workId s sh)
    (hcond : noLateActivation workId p s sh) :
    closingTells workId s (exec setup p s input sh).1
      (exec setup p s input sh).2 := by
  cases s with
  | work target =>
      rintro rfl o ho m hm epoch hepoch
      obtain ⟨hmem, hwork⟩ := Admission.Store.row_some ho
      have howned := (hs.1.orders o hmem).owned m hm epoch hepoch
      rw [orderActor, hwork] at howned
      exact ⟨_, howned⟩
  | getCell cellId =>
      intro c hc epoch hle hidle
      exact ⟨c, get_ok.mp hc, hle, hidle⟩
  | patch cellId epoch key fields => exact over_of_patch hs hpre hcond
  | admission op =>
      cases op with
      | claimDispatch target lease =>
          intro i hi
          rcases callAdmission_cases setup p (.claimDispatch target lease) input
            sh.admission with ⟨e, heq⟩ | ⟨out, c', hexec, heq⟩
          · rw [exec, heq] at hi
            cases hi
          · rw [exec, heq] at hi
            cases hi
            exact Admission.exec_claim_workId hexec
      | submit args =>
          intro d hd i hi
          rcases callAdmission_cases setup p (.submit args) input
            sh.admission with ⟨e, heq⟩ | ⟨out, c', hexec, heq⟩
          · rw [exec, heq] at hd
            cases hd
          · rw [exec, heq] at hd
            cases hd
            exact Admission.exec_submit_workId hi hexec
      | _ => trivial
  | _ => trivial

theorem exec_closing_reveals :
    closingReveals s (exec setup p s input sh).1 sh := by
  cases s with
  | getCell cellId =>
      constructor
      · intro c hc
        exact get_ok.mp hc
      · intro e he
        have hget : get cellId sh.cells = .error e := he
        unfold Cells.get at hget
        split at hget
        · assumption
        · cases hget
  | _ => trivial

end Keeps

section Sound

variable {setup : Setup V} {workId : String}

/-- Both contracts: what the stores agree on, and what the closing needs. -/
abbrev closingContract (workId : String) (setup : Setup V) :
    Contract (Stmt V) Stmt.Ans (Stores V) :=
  (contract setup False).both (closing workId setup)

theorem stable_namedBy (cellId : String) (epoch : Int) :
    (closingContract workId setup).Stable (system setup)
      (noLateActivation workId) (fun sh => NamedBy sh.cells workId cellId epoch) where
  exec := fun _ _ _ _ hgood _ _ h => exec_namedBy hgood.1.1.cells h
  crash := fun _ _ _ h => h

theorem stable_over (cellId : String) (epoch : Int) :
    (closingContract workId setup).Stable (system setup)
      (noLateActivation workId) (fun sh => Over sh.cells cellId epoch) where
  exec := fun _ _ _ _ hgood hpre _ h => exec_over hgood.1.1.cells hpre.2 h
  crash := fun _ _ _ h => h

theorem stable_closingTells (s : Stmt V) (a : s.Ans) :
    (closingContract workId setup).Stable (system setup)
      (noLateActivation workId) (closingTells workId s a) := by
  cases s with
  | work target =>
      exact .imp (fun _ => .all (fun o => .imp (fun _ => .all (fun m =>
        .imp (fun _ => .all (fun epoch => .imp (fun _ =>
          stable_namedBy m.cellId epoch)))))))
  | getCell cellId =>
      exact .all (fun c => .imp (fun _ => .all (fun epoch => .imp (fun _ =>
        .imp (fun _ => stable_over cellId epoch)))))
  | patch cellId epoch key fields =>
      exact .imp (fun _ => .imp (fun _ => stable_over cellId epoch))
  | admission op =>
      cases op with
      | claimDispatch target lease => exact .const _
      | submit args => exact .const _
      | _ => exact .const True
  | _ => exact .const True

/-- What the first contract tells stays true under the second condition too. -/
theorem stable_tells_closing (s : Stmt V) (a : s.Ans) :
    (closingContract workId setup).Stable (system setup)
      (noLateActivation workId) (tells setup False s a) := by
  have hstable : (contract setup False).Stable (system setup)
      (fun _ _ _ => True) (tells setup False s a) := stable_tells s a
  constructor
  · intro sh p s' i hgood hpre _ h
    exact hstable.exec sh p s' i hgood.1 hpre.1 trivial h
  · intro sh p hgood h
    exact hstable.crash sh p hgood.1 h

theorem ownedRemovals_false (p : Nat) (s : Stmt V) (sh : Stores V) :
    ownedRemovals False p s sh := by
  cases s with
  | requestedAt r => exact False.elim
  | _ => trivial

/-- **The stores keep both contracts**, where nothing is activated late. -/
theorem closing_sound :
    (closingContract workId setup).Sound (system setup)
      (noLateActivation workId) where
  keeps := by
    intro sh p s i hgood hpre hcond
    have hfirst : (contract setup False).good (exec setup p s i sh).2 :=
      exec_good hgood.1 hpre.1
    exact ⟨hfirst, exec_closing_good hgood.2 hfirst.1 hpre.2 hcond⟩
  crash := fun sh p hgood => ⟨stop_good hgood.1, stop_good hgood.1 |>.1,
    hgood.2.2.1, hgood.2.2.2⟩
  told := fun sh p s i hgood hpre hcond =>
    ⟨exec_told hgood.1 (ownedRemovals_false p s sh),
      exec_closing_told hgood.2 hpre.2 hcond⟩
  revealed := fun _ _ _ _ _ _ _ => ⟨trivial, exec_closing_reveals⟩
  stable := fun s a => (stable_tells_closing s a).and (stable_closingTells s a)

end Sound

section Programs

variable {setup : Setup V} {workId : String} {known : Stores V → Prop}

/-- The statements that the closing asks nothing for. -/
def Stmt.Delivers : Stmt V → Prop
  | .activate _ _ | .journal _ _ => True
  | .admission (.submit _) => True
  | .admission (.recordMemberEpoch _ _ _ _) => True
  | s => s.Routine

theorem Stmt.Routine.delivers {s : Stmt V} (h : s.Routine) : s.Delivers := by
  cases s with
  | admission op => cases op <;> trivial
  | _ => trivial

theorem requires_delivers {s : Stmt V} (h : s.Delivers) (sh : Stores V) :
    closingRequires workId s sh := by
  cases s with
  | patch cellId epoch key fields =>
      exact ⟨h.1, fun hclosing => absurd hclosing h.2⟩
  | takeEpoch => exact h.elim
  | record => exact h.elim
  | close => exact h.elim
  | admission op =>
      cases op with
      | cancel => exact h.elim
      | complete => exact h.elim
      | _ => trivial
  | _ => trivial

theorem safe_delivers {α : Type} {p : Method V α} (hp : p.Only Stmt.Delivers) :
    (closing workId setup).Safe known p :=
  Contract.Safe.of_only (fun _ hs sh _ => requires_delivers hs sh) hp

theorem safe_routine_closing {α : Type} {p : Method V α}
    (hp : p.Only Stmt.Routine) : (closing workId setup).Safe known p :=
  safe_delivers (hp.mono (fun _ hs => hs.delivers))

/-- A turn of `_cancel_activations` that returns has left the epoch over. -/
theorem gives_cancelMember (tag : String) (member : Admission.Member)
    (hknown : ∀ sh, (closing workId setup).good sh → known sh →
      ∀ epoch, member.cellEpoch = some epoch →
        NamedBy sh.cells workId member.cellId epoch) :
    (closing workId setup).Gives known (cancelMember tag member : Method V _)
      (fun _ sh => ∀ epoch, member.cellEpoch = some epoch →
        Over sh.cells member.cellId epoch) := by
  unfold cancelMember
  split
  · rename_i hnone
    apply Contract.Gives.ret
    intro sh _ _ epoch hepoch
    rw [hnone] at hepoch
    cases hepoch
  · rename_i epoch hepoch
    apply Contract.Gives.step_said (fun _ _ _ => trivial)
    rintro found ⟨sh₀, hgood₀, hknown₀, hread, hmissing⟩
    -- the epoch has been activated, so the Cell stands at it or behind it
    have hnamed₀ := hknown sh₀ hgood₀ hknown₀ epoch hepoch
    obtain ⟨c₀, hfind₀, hle⟩ := hnamed₀.reached hgood₀.1.cells
    cases found with
    | error e =>
        cases (hmissing e rfl).symm.trans hfind₀
    | ok cell =>
        obtain rfl : cell = c₀ :=
          Option.some.inj ((hread cell rfl).symm.trans hfind₀)
        have hid := (Store.find_some hfind₀).2
        have hreturns : (cell.epoch = epoch → ¬ Unbound cell) →
            ∀ a : Bool, (closing workId setup).Gives
              (fun sh => known sh ∧ (closing workId setup).tells
                (.getCell member.cellId) (.ok cell) sh)
              (.ret a : Method V Bool)
              (fun _ sh => ∀ epoch, member.cellEpoch = some epoch →
                Over sh.cells member.cellId epoch) := by
          intro hunbound a
          apply Contract.Gives.ret
          rintro sh - ⟨-, htold⟩ epoch' hepoch'
          cases hepoch.symm.trans hepoch'
          refine htold cell rfl epoch hle (fun hsame => ⟨hunbound hsame, ?_⟩)
          apply hgood₀.2.1 cell
          · rw [hid]
            exact hfind₀
          · rw [hid, hsame]
            exact hnamed₀
        show (closing workId setup).Gives _ (if _ then _ else _) _
        split
        · rename_i hleft
          apply hreturns
          rintro hsame ⟨hlive, -⟩
          rcases hleft with hne | hdead
          · exact hne hsame
          · rw [hlive] at hdead
            cases hdead
        · split
          · rename_i hset
            apply hreturns
            rintro - ⟨-, hnone⟩
            rw [hnone] at hset
            cases hset
          · apply gives_then
            · intro sh hgood h
              refine ⟨⟨nofun, Or.inr ?_⟩, fun _ => hknown sh hgood h.1 epoch hepoch⟩
              rintro state ⟨⟩
              rfl
            · intro patched
              have hdone : (∀ e, patched = .error e → e.isRefusal = true) →
                  ∀ a : Bool, (closing workId setup).Gives
                    (fun sh => (known sh ∧ (closing workId setup).tells
                        (.getCell member.cellId) (.ok cell) sh) ∧
                      (closing workId setup).tells
                        (.patch member.cellId epoch
                          (tag ++ ":" ++ toString member.jobIdx)
                          { state := some .cancelled }) patched sh)
                    (.ret a : Method V Bool)
                    (fun _ sh => ∀ epoch, member.cellEpoch = some epoch →
                      Over sh.cells member.cellId epoch) := by
                intro hrefused a
                apply Contract.Gives.ret
                rintro sh - ⟨-, htold⟩ epoch' hepoch'
                cases hepoch.symm.trans hepoch'
                exact htold rfl hrefused
              split
              · exact hdone (by rintro e ⟨⟩) true
              · exact hdone (by rintro e ⟨⟩; rfl) false
              · exact hdone (by rintro e ⟨⟩; rfl) false
              · exact Contract.Gives.raise

theorem gives_cancelMembers (tag : String) (members : List Admission.Member)
    (hknown : ∀ sh, (closing workId setup).good sh → known sh →
      ∀ m ∈ members, ∀ epoch, m.cellEpoch = some epoch →
        NamedBy sh.cells workId m.cellId epoch) :
    (closing workId setup).Gives known (cancelMembers tag members : Method V _)
      (fun _ sh => ∀ m ∈ members, ∀ epoch, m.cellEpoch = some epoch →
        Over sh.cells m.cellId epoch) := by
  induction members generalizing known with
  | nil =>
      exact Contract.Gives.ret (fun _ _ _ m hm => by cases hm)
  | cons member members ih =>
      apply (gives_cancelMember tag member (fun sh hgood h =>
        hknown sh hgood h member List.mem_cons_self)).bind
      intro closed
      apply (ih (fun sh hgood h m hm =>
        hknown sh hgood h.1 m (List.mem_cons_of_mem _ hm))).bind
      intro rest
      apply Contract.Gives.ret
      rintro sh - ⟨⟨-, hfirst⟩, hrest⟩ m hm
      rcases List.mem_cons.mp hm with rfl | hm
      · exact hfirst
      · exact hrest m hm

/-- **The closing.**  What is recorded is over where the order is closed. -/
theorem safe_closeOrder (tag reason state : String) :
    (closing workId setup).Safe known
      (closeOrder workId tag reason state : Method V _) := by
  have hmembers : (closing workId setup).Gives known
      (readMembers workId : Method V _)
      (fun members sh => ∀ m ∈ members, ∀ epoch, m.cellEpoch = some epoch →
        NamedBy sh.cells workId m.cellId epoch) := by
    apply gives_then (fun _ _ _ => trivial)
    intro row
    apply Contract.Gives.ret
    rintro sh - ⟨-, htold⟩ m hm
    cases row with
    | none => cases hm
    | some o => exact htold rfl o rfl m hm
  apply hmembers.bind_safe
  intro members
  apply (gives_cancelMembers tag members (fun sh _ h => h.2)).bind_safe
  intro closed
  apply Contract.Safe.bind
  · apply safe_then
    · intro sh _ h _
      exact h.2
    · intro answer
      apply Contract.Safe.ofExcept.bind
      intro outcome
      split
      · exact (safe_routine_closing (only_onAdmission (by trivial))).bind
          (fun _ => Contract.Safe.ret)
      · exact Contract.Safe.ret
  · exact fun _ => Contract.Safe.ret

theorem closing_permits : Permits (closing workId setup) workId where
  routine := fun _ hs sh _ => requires_delivers hs.delivers sh
  closes := fun _ tag reason state => safe_closeOrder tag reason state

theorem only_onKey {α : Type} (key : String) (p : Journal.Method V α) :
    (onKey key p).Only Stmt.Delivers := by
  induction p with
  | ret a => trivial
  | raise e => trivial
  | step s k ih => exact ⟨trivial, ih⟩

theorem delivers_then {α : Type} {s : Stmt V} {f : s.Ans → Method V α}
    (hs : s.Delivers) (hf : ∀ a, (f a).Only Stmt.Delivers) :
    (perform s >>= f).Only Stmt.Delivers :=
  ⟨hs, hf⟩

theorem only_recordEpoch (i : Admission.DispatchIntent)
    (member : Admission.Member) (cell : Cell) :
    (recordEpoch i member cell : Method V _).Only Stmt.Delivers := by
  apply Prog.Only.bind
  · exact delivers_then trivial (fun _ => Prog.Only.ofExcept)
  · exact fun _ => trivial

theorem only_activateMember (i : Admission.DispatchIntent)
    (member : Admission.Member) (job : Job) (owner : String) :
    (activateMember setup i member job owner).Only Stmt.Delivers := by
  apply delivers_then (by trivial)
  intro activated
  split
  · exact only_recordEpoch i member _
  · trivial
  · trivial

theorem only_memberCell (i : Admission.DispatchIntent)
    (member : Admission.Member) (job : Job) (actor : String) :
    (memberCell setup i member job actor).Only Stmt.Delivers := by
  apply delivers_then (by trivial)
  intro found
  split
  · split
    · trivial
    · split
      · trivial
      · exact only_activateMember i member job _
  · split
    · apply Prog.Only.bind
      · exact delivers_then trivial (fun _ => trivial)
      · intro own
        split
        · exact only_recordEpoch i member _
        · exact only_activateMember i member job _
    · exact only_activateMember i member job _
  · exact only_activateMember i member job _

theorem only_bindMembers (i : Admission.DispatchIntent) (body : WorkBody)
    (members : List Admission.Member) :
    (bindMembers setup i body members).Only Stmt.Delivers := by
  induction members with
  | nil => trivial
  | cons member members ih =>
      apply Prog.Only.bind
      · unfold bindMember
        split
        · trivial
        · apply (only_memberCell i member _ body.actor).bind
          intro cell
          apply ((only_bindCellPolicy cell _ _ _).mono
            (fun _ hs => hs.delivers)).bind
          exact fun _ => trivial
      · intro first
        exact ih.bind (fun _ => trivial)

variable [DecidableEq V]

theorem only_mutate (ref : Journal.OperationRef) (replaySafe reconciles : Bool)
    (budget : Option Journal.RetryBudget) :
    (mutate ref replaySafe reconciles budget : Method V _).Only
      Stmt.Delivers := by
  apply delivers_then (by trivial)
  intro gate
  exact Prog.Only.ofExcept.bind (fun _ => only_onKey _ _)

theorem safe_dispatch_closing (i : Admission.DispatchIntent)
    (hi : i.workId = workId) :
    (closing workId setup).Safe known (dispatchIntent setup i) := by
  subst hi
  have hmembers : (closing i.workId setup).Gives known
      (bindMembers setup i (setup.loads i.order.payload) i.members)
      (fun _ _ => True) :=
    (safe_delivers (only_bindMembers i _ i.members)).gives
      (fun _ _ _ _ => trivial)
  apply safe_dispatchIntent i closing_permits hmembers
  intro bindings b _
  apply safe_delivers
  exact (only_mutate _ _ _ _).bind (fun _ => only_mutate _ _ _ _)

/-- The knowledge that an intent belongs to the order. -/
theorem safe_dispatch_known (i : Admission.DispatchIntent)
    (hknown : ∀ sh, known sh → i.workId = workId) :
    (closing workId setup).Safe known (dispatchIntent setup i) := by
  by_cases hi : i.workId = workId
  · exact safe_dispatch_closing i hi
  · exact Contract.Safe.absurd (fun sh _ h => hi (hknown sh h))

theorem safe_deliver_closing :
    (closing workId setup).Safe known (deliver setup workId) := by
  have hclaim : (closing workId setup).Gives known
      (onAdmission (.claimDispatch workId none) : Method V _)
      (fun out _ => ∀ i, out = .intent (some i) → i.workId = workId) := by
    apply gives_then (fun _ _ _ => trivial)
    intro answer
    cases answer with
    | error e => exact Contract.Gives.raise
    | ok out =>
        apply Contract.Gives.ret
        rintro sh - ⟨-, htold⟩ i rfl
        exact htold i rfl
  apply hclaim.bind_safe
  intro outcome
  split
  · rename_i intent
    exact (safe_dispatch_known intent (fun sh h => h.2 intent rfl)).bind
      (fun _ => Contract.Safe.ret)
  · exact Contract.Safe.ret

theorem safe_submit_closing (id : WorkId) (payload : Admission.Payload)
    (priority : Admission.Priority) :
    (closing id.text setup).Safe known (submit setup id payload priority) := by
  apply safe_then (fun _ _ _ => trivial)
  intro answer
  split
  · exact Contract.Safe.raise
  · exact Contract.Safe.raise
  · rename_i decision
    split
    · exact Contract.Safe.raise
    · split
      · exact Contract.Safe.ret
      · split
        · rename_i intent hintent
          exact (safe_dispatch_known intent
            (fun sh h => h.2 decision rfl intent hintent)).bind
            (fun _ => Contract.Safe.ret)
        · exact safe_deliver_closing
  · exact Contract.Safe.ret

end Programs

section Runs

variable [DecidableEq V] {setup : Setup V}

/-- The requests that deliver one order or cancel it. -/
def Call.About (workId : String) : Call V → Prop
  | .submit id _ _ => id.text = workId
  | .deliver target => target = workId
  | .queueCancel target _ => target = workId
  | _ => False

/-- The request has returned or raised. -/
def ended : Proc (Stmt V) Stmt.Ans BackendError Unit → Bool
  | .running (.ret _) => true
  | .running (.raise _) => true
  | _ => false

/-- Once the order is over, and so are all requests that have begun, none of its
Cells is live without a run. -/
def NoOrphans (workId : String) (first c : Configuration V) : Prop :=
  c.shared.admission.store.Closed workId →
    (∀ p, c.procs p = first.procs p ∨ ended (c.procs p) = true) →
      ∀ cell, ¬ Orphan c.shared.cells workId cell

theorem safe_about {workId : String} {call : Call V} (h : call.About workId)
    (known : Stores V → Prop) :
    (closing workId setup).Safe known (call.prog setup) := by
  cases call with
  | submit id payload priority =>
      obtain rfl : id.text = workId := h
      exact safe_submit_closing id payload priority
  | deliver target =>
      obtain rfl : target = workId := h
      exact safe_deliver_closing
  | queueCancel target reason =>
      obtain rfl : target = workId := h
      exact safe_ignore (safe_queueCancel closing_permits reason)
  | _ => exact h.elim

end Runs

section Sample

def orderId : WorkId where
  text := "submit_5d41402abc4b2a76b9719d911017c592"
  plain := by decide +kernel

/-- One job of one repository, submitted by an operator. -/
def orderSetup : Setup Unit where
  stableId _ := "cell_a2f5b05ec91e69b23278f028"
  hashes := ⟨fun _ => "sha256:a9d5f6d002d956b8", fun _ => "multi:",
    fun _ _ _ => "71d91a987d933021ecfb378e14fac426"⟩
  limits := {}
  host _ := 0
  loads _ :=
    { line := "default"
      actor := "operator"
      jobs := [⟨0, "org/app", "7", ".", "main", "policy:v1:0"⟩]
      dagRunId := "swf__5d41402abc4b2a76b9719d911017c592"
      requestDigest := "sha256:a9d5f6d002d956b8" }
  dumps _ := ""
  runIdOf _ := none
  digest _ := ""
  runIdFor _ _ := ""
  cellTarget _ := ".@main"
  str _ := ""
  lower := id
  parseInt _ := none
  evidenceOf _ := ("", "")

/-- The first thread submits the order, all others cancel it. -/
def submitAndCancel : Nat → Call Unit
  | 0 => .submit orderId ⟨1, "payload"⟩ .normal
  | _ => .queueCancel orderId.text "operator"

theorem submitAndCancel_about (p : Nat) :
    (submitAndCancel p).About orderId.text := by
  cases p <;> rfl

def orderStart : Configuration Unit :=
  start orderSetup submitAndCancel (emptyStores Unit [])

/-- The order is cancelled in front of its activation. -/
def cancelFirst : List (Move (Input Unit)) :=
  [.run 0 {}, .run 1 {}, .run 1 {}, .run 1 {}]

/-- The move activates a Cell. -/
def activates (c : Configuration Unit) : Move (Input Unit) → Bool
  | .run p _ =>
      match c.procs p with
      | .running (.step (.activate _ _) _) => true
      | _ => false
  | .crash _ => false

/-- Nothing is late where there is no Cell and none is activated. -/
theorem noLateActivation_of_empty {c : Configuration Unit}
    {m : Move (Input Unit)} (hcells : c.shared.cells.cells = [])
    (hm : activates c m = false) :
    Machine.Performs (noLateActivation orderId.text) c m := by
  have hfind : ∀ cellId cell, c.shared.cells.find cellId ≠ some cell := by
    intro cellId cell hfind
    have hmem := (Store.find_some hfind).1
    rw [hcells] at hmem
    cases hmem
  rintro p i s k rfl hs
  cases s with
  | close target reason state members =>
      intro _ cell horphan
      exact absurd horphan.1 (hfind _ _)
  | activate identity actor =>
      simp [activates, hs] at hm
  | patch cellId epoch key fields =>
      intro _ _ cell hcell
      exact absurd hcell (hfind _ _)
  | _ => trivial

/-- The order is cancelled between the activation and its record. -/
def cancelBetween : List (Move (Input Unit)) :=
  List.replicate 3 (.run 0 {}) ++ List.replicate 4 (.run 1 {}) ++
    List.replicate 4 (.run 0 {})

def strandedState : Configuration Unit :=
  runFrom (step orderSetup) orderStart cancelBetween

theorem stranded_cell :
    (strandedState.shared.cells.find "cell_a2f5b05ec91e69b23278f028").map
        (fun c => (c.cellId, c.epoch, c.state, c.airflowRunId)) =
      some ("cell_a2f5b05ec91e69b23278f028", 1, .dispatching, none) := by
  decide +kernel

theorem stranded_event :
    strandedState.shared.cells.events.any (fun e =>
      decide (e.toMutation = activation "cell_a2f5b05ec91e69b23278f028" 1
        (cellActor "operator" orderId.text))) = true := by
  decide +kernel

theorem stranded_order :
    strandedState.shared.admission.store.orders.any (fun o =>
      decide (o.workId = orderId.text ∧ o.state = .closed .cancelled)) = true := by
  decide +kernel

theorem stranded_ended :
    ended (strandedState.procs 0) = true ∧
      ended (strandedState.procs 1) = true := by
  decide +kernel

end Sample

end Backend
end SwFactory
