import SwFactory.Backend.Contract

/-!
# The backend: every step keeps the contract

One lemma for what a step does to each store, one for the invariant, one for
what its answer tells, and one for what it cannot destroy.
-/

namespace SwFactory
namespace Backend

open Text Machine Cells Restore

variable {V : Type}
variable {setup : Setup V}
variable {p : Nat} {s : Stmt V} {input : Input V} {sh : Stores V}

section Steps

/-- A step leaves the journal alone, or is a step on one row of it. -/
theorem exec_operations (setup : Setup V) (p : Nat) (s : Stmt V)
    (input : Input V) (sh : Stores V) :
    (exec setup p s input sh).2.operations = sh.operations ∨
      ∃ key js, s = .journal key js ∧
        (exec setup p s input sh).2.cells = sh.cells ∧
        (exec setup p s input sh).2.operations =
          writeRow key (js.effect (sh.operations.find key)) sh.operations := by
  cases s with
  | journal key js => exact Or.inr ⟨key, js, rfl, rfl, rfl⟩
  | _ => exact Or.inl rfl

/-- The call of the admission store that a statement makes. -/
def Stmt.op : Stmt V → Option Admission.Op
  | .admission op => some op
  | .close workId reason state _ => some (.cancel workId reason state)
  | _ => none

theorem callAdmission_cases (setup : Setup V) (p : Nat) (op : Admission.Op)
    (input : Input V) (c : Admission.Configuration) :
    (∃ e, callAdmission setup p op input c = (.error e, c)) ∨
      ∃ out c', Admission.exec setup.hashes setup.limits (setup.host p)
          input.clock c op = .ok (out, c') ∧
        callAdmission setup p op input c = (.ok out, c') := by
  unfold callAdmission admitted
  cases h : Admission.exec setup.hashes setup.limits (setup.host p) input.clock
    c op with
  | error e => exact Or.inl ⟨e, rfl⟩
  | ok out => exact Or.inr ⟨out.1, out.2, rfl, rfl⟩

/-- A step leaves the admission store alone, or is a call of it that returns. -/
theorem exec_admission (setup : Setup V) (p : Nat) (s : Stmt V)
    (input : Input V) (sh : Stores V) :
    (exec setup p s input sh).2.admission = sh.admission ∨
      ∃ op out, s.op = some op ∧
        (exec setup p s input sh).2.cells = sh.cells ∧
        Admission.exec setup.hashes setup.limits (setup.host p) input.clock
            sh.admission op =
          .ok (out, (exec setup p s input sh).2.admission) := by
  cases s with
  | admission op =>
      rcases callAdmission_cases setup p op input sh.admission with
        ⟨e, heq⟩ | ⟨out, c', hexec, heq⟩
      · exact Or.inl (by rw [exec, heq])
      · refine Or.inr ⟨op, out, rfl, rfl, ?_⟩
        rw [exec, heq]
        exact hexec
  | close workId reason state closing =>
      rcases callAdmission_cases setup p
        (.cancel workId reason state) input sh.admission with
        ⟨e, heq⟩ | ⟨out, c', hexec, heq⟩
      · exact Or.inl (by rw [exec, heq])
      · refine Or.inr ⟨_, out, rfl, rfl, ?_⟩
        rw [exec, heq]
        exact hexec
  | _ => exact Or.inl rfl

/-- A row of the journal stays. -/
theorem exec_hasRow {key : String} (h : HasRow key sh) :
    HasRow key (exec setup p s input sh).2 := by
  rcases exec_operations setup p s input sh with
    heq | ⟨key', js, -, -, heq⟩
  · rw [HasRow, heq]
    exact h
  · rw [HasRow, heq]
    exact key_writeRow h

theorem exec_activatedBy {cellId actor : String} {epoch : Int}
    (hs : Consistent sh.cells) (h : ActivatedBy sh.cells cellId epoch actor) :
    ActivatedBy (exec setup p s input sh).2.cells cellId epoch actor := by
  obtain ⟨e, he, heq⟩ := h
  exact ⟨e, exec_event hs he, heq⟩

/-- What an attempt has claimed stays in the store. -/
theorem exec_intent {i : Admission.DispatchIntent}
    (hs : sh.admission.store.Keyed) (h : i.Holds sh.admission.store) :
    i.Holds (exec setup p s input sh).2.admission.store := by
  rcases exec_admission setup p s input sh with
    heq | ⟨op, out, -, -, hexec⟩
  · rw [heq]
    exact h
  · exact Admission.exec_holds hs hexec h

end Steps

section Orders

variable {cells cells' : Cells.Store} {o o' : Admission.Order}

/-- More events do an order no harm. -/
theorem OrderFits.grow (h : OrderFits setup cells o)
    (hevents : ∀ e ∈ cells.events, e ∈ cells'.events) :
    OrderFits setup cells' o where
  wellFormed := h.wellFormed
  plain := h.plain
  placed := h.placed
  owned := by
    intro m hm epoch hepoch
    obtain ⟨e, he, heq⟩ := h.owned m hm epoch hepoch
    exact ⟨e, hevents e he, heq⟩

/-- A seat of the new order is one of the old order. -/
theorem mem_seat {ms ms' : List Admission.Member}
    (h : ms'.map Admission.Member.seat = ms.map Admission.Member.seat)
    {m' : Admission.Member} (hm' : m' ∈ ms') :
    ∃ m ∈ ms, m.jobIdx = m'.jobIdx ∧ m.cellId = m'.cellId := by
  have hseat : m'.seat ∈ ms.map Admission.Member.seat :=
    h ▸ List.mem_map_of_mem hm'
  obtain ⟨m, hm, heq⟩ := List.mem_map.mp hseat
  exact ⟨m, hm, congrArg Prod.fst heq, congrArg Prod.snd heq⟩

/-- A call keeps an order in its place. -/
theorem OrderFits.seated {op : Admission.Op} (h : OrderFits setup cells o)
    (hseated : Admission.Seated op o o') (hwell : o'.WellFormed)
    (hepoch : ∀ jobIdx epoch token,
      op = .recordMemberEpoch o.workId jobIdx epoch token →
      ∀ m ∈ o.members, m.jobIdx = jobIdx →
        ActivatedBy cells m.cellId epoch (orderActor setup o)) :
    OrderFits setup cells o' where
  wellFormed := hwell
  plain := hseated.workId ▸ h.plain
  placed := by
    intro m' hm' job hjob
    obtain ⟨m, hm, hidx, hcell⟩ := mem_seat hseated.seats hm'
    rw [hseated.order, ← hidx] at hjob
    rw [← hcell]
    exact h.placed m hm job hjob
  owned := by
    intro m' hm' epoch hrecorded
    have hactor : orderActor setup o' = orderActor setup o := by
      unfold orderActor
      rw [hseated.order, hseated.workId]
    rw [hactor]
    rcases hseated.recorded m' hm' epoch hrecorded with
      ⟨m, hm, hseat, hold⟩ | ⟨token, hop⟩
    · have hcell : m.cellId = m'.cellId := congrArg Prod.snd hseat
      rw [← hcell]
      exact h.owned m hm epoch hold
    · obtain ⟨m, hm, hidx, hcell⟩ := mem_seat hseated.seats hm'
      rw [← hcell]
      exact hepoch _ _ _ hop m hm hidx

/-- The job under an index is the one job with this index. -/
theorem job_eq {body : WorkBody} {job : Job}
    (hnodup : (body.jobs.map Job.jobIdx).Nodup) (hjob : job ∈ body.jobs) :
    body.job job.jobIdx = some job := by
  have hkeyed : Machine.Keyed Job.jobIdx body.jobs.reverse := by
    rw [Machine.Keyed, List.map_reverse]
    exact List.nodup_reverse.mpr hnodup
  exact hkeyed.lookup_eq (List.mem_reverse.mpr hjob)

/-- An order that a submission has inserted fits. -/
theorem orderFits_inserted {args : Admission.Submission}
    (hinserted : args.Inserted o) (hwell : o.WellFormed)
    (hvalid : Admission.validateSubmission args = .ok ())
    (hplain : ':' ∉ args.workId.toList)
    (hmembers : args.members = memberSpecs setup (setup.loads args.order)) :
    OrderFits setup cells o where
  wellFormed := hwell
  plain := hinserted.workId ▸ hplain
  placed := by
    intro m hm job hjob
    rw [hinserted.payload] at hjob
    rw [hinserted.members] at hm
    obtain ⟨spec, hspec, rfl⟩ := List.mem_map.mp hm
    have hspec' : spec ∈ args.members :=
      (List.perm_insertionSort _ args.members).mem_iff.mp hspec
    rw [hmembers, memberSpecs] at hspec'
    obtain ⟨job', hjob', rfl⟩ := List.mem_map.mp hspec'
    -- the indices of the jobs are those of the members, which are distinct
    have hnodup : ((setup.loads args.order).jobs.map Job.jobIdx).Nodup := by
      have hjobs := (Admission.validateSubmission_ok hvalid).2.1
      rw [hmembers, memberSpecs, List.map_map] at hjobs
      exact hjobs
    rw [job_eq hnodup hjob'] at hjob
    cases hjob
    rfl
  owned := by
    intro m hm epoch hepoch
    rw [hinserted.members] at hm
    obtain ⟨spec, -, rfl⟩ := List.mem_map.mp hm
    cases hepoch

end Orders

section Keeps

variable {guarded : Prop}

/-- The events of activation have their form. -/
theorem exec_activations (hs : Ledger setup sh)
    (hpre : requires setup guarded s sh) :
    ∀ e ∈ (exec setup p s input sh).2.cells.events, e.kind = .activated →
      ∃ actor, e.toMutation = activation e.cellId e.epoch actor := by
  intro e he hkind
  rcases exec_cells p s input sh hs.cells with heq | ⟨m, hwrites, hgrows⟩
  · rw [heq] at he
    exact hs.activations e he hkind
  · rcases hgrows.mem_events he with hold | rfl
    · exact hs.activations e hold hkind
    · cases s with
      | activate identity actor =>
          obtain ⟨epoch, hm⟩ := hwrites
          have hcell : e.cellId = setup.stableId identity :=
            congrArg Mutation.cellId hm
          have hepoch : e.epoch = epoch := congrArg Mutation.epoch hm
          exact ⟨actor, by rw [hcell, hepoch, hm]⟩
      | takeEpoch cellId expected actor =>
          have hm : e.kind = .epochAdvanced := congrArg Mutation.kind hwrites
          rw [hm] at hkind
          cases hkind
      | patch cellId expected operationKey fields =>
          have hm : e.kind = .patch := congrArg Mutation.kind hwrites
          rw [hm] at hkind
          cases hkind
      | record m =>
          have hm : e.kind = m.kind := congrArg Mutation.kind hwrites
          exact absurd (hm.symm.trans hkind) hpre.1
      | _ => exact hwrites.elim

/-- The orders behind a step fit. -/
theorem exec_orders (hs : Ledger setup sh)
    (hpre : requires setup guarded s sh) :
    (exec setup p s input sh).2.admission.store.Keyed ∧
      ∀ o ∈ (exec setup p s input sh).2.admission.store.orders,
        OrderFits setup (exec setup p s input sh).2.cells o := by
  rcases exec_admission setup p s input sh with
    heq | ⟨op, out, hop, hcells, hexec⟩
  · rw [heq]
    exact ⟨hs.keyed, fun o ho => (hs.orders o ho).grow
      (fun e he => exec_event hs.cells he)⟩
  · have hruns : Admission.Transitions (fun _ _ => True) setup.hashes
        setup.limits sh.admission.store
        (exec setup p s input sh).2.admission.store :=
      (Admission.exec_effect hs.keyed hexec).transitions hs.keyed
        (fun _ _ _ _ _ _ _ _ _ => trivial)
    have hwell := Admission.Transitions.wellFormed hruns hs.keyed
      (fun o ho => (hs.orders o ho).wellFormed)
    refine ⟨Admission.Transitions.keyed hruns hs.keyed, fun o' ho' => ?_⟩
    rw [hcells]
    rcases Admission.exec_seated hs.keyed hexec o' ho' with
      ⟨o, ho, hseated⟩ | ⟨args, rfl, hvalid, -, hinserted⟩
    · refine (hs.orders o ho).seated hseated (hwell o' ho') ?_
      rintro jobIdx epoch token rfl m hm hidx
      cases s with
      | admission op =>
          cases hop
          exact hpre o (Machine.Keyed.lookup_eq hs.keyed ho) m hm hidx
      | _ => cases hop
    · cases s with
      | admission op =>
          cases hop
          exact orderFits_inserted hinserted (hwell o' ho') hvalid hpre.1 hpre.2
      | _ => cases hop

theorem exec_ledger (hs : Ledger setup sh)
    (hpre : requires setup guarded s sh) :
    Ledger setup (exec setup p s input sh).2 where
  cells := exec_consistent p s input sh hs.cells
  activations := exec_activations hs hpre
  keyed := (exec_orders hs hpre).1
  orders := (exec_orders hs hpre).2

/-- The rows of the journal stay behind their Cells. -/
theorem exec_rowsReached (hguarded : guarded) (hs : Ledger setup sh)
    (hrows : RowsReached sh.cells sh.operations)
    (hpre : requires setup guarded s sh) :
    RowsReached (exec setup p s input sh).2.cells
      (exec setup p s input sh).2.operations := by
  intro entry hentry
  rcases exec_operations setup p s input sh with
    heq | ⟨key, js, rfl, hcells, heq⟩
  · rw [heq] at hentry
    exact exec_reached hs.cells (hrows entry hentry)
  · rw [heq] at hentry
    rw [hcells]
    rcases mem_writeRow hentry with hold | ⟨row, hrow, rfl⟩
    · exact hrows entry hold
    · cases hfind : sh.operations.find key with
      | some stored =>
          -- the row that was there names the same Cell and epoch
          obtain ⟨row', hrow', hkeeps⟩ := Journal.effect_keepsIdentity js stored
          rw [hfind, hrow'] at hrow
          cases hrow
          rw [hkeeps.cellId, hkeeps.epoch]
          exact hrows _ (find_mem hfind)
      | none =>
          rw [hfind] at hrow
          obtain ⟨args, rfl, hepoch, hcell, hrowEpoch⟩ := effect_of_none hrow
          rw [hcell, hrowEpoch]
          exact hpre hguarded hepoch

/-- Every effect on a timeline keeps its row. -/
theorem exec_effectsListed (hguarded : guarded) (hs : Ledger setup sh)
    (heffects : EffectsListed sh.cells sh.operations)
    (hpre : requires setup guarded s sh) :
    EffectsListed (exec setup p s input sh).2.cells
      (exec setup p s input sh).2.operations := by
  intro e he
  obtain ⟨hmem, hkind⟩ := List.mem_filter.mp he
  have hkind : e.kind = .externalMutation := of_decide_eq_true hkind
  have hold : e ∈ sh.cells.events →
      HasRow e.operationKey (exec setup p s input sh).2 := by
    intro hevent
    apply exec_hasRow
    exact heffects e (List.mem_filter.mpr ⟨hevent, decide_eq_true hkind⟩)
  rcases exec_cells p s input sh hs.cells with heq | ⟨m, hwrites, hgrows⟩
  · rw [heq] at hmem
    exact hold hmem
  · rcases hgrows.mem_events hmem with hevent | rfl
    · exact hold hevent
    · cases s with
      | activate identity actor =>
          obtain ⟨epoch, hm⟩ := hwrites
          have hm : e.kind = .activated := congrArg Mutation.kind hm
          rw [hm] at hkind
          cases hkind
      | takeEpoch cellId expected actor =>
          have hm : e.kind = .epochAdvanced := congrArg Mutation.kind hwrites
          rw [hm] at hkind
          cases hkind
      | patch cellId expected operationKey fields =>
          have hm : e.kind = .patch := congrArg Mutation.kind hwrites
          rw [hm] at hkind
          cases hkind
      | record m =>
          have hm : e.toMutation = m := hwrites
          subst hm
          exact exec_hasRow (hpre.2 hguarded hkind)
      | _ => exact hwrites.elim

theorem exec_good (hs : (contract setup guarded).good sh)
    (hpre : requires setup guarded s sh) :
    (contract setup guarded).good (exec setup p s input sh).2 :=
  ⟨exec_ledger hs.1 hpre, fun hguarded =>
    ⟨exec_rowsReached hguarded hs.1 (hs.2 hguarded).1 hpre,
      exec_effectsListed hguarded hs.1 (hs.2 hguarded).2 hpre⟩⟩

end Keeps

section Told

variable {guarded : Prop}

/-- A Cell that a read finds has reached the epoch it stands at. -/
theorem get_told {cellId : String} {c : Cell} (h : get cellId sh.cells = .ok c) :
    c.cellId = cellId ∧ sh.cells.Reached c.cellId c.epoch := by
  unfold Cells.get at h
  cases hfind : sh.cells.find cellId with
  | none =>
      rw [hfind] at h
      cases h
  | some found =>
      rw [hfind] at h
      cases h
      have hid := (Store.find_some hfind).2
      exact ⟨hid, c, by rw [hid]; exact hfind, le_rfl⟩

/-- Every answer tells what the contract says. -/
theorem exec_told (hs : (contract setup guarded).good sh)
    (hcond : ownedRemovals guarded p s sh) :
    tells setup guarded s (exec setup p s input sh).1
      (exec setup p s input sh).2 := by
  have hcells := hs.1.cells
  cases s with
  | getCell cellId =>
      intro c hc
      exact get_told hc
  | listCells limit =>
      intro c hc
      have hmem : c ∈ sh.cells.cells :=
        List.mem_mergeSort.mp (List.mem_of_mem_take hc)
      exact ⟨c, hcells.keyed.lookup_eq hmem, le_rfl⟩
  | history cellId =>
      intro e he
      obtain ⟨hmem, hid⟩ := List.mem_filter.mp he
      exact ⟨of_decide_eq_true hid, hmem⟩
  | activate identity actor =>
      intro c hc
      rcases writeCells_cases input sh (activate setup.stableId identity actor
        input.now input.eventAt sh.cells) with
        ⟨e, heq⟩ | ⟨row, cells', hok, heq⟩
      · rw [exec, heq] at hc
        cases hc
      · rw [exec, heq] at hc ⊢
        cases hc
        obtain ⟨hgrows, hfind⟩ := activate_grows hcells hok
        have hid := (Store.find_some hfind).2
        rw [hid]
        exact ⟨rfl, ⟨c, hfind, le_rfl⟩, hgrows.event_added⟩
  | patch cellId expected operationKey fields =>
      intro c hc
      rcases writeCells_cases input sh (patch cellId expected operationKey fields
        input.now input.eventAt sh.cells) with
        ⟨e, heq⟩ | ⟨row, cells', hok, heq⟩
      · rw [exec, heq] at hc
        cases hc
      · rw [exec, heq] at hc ⊢
        cases hc
        obtain ⟨-, hfind⟩ := patch_grows hcells hok
        have hid := (Store.find_some hfind).2
        rw [hid]
        exact ⟨c, hfind, le_rfl⟩
  | journal key js =>
      cases js with
      | select =>
          intro hsome
          obtain ⟨row, hrow⟩ := Option.isSome_iff_exists.mp hsome
          have hstored : HasRow key sh := ⟨_, find_mem hrow, rfl⟩
          exact exec_hasRow hstored
      | _ => trivial
  | admission op =>
      cases op with
      | claimDispatch workId lease =>
          intro i hi
          rcases callAdmission_cases setup p (.claimDispatch workId lease) input
            sh.admission with ⟨e, heq⟩ | ⟨out, c', hexec, heq⟩
          · rw [exec, heq] at hi
            cases hi
          · rw [exec, heq] at hi ⊢
            cases hi
            exact Admission.exec_claim_holds hexec
      | submit args =>
          intro d hd i hi
          rcases callAdmission_cases setup p (.submit args) input
            sh.admission with ⟨e, heq⟩ | ⟨out, c', hexec, heq⟩
          · rw [exec, heq] at hd
            cases hd
          · rw [exec, heq] at hd ⊢
            cases hd
            exact Admission.exec_submit_holds hi hexec
      | _ => trivial
  | requestedAt r => exact hcond
  | _ => trivial

end Told

section Lasting

variable {guarded : Prop}
variable {cond : Nat → Stmt V → Stores V → Prop}

theorem stable_reached (cellId : String) (epoch : Int) :
    (contract setup guarded).Stable (system setup) cond
      (fun sh => sh.cells.Reached cellId epoch) where
  exec := fun _ _ _ _ hgood _ _ h => exec_reached hgood.1.cells h
  crash := fun _ _ _ h => h

theorem stable_event (e : Event) :
    (contract setup guarded).Stable (system setup) cond
      (fun sh => e ∈ sh.cells.events) where
  exec := fun _ _ _ _ hgood _ _ h => exec_event hgood.1.cells h
  crash := fun _ _ _ h => h

theorem stable_activatedBy (cellId actor : String) (epoch : Int) :
    (contract setup guarded).Stable (system setup) cond
      (fun sh => ActivatedBy sh.cells cellId epoch actor) where
  exec := fun _ _ _ _ hgood _ _ h => exec_activatedBy hgood.1.cells h
  crash := fun _ _ _ h => h

theorem stable_hasRow (key : String) :
    (contract setup guarded).Stable (system setup) cond (HasRow key) where
  exec := fun _ _ _ _ _ _ _ h => exec_hasRow h
  crash := fun _ _ _ h => h

theorem stable_intent (i : Admission.DispatchIntent) :
    (contract setup guarded).Stable (system setup) cond
      (fun sh => i.Holds sh.admission.store) where
  exec := fun _ _ _ _ hgood _ _ h => exec_intent hgood.1.keyed h
  crash := fun _ _ _ h => h

/-- What an answer has told stays true. -/
theorem stable_tells (s : Stmt V) (a : s.Ans) :
    (contract setup guarded).Stable (system setup) cond
      (tells setup guarded s a) := by
  cases s with
  | getCell cellId =>
      exact .all (fun c => .imp (fun _ => (Contract.Stable.const _).and
        (stable_reached c.cellId c.epoch)))
  | listCells limit =>
      exact .all (fun c => .imp (fun _ => stable_reached c.cellId c.epoch))
  | history cellId =>
      exact .all (fun e => .imp (fun _ => (Contract.Stable.const _).and
        (stable_event e)))
  | activate identity actor =>
      exact .all (fun c => .imp (fun _ => (Contract.Stable.const _).and
        ((stable_reached c.cellId c.epoch).and
          (stable_activatedBy c.cellId actor c.epoch))))
  | patch cellId expected operationKey fields =>
      exact .all (fun c => .imp (fun _ => stable_reached c.cellId c.epoch))
  | journal key js =>
      cases js with
      | select => exact .imp (fun _ => stable_hasRow key)
      | _ => exact .const True
  | admission op =>
      cases op with
      | claimDispatch workId lease =>
          exact .all (fun i => .imp (fun _ => stable_intent i))
      | submit args =>
          exact .all (fun d => .imp (fun _ => .all (fun i => .imp (fun _ =>
            stable_intent i))))
      | _ => exact .const True
  | requestedAt r => exact .const _
  | _ => exact .const True

/-- A stop leaves the rows of all stores alone. -/
theorem stop_good {sh : Stores V} {p : Nat}
    (hs : (contract setup guarded).good sh) :
    (contract setup guarded).good (stop setup p sh) :=
  ⟨⟨hs.1.cells, hs.1.activations, hs.1.keyed, hs.1.orders⟩, hs.2⟩

/-- **The stores keep the contract**, where removals have owners. -/
theorem contract_sound :
    (contract setup guarded).Sound (system setup) (ownedRemovals guarded) where
  keeps := fun _ _ _ _ hgood hpre _ => exec_good hgood hpre
  crash := fun _ _ hgood => stop_good hgood
  told := fun _ _ _ _ hgood _ hcond => exec_told hgood hcond
  revealed := fun _ _ _ _ _ _ _ => trivial
  stable := stable_tells

end Lasting

end Backend
end SwFactory
