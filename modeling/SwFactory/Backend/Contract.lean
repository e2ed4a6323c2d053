import SwFactory.Admission.Seats
import SwFactory.Backend.Calls

/-!
# The backend: the contract between the stores

No transaction spans two stores, so what joins them is a contract: what holds
of the stores at all times, what a thread must know when it takes a step, and
what the answer of a step tells it for good.  An epoch that an order has
recorded is one that the order itself activated; a row of the journal names a
Cell that has reached its epoch; an effect on a timeline has a row.

The part about the journal is under the assumption `guarded`: it holds where
the sweep removes only what a Cell owns.
-/

namespace SwFactory
namespace Backend

open Text Machine Cells Restore

variable {V : Type}

section Facts

/-- The epoch of the Cell was activated by the actor. -/
def ActivatedBy (cells : Cells.Store) (cellId : String) (epoch : Int)
    (actor : String) : Prop :=
  ∃ e ∈ cells.events, e.toMutation = activation cellId epoch actor

/-- The journal has a row under the key. -/
def HasRow (key : String) (sh : Stores V) : Prop :=
  ∃ entry ∈ sh.operations, entry.1 = key

/-- The sweep has found the Cell of what it removes, and the Cell has reached
the epoch that the removal is journaled under. -/
def Removal.Owned (r : Removal) : Prop :=
  ∃ cell, r.cell = some cell ∧ r.identity.epoch ≤ cell.epoch

/-- The actor that activates Cells for an order. -/
def orderActor (setup : Setup V) (o : Admission.Order) : String :=
  cellActor (setup.loads o.order.payload).actor o.workId

/-- An order, its payload and the Cell store fit together. -/
structure OrderFits (setup : Setup V) (cells : Cells.Store)
    (o : Admission.Order) : Prop where
  wellFormed : o.WellFormed
  plain : ':' ∉ o.workId.toList
  /-- The seat of a job is the Cell of that job. -/
  placed : ∀ m ∈ o.members, ∀ job,
    (setup.loads o.order.payload).job m.jobIdx = some job →
      setup.stableId (identityForJob setup job) = m.cellId
  /-- A recorded epoch was activated by this order. -/
  owned : ∀ m ∈ o.members, ∀ epoch, m.cellEpoch = some epoch →
    ActivatedBy cells m.cellId epoch (orderActor setup o)

/-- What holds of the Cell store and the admission store. -/
structure Ledger (setup : Setup V) (sh : Stores V) : Prop where
  cells : Consistent sh.cells
  activations : ∀ e ∈ sh.cells.events, e.kind = .activated →
    ∃ actor, e.toMutation = activation e.cellId e.epoch actor
  keyed : sh.admission.store.Keyed
  orders : ∀ o ∈ sh.admission.store.orders, OrderFits setup sh.cells o

/-- What holds of the Cell store and the journal. -/
def Joined (sh : Stores V) : Prop :=
  RowsReached sh.cells sh.operations ∧ EffectsListed sh.cells sh.operations

end Facts

section Terms

variable (setup : Setup V)
variable (guarded : Prop)

/-- What a thread must know when it performs a statement. -/
def requires (s : Stmt V) (sh : Stores V) : Prop :=
  match s with
  | .journal _ (.intent args) =>
      guarded → 0 < args.ref.epoch →
        sh.cells.Reached args.ref.cellId args.ref.epoch
  | .record m =>
      m.kind ≠ .activated ∧
        (guarded → m.kind = .externalMutation → HasRow m.operationKey sh)
  | .admission (.submit args) =>
      ':' ∉ args.workId.toList ∧
        args.members = memberSpecs setup (setup.loads args.order)
  | .admission (.recordMemberEpoch workId jobIdx epoch _) =>
      ∀ o, sh.admission.store.row workId = some o →
        ∀ m ∈ o.members, m.jobIdx = jobIdx →
          ActivatedBy sh.cells m.cellId epoch (orderActor setup o)
  | _ => True

/-- What the answer of a statement tells for good. -/
def tells : (s : Stmt V) → s.Ans → Stores V → Prop
  | .getCell cellId, a, sh => ∀ c, a = .ok c →
      c.cellId = cellId ∧ sh.cells.Reached c.cellId c.epoch
  | .listCells _, a, sh => ∀ c, c ∈ a → sh.cells.Reached c.cellId c.epoch
  | .history cellId, a, sh => ∀ e, e ∈ a →
      e.cellId = cellId ∧ e ∈ sh.cells.events
  | .activate identity actor, a, sh => ∀ c, a = .ok c →
      c.cellId = setup.stableId identity ∧ sh.cells.Reached c.cellId c.epoch ∧
        ActivatedBy sh.cells c.cellId c.epoch actor
  | .patch _ _ _ _, a, sh => ∀ c, a = .ok c →
      sh.cells.Reached c.cellId c.epoch
  | .journal key .select, a, sh => a.isSome = true → HasRow key sh
  | .admission (.claimDispatch _ _), a, sh => ∀ i, a = .ok (.intent (some i)) →
      i.Holds sh.admission.store
  | .admission (.submit _), a, sh => ∀ d, a = .ok (.decision d) →
      ∀ i, d.intent = some i → i.Holds sh.admission.store
  | .requestedAt r, _, _ => guarded → r.Owned
  | _, _, _ => True

/-- The contract of the backend. -/
def contract : Contract (Stmt V) Stmt.Ans (Stores V) where
  good sh := Ledger setup sh ∧ (guarded → Joined sh)
  pre := requires setup guarded
  tells := tells setup guarded

/-- The one condition on a run, where it is guarded: no removal without owner. -/
def ownedRemovals (_p : Nat) (s : Stmt V) (_sh : Stores V) : Prop :=
  match s with
  | .requestedAt r => guarded → r.Owned
  | _ => True

end Terms

section Rows

variable {setup : Setup V}
variable {journal : Operations V} {key : String} {row : Option (Journal.Row V)}

/-- The rows behind a statement: those before it, and the one it has written. -/
theorem mem_writeRow {entry : String × Journal.Row V}
    (h : entry ∈ writeRow key row journal) :
    entry ∈ journal ∨ ∃ r, row = some r ∧ entry = (key, r) := by
  unfold writeRow at h
  split at h
  · exact Or.inl h
  · rename_i r
    split at h
    · obtain ⟨old, hold, heq⟩ := mem_updateRows.mp h
      split at heq
      · exact Or.inr ⟨r, rfl, heq.symm⟩
      · exact Or.inl (heq ▸ hold)
    · rcases List.mem_append.mp h with hold | hnew
      · exact Or.inl hold
      · exact Or.inr ⟨r, rfl, List.mem_singleton.mp hnew⟩

/-- No statement removes a key from the journal. -/
theorem key_writeRow {k : String} (h : ∃ entry ∈ journal, entry.1 = k) :
    ∃ entry ∈ writeRow key row journal, entry.1 = k := by
  obtain ⟨entry, hmem, hkey⟩ := h
  unfold writeRow
  split
  · exact ⟨entry, hmem, hkey⟩
  · rename_i r
    split
    · by_cases hk : entry.1 = key
      · exact ⟨(key, r), mem_updateRows.mpr ⟨entry, hmem, if_pos hk⟩,
          hk.symm.trans hkey⟩
      · exact ⟨entry, mem_updateRows.mpr ⟨entry, hmem, if_neg hk⟩, hkey⟩
    · exact ⟨entry, List.mem_append_left _ hmem, hkey⟩

theorem find_mem {r : Journal.Row V} (h : journal.find key = some r) :
    (key, r) ∈ journal := by
  unfold Operations.find at h
  obtain ⟨entry, hentry, hr⟩ := Option.map_eq_some_iff.mp h
  obtain ⟨hmem, hkey⟩ := lookup_some hentry
  rw [← hkey, ← hr]
  exact hmem

/-- A row that was not there is the row of a valid intent. -/
theorem effect_of_none {s : Journal.Stmt V} {r : Journal.Row V}
    (h : s.effect none = some r) :
    ∃ args, s = .intent args ∧ 0 < args.ref.epoch ∧
      r.cellId = args.ref.cellId ∧ r.epoch = args.ref.epoch := by
  cases s with
  | intent args =>
      refine ⟨args, rfl, ?_⟩
      cases htransact : args.transact (none : Option (Journal.Row V)) with
      | error e =>
          simp [Journal.Stmt.effect, htransact] at h
      | ok r' =>
          have hr : r' = r := by simpa [Journal.Stmt.effect, htransact] using h
          subst hr
          have hkeeps := args.bindPolicy_keepsIdentity
            (args.fresh : Journal.Row V)
          have hrow := Journal.Intent.transact_ok htransact
          have hepoch : 0 < args.ref.epoch := by
            by_contra hzero
            have hvalid : ∃ e, Journal.validateRef args.ref = .error e := by
              unfold Journal.validateRef
              split
              · exact ⟨_, rfl⟩
              · rw [if_pos (by simp; omega)]
                exact ⟨_, rfl⟩
            obtain ⟨e, he⟩ := hvalid
            simp [Journal.Intent.transact, Journal.assertIdentity, he, bind,
              Except.bind] at htransact
          rw [hrow]
          exact ⟨hepoch, hkeeps.cellId, hkeeps.epoch⟩
  | markInDoubt detail owner now =>
      cases owner <;> cases h
  | _ => cases h

end Rows

end Backend
end SwFactory
