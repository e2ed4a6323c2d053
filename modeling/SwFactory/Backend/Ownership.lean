import SwFactory.Backend.Requests

/-!
# The backend: one owner for every Cell epoch

A Cell epoch is produced by the Cell store and recorded by the admission store.
The record names the order that the activation names, a Cell epoch is activated
once, and no two orders share an id; so a recorded epoch has one owner, whatever
crashed, retried, adopted or competed on the way.

Source: `durable_admission.py` (`work_order_for_cell`).
-/

namespace SwFactory
namespace Backend

open Text Machine Cells Restore

section Lookup

/-- The rows of `admission_members` with this Cell and epoch. -/
def membersAt (cellId : String) (epoch : Int) (s : Admission.Store) :
    List String :=
  s.orders.flatMap (fun o =>
    (o.members.filter (fun m =>
      decide (m.cellId = cellId ∧ m.cellEpoch = some epoch))).map
      (fun _ => o.workId))

/-- What `work_order_for_cell` raises. -/
inductive LookupError
  /-- Cell epoch must belong to exactly one durable work order -/
  | valueError
  | keyError (workId : String)
deriving DecidableEq, Repr

/-- `work_order`. -/
def workOrder (workId : String) (s : Admission.Store) :
    Except LookupError Admission.WorkOrder :=
  match s.row workId with
  | some o => .ok o.order
  | none => .error (.keyError workId)

/-- `work_order_for_cell`. -/
def workOrderForCell (cellId : String) (epoch : Int) (s : Admission.Store) :
    Except LookupError Admission.WorkOrder :=
  match membersAt cellId epoch s with
  | [workId] => workOrder workId s
  | _ => .error .valueError

/-- The order has recorded the epoch of the Cell for one of its members. -/
def Recorded (s : Admission.Store) (o : Admission.Order) (cellId : String)
    (epoch : Int) : Prop :=
  o ∈ s.orders ∧
    ∃ m ∈ o.members, m.cellId = cellId ∧ m.cellEpoch = some epoch

end Lookup

section Names

/-- What stands behind the last separator. -/
theorem suffix_eq_of_separator {c : Char} {xs ys ws vs : List Char}
    (hw : c ∉ ws) (hv : c ∉ vs) (h : xs ++ c :: ws = ys ++ c :: vs) :
    ws = vs := by
  have htake : ∀ zs us : List Char, c ∉ us →
      (zs ++ c :: us).reverse.takeWhile (fun d => d != c) = us.reverse := by
    intro zs us hus
    have hall : ∀ d ∈ us.reverse, (d != c) = true := by
      intro d hd
      rw [bne_iff_ne]
      rintro rfl
      exact hus (List.mem_reverse.mp hd)
    rw [List.reverse_append, List.reverse_cons, List.append_assoc,
      List.takeWhile_append_of_pos hall]
    simp
  apply List.reverse_injective
  rw [← htake xs ws hw, h, htake ys vs hv]

/-- The actor of an activation names its order. -/
theorem cellActor_workId {actor actor' workId workId' : String}
    (hwork : ':' ∉ workId.toList) (hwork' : ':' ∉ workId'.toList)
    (h : cellActor actor workId = cellActor actor' workId') :
    workId = workId' := by
  apply String.toList_injective
  have hchars : ("backend:" ++ actor).toList ++ ':' :: workId.toList =
      ("backend:" ++ actor').toList ++ ':' :: workId'.toList := by
    simpa [cellActor, String.toList_append] using congrArg String.toList h
  exact suffix_eq_of_separator hwork hwork' hchars

end Names

section Owners

variable {V : Type}
variable {setup : Setup V} {sh : Stores V}

/-- A Cell epoch is activated once, so all its activations name one actor. -/
theorem activatedBy_payload {cells : Cells.Store} (hs : Consistent cells)
    (hforms : ∀ e ∈ cells.events, e.kind = .activated →
      ∃ actor, e.toMutation = activation e.cellId e.epoch actor)
    {cellId actor : String} {epoch : Int}
    (h : ActivatedBy cells cellId epoch actor)
    {e : Event} (he : e ∈ cells.events) (hkind : e.kind = .activated)
    (hcell : e.cellId = cellId) (hepoch : e.epoch = epoch) :
    e.payload = .actor actor := by
  obtain ⟨e₀, he₀, hform₀⟩ := h
  obtain ⟨actor', hform⟩ := hforms e he hkind
  have hid : e.cellId = e₀.cellId :=
    hcell.trans (congrArg Mutation.cellId hform₀).symm
  have hkey : e.operationKey = e₀.operationKey := by
    rw [hform, hform₀, hepoch]
    rfl
  rw [hs.timeline.distinct e he e₀ he₀ hid hkey, hform₀]
  rfl

theorem activatedBy_unique {cells : Cells.Store} (hs : Consistent cells)
    (hforms : ∀ e ∈ cells.events, e.kind = .activated →
      ∃ actor, e.toMutation = activation e.cellId e.epoch actor)
    {cellId actor actor' : String} {epoch : Int}
    (h : ActivatedBy cells cellId epoch actor)
    (h' : ActivatedBy cells cellId epoch actor') : actor = actor' := by
  obtain ⟨e, he, hform⟩ := h'
  have hpayload := activatedBy_payload hs hforms h he
    (congrArg Mutation.kind hform) (congrArg Mutation.cellId hform)
    (congrArg Mutation.epoch hform)
  rw [congrArg Mutation.payload hform] at hpayload
  cases hpayload
  rfl

/-- The activation behind a recorded epoch. -/
theorem Ledger.recorded (hs : Ledger setup sh) {o : Admission.Order}
    {cellId : String} {epoch : Int}
    (h : Recorded sh.admission.store o cellId epoch) :
    ActivatedBy sh.cells cellId epoch (orderActor setup o) := by
  obtain ⟨ho, m, hm, rfl, hepoch⟩ := h
  exact (hs.orders o ho).owned m hm epoch hepoch

/-- Two orders that record the same epoch of a Cell are one order. -/
theorem Ledger.owner_unique (hs : Ledger setup sh) {o o' : Admission.Order}
    {cellId : String} {epoch : Int}
    (h : Recorded sh.admission.store o cellId epoch)
    (h' : Recorded sh.admission.store o' cellId epoch) : o = o' := by
  have hactor : orderActor setup o = orderActor setup o' :=
    activatedBy_unique hs.cells hs.activations (hs.recorded h) (hs.recorded h')
  have hwork : o.workId = o'.workId :=
    cellActor_workId (hs.orders o h.1).plain (hs.orders o' h'.1).plain hactor
  exact Machine.Keyed.eq hs.keyed h.1 h'.1 hwork

/-- The order that has recorded an epoch is found by it. -/
theorem Ledger.membersAt_eq (hs : Ledger setup sh) {o : Admission.Order}
    {cellId : String} {epoch : Int}
    (h : Recorded sh.admission.store o cellId epoch) :
    membersAt cellId epoch sh.admission.store = [o.workId] := by
  have hother : ∀ o' ∈ sh.admission.store.orders, o'.workId ≠ o.workId →
      (o'.members.filter (fun m =>
        decide (m.cellId = cellId ∧ m.cellEpoch = some epoch))).map
        (fun _ => o'.workId) = [] := by
    intro o' ho' hne
    rw [List.map_eq_nil_iff, List.filter_eq_nil_iff]
    intro m hm hmatch
    have hrecorded : Recorded sh.admission.store o' cellId epoch :=
      ⟨ho', m, hm, of_decide_eq_true hmatch⟩
    exact hne (congrArg Admission.Order.workId (hs.owner_unique hrecorded h))
  obtain ⟨ho, m, hm, hcell, hepoch⟩ := h
  have hone : o.members.filter (fun m =>
      decide (m.cellId = cellId ∧ m.cellEpoch = some epoch)) = [m] := by
    have hcells : Machine.Keyed Admission.Member.cellId o.members :=
      (hs.orders o ho).wellFormed.roster.cells
    apply hcells.filter_eq_singleton hm
    · exact decide_eq_true ⟨hcell, hepoch⟩
    · intro m' hmatch
      exact (of_decide_eq_true hmatch).1.trans hcell.symm
  rw [membersAt, Machine.Keyed.flatMap_eq hs.keyed ho hother, hone]
  rfl

theorem Ledger.workOrderForCell_eq (hs : Ledger setup sh) {o : Admission.Order}
    {cellId : String} {epoch : Int}
    (h : Recorded sh.admission.store o cellId epoch) :
    workOrderForCell cellId epoch sh.admission.store = .ok o.order := by
  rw [workOrderForCell, hs.membersAt_eq h]
  have hrow : sh.admission.store.row o.workId = some o :=
    Machine.Keyed.lookup_eq hs.keyed h.1
  show workOrder o.workId sh.admission.store = .ok o.order
  rw [workOrder, hrow]

/-- Every recorded epoch of a Cell has one owner. -/
structure OneOwner (sh : Stores V) : Prop where
  unique : ∀ cellId epoch o o',
    Recorded sh.admission.store o cellId epoch →
    Recorded sh.admission.store o' cellId epoch → o = o'
  /-- The Cell was activated at the epoch, and the event names the order. -/
  named : ∀ cellId epoch o, Recorded sh.admission.store o cellId epoch →
    ∃ actor,
      (∃ e ∈ sh.cells.events, e.kind = .activated ∧ e.cellId = cellId ∧
        e.epoch = epoch) ∧
      ∀ e ∈ sh.cells.events, e.kind = .activated → e.cellId = cellId →
        e.epoch = epoch → e.payload = .actor (cellActor actor o.workId)
  found : ∀ cellId epoch o, Recorded sh.admission.store o cellId epoch →
    workOrderForCell cellId epoch sh.admission.store = .ok o.order

theorem Ledger.oneOwner (hs : Ledger setup sh) : OneOwner sh where
  unique := fun _ _ _ _ h h' => hs.owner_unique h h'
  named := by
    intro cellId epoch o h
    have hactivated := hs.recorded h
    refine ⟨(setup.loads o.order.payload).actor, ?_, ?_⟩
    · obtain ⟨e, he, hform⟩ := hactivated
      exact ⟨e, he, congrArg Mutation.kind hform,
        congrArg Mutation.cellId hform, congrArg Mutation.epoch hform⟩
    · intro e he hkind hcell hepoch
      exact activatedBy_payload hs.cells hs.activations hactivated he hkind
        hcell hepoch
  found := fun _ _ _ h => hs.workOrderForCell_eq h

variable [DecidableEq V]

/--
**One owner per Cell epoch.**  In every state of every run from empty stores,
with any requests and any crashes: a recorded epoch belongs to one order, the
activation of the epoch names that order, and `work_order_for_cell` finds it.
-/
theorem epoch_owner
    (setup : Setup V)
    (calls : Nat → Call V)
    (throttles : List Admission.Throttle)
    (moves : List (Move (Input V))) :
    EveryState (step setup) (fun c => OneOwner c.shared)
      (start setup calls (emptyStores V throttles)) moves := by
  have hmoves : AlongRun (step setup) (Machine.Performs (ownedRemovals False))
      (start setup calls (emptyStores V throttles)) moves := by
    rw [alongRun_iff]
    rintro pre m post - p i s k - -
    cases s with
    | requestedAt r => exact False.elim
    | _ => trivial
  have hrun := contract_run (emptyStores_good throttles) hmoves
  rw [everyState_iff] at hrun ⊢
  intro pre post heq
  exact (hrun pre post heq).1.oneOwner

end Owners

end Backend
end SwFactory
