import SwFactory.Billing.Reconciliation
import SwFactory.Machine.Fallible

/-!
# A call is settled once

An import touches the run in two places only: it archives its evidence, and it
appends one row about a call that is still open.  So a settled amount is never
written over, and the row that settled a call keeps the digest by which the same
observation is recognised.

Sources: `call_observations.py` (`reconcile_call`), `call_accounting.py`
(`CallLedger.reconcile`, `CallLedger.records`).
-/

namespace SwFactory
namespace Billing

open Machine

variable {codec : Codec}
variable {sha256 : Bytes → String}

/-! ## Folding the ledger -/

/-- What holds of the folded calls. -/
structure Folded (records : Records) : Prop where
  nodup : records.keys.Nodup
  call : ∀ callId found, records.get? callId = some found →
    found.callId = callId ∧ callId ≠ "" ∧ 0 ≤ found.reservedUsd

theorem Folded.fold {records : Records} {row : CallRow} {amounts : Rat × Option Rat}
    (h : Folded records) (hid : row.callId ≠ "") (hreserved : 0 ≤ amounts.1) :
    Folded (foldCall records row amounts) where
  nodup := Dict.nodup_assign _ _ h.nodup
  call := by
    intro callId found hfound
    unfold foldCall at hfound
    dsimp only at hfound
    rw [Dict.get?_assign] at hfound
    split at hfound
    · next heq =>
        cases hfound
        exact ⟨heq.symm, heq ▸ hid, hreserved⟩
    · exact h.call callId found hfound

theorem amounts_eq_some {row : CallRow} {amounts : Rat × Option Rat}
    (h : codec.amounts row = some amounts) : 0 ≤ amounts.1 := by
  unfold Codec.amounts at h
  obtain ⟨reserved, hreserved, h⟩ := Option.bind_eq_some_iff.mp h
  obtain ⟨cost, -, h⟩ := Option.bind_eq_some_iff.mp h
  cases h
  exact nonneg_of_amount hreserved

theorem Folded.entry {records records' : Records} {entry : Entry}
    (h : Folded records) (hentry : foldEntry codec records entry = .ok records') :
    Folded records' := by
  cases entry with
  | foreign => cases hentry
  | floor usd =>
      simp only [foldEntry] at hentry
      split at hentry
      · cases hentry
        exact h
      · cases hentry
  | call row =>
      simp only [foldEntry] at hentry
      split at hentry
      · cases hentry
      · next hid =>
          split at hentry
          · next amounts hamounts =>
              cases hentry
              exact h.fold hid (amounts_eq_some hamounts)
          · cases hentry

theorem folded_of_checked {calls : List Entry} {records : Records}
    (h : checkedRecords codec calls = .ok records) : Folded records := by
  suffices hall : ∀ (calls : List Entry) (start : Records), Folded start →
      calls.foldlM (foldEntry codec) start = .ok records → Folded records from
    hall calls [] ⟨List.nodup_nil, by rintro callId found ⟨⟩⟩ h
  intro calls
  induction calls with
  | nil =>
      intro start hstart hfold
      cases hfold
      exact hstart
  | cons entry rest ih =>
      intro start hstart hfold
      rw [List.foldlM_cons] at hfold
      obtain ⟨next, hnext, hfold⟩ := bind_eq_ok hfold
      exact ih next (hstart.entry hnext) hfold

/-! ## The row of an observation -/

/-- The row of an observation, folded onto the call it is about. -/
def CallRecord.observe (found : CallRecord) (outcome : MutationOutcome) : CallRecord where
  callId := found.callId
  stage := found.stage
  iteration := found.iteration
  state := stateFor outcome.usage
  reservedUsd := found.reservedUsd
  settledUsd := outcome.usage
  observation := (observedRow found outcome).observation

/-- What is charged for a call without an amount stays its reservation. -/
theorem charge_observe {found : CallRecord} {outcome : MutationOutcome}
    (hopen : found.settledUsd = none) (husage : outcome.usage = none) :
    (found.observe outcome).charge = found.charge := by
  simp [CallRecord.charge, CallRecord.observe, hopen, husage]

/-- The ledger behind the row of an observation. -/
theorem checked_append {calls : List Entry} {records : Records} {callId : String}
    {found : CallRecord} {outcome : MutationOutcome}
    (hrecords : checkedRecords codec calls = .ok records)
    (hfound : records.get? callId = some found)
    (husage : ∀ usd, outcome.usage = some usd → 0 ≤ usd) :
    checkedRecords codec (calls ++ [.call (observedRow found outcome)]) =
      .ok (records.assign callId (found.observe outcome)) := by
  obtain ⟨hid, hnamed, hreserved⟩ := (folded_of_checked hrecords).call callId found hfound
  have hamounts : codec.amounts (observedRow found outcome) =
      some (found.reservedUsd, outcome.usage) := by
    cases h : outcome.usage with
    | none => simp [Codec.amounts, observedRow, Codec.optional, Codec.amount, hreserved, h]
    | some usd =>
        simp [Codec.amounts, observedRow, Codec.optional, Codec.amount, hreserved, h, husage usd h]
  have hentry : foldEntry codec records (.call (observedRow found outcome)) =
      .ok (records.assign callId (found.observe outcome)) := by
    have hrow : (observedRow found outcome).callId = callId := hid
    simp only [foldEntry, hrow, if_neg hnamed, hamounts, foldCall]
    congr 2
    simp [CallRecord.observe, observedRow, hid]
  unfold checkedRecords at hrecords ⊢
  rw [List.foldlM_append, hrecords]
  simpa using hentry

/-! ## What an import does -/

/-- What an import that passes its checks has read. -/
structure Admitted (codec : Codec) (sha256 : Bytes → String) (w : World) (inv : Invocation)
    (records : Records) (found : CallRecord) (descriptor : Descriptor) (raw : Bytes)
    (observed : Observation) : Prop where
  ledger : checkedRecords codec w.calls = .ok records
  call : records.get? inv.callId = some found
  written : readDescriptor sha256 found (w.descriptors inv.callId) = .ok descriptor
  read : inv.read descriptor = .ok raw
  parsed : parseObservation codec raw = .ok observed
  isMatch : Matches inv descriptor observed

/-- The observation is without an outcome, or not older than the cleanup. -/
def Timely (codec : Codec) (sha256 : Bytes → String) (w : World) (descriptor : Descriptor)
    (observed : Observation) : Prop :=
  observed.status = .ambiguous ∨ ∃ stoppedAt instant,
    cleanupTime codec sha256 descriptor w.processes = .ok stoppedAt ∧
      observed.instant codec = some instant ∧ stoppedAt ≤ instant

/-- What an import does to the run. -/
inductive Touch (codec : Codec) (sha256 : Bytes → String) (w : World) (inv : Invocation) :
    World → Prop
  | nothing : Touch codec sha256 w inv w
  | archived (archives : Dict (String × String) (Option Evidence)) :
      Touch codec sha256 w inv { w with archives := archives }
  | applied {records : Records} {found : CallRecord} {descriptor : Descriptor} {raw : Bytes}
      {observed : Observation}
      (hadmitted : Admitted codec sha256 w inv records found descriptor raw observed)
      (hopen : found.settledUsd = none)
      (htimely : Timely codec sha256 w descriptor observed)
      (archives : Dict (String × String) (Option Evidence))
      (evidence : Evidence)
      (hsha : evidence.observationSha256 = some (sha256 raw)) :
      Touch codec sha256 w inv
        { w with
          archives := archives
          calls := w.calls ++ [.call (observedRow found (observed.outcome evidence))] }

/-- An import that ends with an exception has left the ledger alone. -/
def Refuses (w : World) (r : Except Failure Report) (w' : World) : Prop :=
  ∀ e, r = .error e → w'.calls = w.calls

/-- An import, told by what holds between its steps and where it ends. -/
abbrev Imports {α : Type} (codec : Codec) (sha256 : Bytes → String) (w : World)
    (inv : Invocation) (Q : Except Failure α → World → Prop) (p : Method α) (w' : World) : Prop :=
  Survives exec (Touch codec sha256 w inv) Q p w'

section Rules

variable {w w' : World}
variable {inv : Invocation}
variable {α : Type}
variable {Q : Except Failure α → World → Prop}

/-- The rule for a statement that only reads. -/
theorem imports_read {stmt : Stmt} {k : Ans stmt → Method α}
    (hread : ∀ i w, (exec stmt i w).2 = w)
    (htouch : Touch codec sha256 w inv w')
    (h : Imports codec sha256 w inv Q (k (exec stmt () w').1) w') :
    Imports codec sha256 w inv Q (ask stmt >>= k) w' := by
  intro i
  rw [hread]
  exact ⟨htouch, h⟩

/-- The rule for a computation that may fail. -/
theorem imports_except {β : Type} {x : Except Failure β} {k : β → Method α}
    (herror : ∀ e, Q (.error e) w')
    (h : ∀ b, x = .ok b → Imports codec sha256 w inv Q (k b) w') :
    Imports codec sha256 w inv Q (Prog.ofExcept x >>= k) w' := by
  cases x with
  | error e => exact herror e
  | ok b => exact h b rfl

end Rules

section Imports

variable {w : World}
variable {inv : Invocation}
variable {records : Records}
variable {found : CallRecord}
variable {descriptor : Descriptor}
variable {raw : Bytes}
variable {observed : Observation}

/-- The check of the cleanup changes nothing, and says that the observation is timely. -/
theorem checkCleanup_imports
    (hinstant : (observed.instant codec).isSome = true) :
    Imports codec sha256 w inv
      (fun r w' => w' = w ∧ ∀ u, r = .ok u → Timely codec sha256 w descriptor observed)
      (checkCleanup codec sha256 descriptor observed) w := by
  unfold checkCleanup
  split
  · next hambiguous => exact ⟨rfl, fun _ _ => Or.inl hambiguous⟩
  · refine imports_read (fun _ _ => rfl) .nothing ?_
    refine imports_except (fun e => ⟨rfl, by rintro u ⟨⟩⟩) fun stoppedAt hstopped => ?_
    split
    · exact ⟨rfl, by rintro u ⟨⟩⟩
    · next hlate =>
        obtain ⟨instant, hinstant⟩ := Option.isSome_iff_exists.mp hinstant
        rw [hinstant] at hlate
        refine ⟨rfl, fun _ _ => Or.inr ⟨stoppedAt, instant, hstopped, hinstant, ?_⟩⟩
        simpa using hlate

/-- What is retained carries the digest of the observation. -/
theorem retain_imports (name : String × String) (evidence : Evidence) :
    Imports codec sha256 w inv
      (fun r w' => (∃ archives, w' = { w with archives := archives }) ∧
        ∀ retained, r = .ok retained →
          retained.observationSha256 = evidence.observationSha256)
      (retain name evidence) w := by
  unfold retain
  refine imports_read (fun _ _ => rfl) .nothing ?_
  cases (exec (.archived name) () w).1 with
  | none =>
      refine fun _ => ⟨.archived _, ⟨_, rfl⟩, ?_⟩
      rintro _ ⟨⟩
      rfl
  | some kept =>
      cases kept with
      | none => exact ⟨⟨_, rfl⟩, by rintro _ ⟨⟩⟩
      | some retained =>
          dsimp only
          split
          · exact ⟨⟨_, rfl⟩, by rintro _ ⟨⟩⟩
          · next hsame =>
              rw [not_or, not_not, not_not] at hsame
              refine ⟨⟨_, rfl⟩, ?_⟩
              rintro _ ⟨⟩
              exact hsame.1

/-- The call, as the ledger has it. -/
theorem record_imports {w' : World}
    (htouch : Touch codec sha256 w inv w')
    (hledger : checkedRecords codec w'.calls = .ok records)
    {callId : String}
    (hcall : records.get? callId = some found) :
    Imports codec sha256 w inv (fun r w'' => w'' = w' ∧ r = .ok found) (record codec callId) w' := by
  unfold record
  refine imports_read (fun _ _ => rfl) htouch ?_
  have hread : (exec .calls () w').1 = w'.calls := rfl
  rw [hread, hledger, Prog.ofExcept, Prog.ret_bind, hcall]
  exact ⟨rfl, rfl⟩

/-- What an observation settles a call at is no negative amount. -/
theorem nonneg_of_usage {evidence : Evidence} {usd : Rat}
    (hcost : ∀ q, observed.costUsd = some q → 0 ≤ q)
    (h : (observed.outcome evidence).usage = some usd) :
    0 ≤ usd := by
  unfold MutationOutcome.usage Observation.outcome at h
  dsimp only at h
  split at h
  · exact hcost usd h
  · cases h
    exact le_refl 0
  · cases h

/-- The ledger behind an applied observation. -/
theorem Admitted.appended
    (h : Admitted codec sha256 w inv records found descriptor raw observed)
    (evidence : Evidence) :
    checkedRecords codec (w.calls ++ [.call (observedRow found (observed.outcome evidence))]) =
      .ok (records.assign inv.callId (found.observe (observed.outcome evidence))) := by
  obtain ⟨doc, hvalid⟩ := parse_eq_ok h.parsed
  obtain ⟨-, -, hcost⟩ := final_of_validate hvalid
  exact checked_append h.ledger h.call fun usd husage => nonneg_of_usage hcost husage

/-- **The append.**  An open call gets the row of its observation, or the ledger is left alone. -/
theorem reconcile_imports
    (hadmitted : Admitted codec sha256 w inv records found descriptor raw observed)
    (hopen : found.settledUsd = none)
    (htimely : Timely codec sha256 w descriptor observed)
    (archives : Dict (String × String) (Option Evidence))
    {evidence : Evidence}
    (hsha : evidence.observationSha256 = some (sha256 raw)) :
    Imports codec sha256 w inv (fun r w' => ∀ e, r = .error e → w'.calls = w.calls)
      (reconcile codec inv.callId (observed.outcome evidence))
      { w with archives := archives } := by
  unfold reconcile
  have htouch : Touch codec sha256 w inv { w with archives := archives } := .archived archives
  refine Survives.bind (record_imports htouch hadmitted.ledger hadmitted.call) ?_
    (by rintro e w' ⟨-, heq⟩; cases heq)
  rintro found' w' ⟨rfl, heq⟩
  cases heq
  rw [if_neg (by rw [hopen]; exact Bool.false_ne_true)]
  split
  · exact fun e _ => rfl
  · have happlied := Touch.applied hadmitted hopen htimely archives evidence hsha
    refine fun _ => ⟨happlied, ?_⟩
    have hcall : (records.assign inv.callId
        (found.observe (observed.outcome evidence))).get? inv.callId =
          some (found.observe (observed.outcome evidence)) := by
      rw [Dict.get?_assign, if_pos rfl]
    refine (record_imports happlied (hadmitted.appended evidence) hcall).mono ?_
    rintro r w' ⟨rfl, rfl⟩ e ⟨⟩

/-- The part of the import behind its checks. -/
theorem apply_imports
    (hadmitted : Admitted codec sha256 w inv records found descriptor raw observed) :
    Imports codec sha256 w inv (Refuses w)
      (apply codec sha256 inv found descriptor (sha256 raw) observed) w := by
  obtain ⟨doc, hvalid⟩ := parse_eq_ok hadmitted.parsed
  obtain ⟨-, hinstant, -⟩ := final_of_validate hvalid
  unfold apply
  split
  · split
    · exact fun e _ => rfl
    · exact fun e _ => rfl
  · next hopen =>
      refine Survives.bind (checkCleanup_imports hinstant) ?_ ?_
      · rintro _ w' ⟨rfl, htimely⟩
        refine Survives.bind (retain_imports _ _) ?_ ?_
        · rintro evidence _ ⟨⟨archives, rfl⟩, hsha⟩
          refine Survives.bind (reconcile_imports hadmitted hopen (htimely () rfl) archives
            (hsha evidence rfl)) ?_ ?_
          · rintro settled w'' - e ⟨⟩
          · exact fun e w'' hcalls _ _ => hcalls e rfl
        · rintro e _ ⟨⟨archives, rfl⟩, -⟩ _ _
          rfl
      · rintro e w' ⟨rfl, -⟩ _ _
        rfl

/-- **An import, step by step.** -/
theorem reconcileCall_imports (w : World) (inv : Invocation) :
    Imports codec sha256 w inv (Refuses w) (reconcileCall codec sha256 inv) w := by
  have hrefuses : ∀ e, Refuses w (.error e) w := fun _ _ _ => rfl
  unfold reconcileCall
  split
  · exact hrefuses _
  split
  · exact hrefuses _
  refine imports_read (fun _ _ => rfl) .nothing ?_
  refine imports_except hrefuses fun records hledger => ?_
  cases hcall : records.get? inv.callId with
  | none => exact hrefuses _
  | some found =>
  refine imports_read (fun _ _ => rfl) .nothing ?_
  refine imports_except hrefuses fun descriptor hwritten => ?_
  refine imports_except hrefuses fun raw hread => ?_
  refine imports_except hrefuses fun observed hparsed => ?_
  split
  · next hmatch => exact apply_imports ⟨hledger, hcall, hwritten, hread, hparsed, hmatch⟩
  · exact hrefuses _

end Imports

/-! ## One life -/

/-- **The step lemma.**  What a life does to the run, killed or not. -/
theorem Life.touch (life : Life) (w : World) :
    Touch codec sha256 w life.inv (life.play codec sha256 w).2 ∧
      ∀ e, (life.play codec sha256 w).1 = some (.error e) →
        (life.play codec sha256 w).2.calls = w.calls := by
  obtain ⟨htouch, hend⟩ :=
    (reconcileCall_imports w life.inv).play .nothing
      (List.replicate life.steps ())
  exact ⟨htouch, fun e he => hend _ he e rfl⟩

section Settled

variable {w w' : World}
variable {inv : Invocation}
variable {records : Records}
variable {found : CallRecord}
variable {descriptor : Descriptor}
variable {raw : Bytes}
variable {observed : Observation}
variable {evidence : Evidence}

theorem settled_of_ledger {calls : List Entry} (hcalls : w.calls = calls)
    (hledger : checkedRecords codec calls = .ok records) (callId : String) :
    w.settled codec callId = (records.get? callId).bind CallRecord.settledUsd := by
  unfold World.settled
  rw [hcalls, hledger]

/-- The settled amounts behind the row of an observation. -/
theorem Admitted.settled (h : Admitted codec sha256 w inv records found descriptor raw observed)
    (hcalls : w'.calls = w.calls ++ [.call (observedRow found (observed.outcome evidence))])
    (callId : String) :
    w'.settled codec callId =
      if callId = inv.callId then (observed.outcome evidence).usage
      else w.settled codec callId := by
  rw [settled_of_ledger hcalls (h.appended evidence), settled_of_ledger rfl h.ledger,
    Dict.get?_assign]
  split <;> rfl

/-- A settled amount is not written over. -/
theorem Touch.settled (h : Touch codec sha256 w inv w') {callId : String} {usd : Rat}
    (hsettled : w.settled codec callId = some usd) : w'.settled codec callId = some usd := by
  cases h with
  | nothing => exact hsettled
  | archived archives => exact hsettled
  | applied hadmitted hopen htimely archives evidence hsha =>
      rw [hadmitted.settled rfl, if_neg ?_]
      · exact hsettled
      · rintro rfl
        rw [settled_of_ledger rfl hadmitted.ledger, hadmitted.call] at hsettled
        cases hopen.symm.trans hsettled

/-! ## The same observation again -/

/-- The call was settled by the observation with this digest. -/
structure Closed (codec : Codec) (sha256 : Bytes → String) (w : World) (callId : String)
    (descriptor : Descriptor) (digest : String) (usd : Rat) : Prop where
  exists_record : ∃ records found,
    checkedRecords codec w.calls = .ok records ∧ records.get? callId = some found ∧
      found.settledUsd = some usd ∧ found.evidenceSha256 = some digest ∧
        readDescriptor sha256 found (w.descriptors callId) = .ok descriptor

/-- An observation with an outcome closes the call. -/
theorem Admitted.closed (h : Admitted codec sha256 w inv records found descriptor raw observed)
    (hsha : evidence.observationSha256 = some (sha256 raw))
    {usd : Rat}
    (husage : (observed.outcome evidence).usage = some usd)
    (hcalls : w'.calls = w.calls ++ [.call (observedRow found (observed.outcome evidence))])
    (hdescriptors : w'.descriptors = w.descriptors) :
    Closed codec sha256 w' inv.callId descriptor (sha256 raw) usd := by
  refine ⟨_, found.observe (observed.outcome evidence), hcalls ▸ h.appended evidence, ?_, husage,
    hsha, ?_⟩
  · rw [Dict.get?_assign, if_pos rfl]
  · rw [hdescriptors]
    exact h.written

/-- What settled a call stays recorded. -/
theorem Closed.touch {callId digest : String} {usd : Rat}
    (hclosed : Closed codec sha256 w callId descriptor digest usd)
    (h : Touch codec sha256 w inv w') :
    Closed codec sha256 w' callId descriptor digest usd := by
  obtain ⟨records, found, hledger, hcall, hsettled, hsha, hwritten⟩ := hclosed.exists_record
  cases h with
  | nothing => exact hclosed
  | archived archives => exact ⟨records, found, hledger, hcall, hsettled, hsha, hwritten⟩
  | applied hadmitted hopen htimely archives evidence hevidence =>
      cases hledger.symm.trans hadmitted.ledger
      refine ⟨_, found, hadmitted.appended evidence, ?_, hsettled, hsha, hwritten⟩
      rw [Dict.get?_assign, if_neg ?_]
      · exact hcall
      · rintro rfl
        cases hcall.symm.trans hadmitted.call
        cases hopen.symm.trans hsettled

/-- **The run lemma.**  What settled a call stays recorded over any further lives. -/
theorem Closed.after {callId digest : String} {usd : Rat}
    (h : Closed codec sha256 w callId descriptor digest usd) (lives : List Life) :
    Closed codec sha256 (w.after codec sha256 lives) callId descriptor digest usd := by
  induction lives generalizing w with
  | nil => exact h
  | cons life rest ih => exact ih (h.touch (life.touch w).1)

/-- The observation that settled the call is recognised. -/
theorem Closed.replay {digest : String} {usd : Rat}
    (h : Closed codec sha256 w inv.callId descriptor digest usd)
    (hattested : inv.attested = true)
    (hidle : inv.busy = false)
    (hread : inv.read descriptor = .ok raw)
    (hparsed : parseObservation codec raw = .ok observed)
    (hmatch : Matches inv descriptor observed)
    (hdigest : sha256 raw = digest)
    (steps : Nat) :
    ((⟨inv, steps + 2⟩ : Life).play codec sha256 w).1 =
      some (.ok ⟨inv.callId, true, some usd⟩) := by
  obtain ⟨records, found, hledger, hcall, hsettled, hsha, hwritten⟩ := h.exists_record
  have happly : apply codec sha256 inv found descriptor (sha256 raw) observed =
      .ret ⟨inv.callId, true, some usd⟩ := by
    unfold apply
    rw [hsettled, hdigest]
    exact if_pos hsha
  unfold Life.play reconcileCall
  simp only [hattested, hidle, Bool.not_true, Bool.false_eq_true, if_false]
  simp only [ask, Prog.perform_bind, List.replicate_succ, Machine.play, exec, hledger, hcall,
    hwritten, hread, hparsed, Prog.ofExcept, Prog.ret_bind, if_pos hmatch, happly]

/-! ## Charges -/

/-- A row without an amount leaves every charge as it was. -/
theorem charges_assign (hfolded : Folded records) {callId : String}
    (hcall : records.get? callId = some found) {outcome : MutationOutcome}
    (hopen : found.settledUsd = none) (husage : outcome.usage = none) :
    (records.assign callId (found.observe outcome)).map (fun entry => entry.2.charge) =
      records.map (fun entry => entry.2.charge) := by
  have hmem : callId ∈ records.keys := Dict.mem_keys_iff.mpr (by rw [hcall]; exact Option.some_ne_none _)
  unfold Dict.assign
  rw [if_pos hmem, List.map_map]
  refine List.map_congr_left fun entry hentry => ?_
  simp only [Function.comp_apply]
  split
  · next heq =>
      have hget := Dict.get?_of_mem hfolded.nodup hentry
      rw [heq, hcall] at hget
      cases hget
      exact charge_observe hopen husage
  · rfl

/-- An observation without an outcome charges nothing and releases nothing. -/
theorem Admitted.charged (h : Admitted codec sha256 w inv records found descriptor raw observed)
    (hopen : found.settledUsd = none)
    (husage : (observed.outcome evidence).usage = none)
    (hcalls : w'.calls = w.calls ++ [.call (observedRow found (observed.outcome evidence))])
    (total : List Rat → Rat) :
    w'.chargedUsd codec total = w.chargedUsd codec total := by
  unfold World.chargedUsd
  rw [hcalls, h.appended evidence, h.ledger]
  simp only [Except.map]
  rw [charges_assign (folded_of_checked h.ledger) h.call hopen husage]

theorem descriptor_of_read {file : Option (Option Descriptor)}
    (h : readDescriptor sha256 found file = .ok descriptor) : file = some (some descriptor) := by
  unfold readDescriptor at h
  split at h
  · cases h
  · cases h
  · split at h
    · cases h
      rfl
    · cases h

/-- The observation may settle the call at the amount. -/
structure Settles (codec : Codec) (sha256 : Bytes → String) (w : World) (inv : Invocation)
    (descriptor : Descriptor) (raw : Bytes) (observed : Observation) (usd : Rat) : Prop where
  written : w.descriptors inv.callId = some (some descriptor)
  read : inv.read descriptor = .ok raw
  parsed : parseObservation codec raw = .ok observed
  isMatch : Matches inv descriptor observed
  final : observed.final = true
  amount : (observed.status = .committed ∧ observed.costUsd = some usd) ∨
    (observed.status = .definitelyAbsent ∧ usd = 0)
  timely : ∃ stoppedAt instant,
    cleanupTime codec sha256 descriptor w.processes = .ok stoppedAt ∧
      observed.instant codec = some instant ∧ stoppedAt ≤ instant

/-- What settles a call is final, and not older than its cleanup. -/
theorem Admitted.settles
    (h : Admitted codec sha256 w inv records found descriptor raw observed)
    (htimely : Timely codec sha256 w descriptor observed)
    {usd : Rat}
    (husage : (observed.outcome evidence).usage = some usd) :
    Settles codec sha256 w inv descriptor raw observed usd := by
  obtain ⟨doc, hvalid⟩ := parse_eq_ok h.parsed
  obtain ⟨hfits, -, -⟩ := final_of_validate hvalid
  unfold MutationOutcome.usage Observation.outcome at husage
  have hwritten := descriptor_of_read h.written
  cases hstatus : observed.status with
  | committed =>
      rw [hstatus] at husage hfits
      have hfinal : observed.final = true := (Bool.and_eq_true_iff.mp hfits).1
      have hcleaned := htimely.resolve_left (by rw [hstatus]; rintro ⟨⟩)
      exact ⟨hwritten, h.read, h.parsed, h.isMatch, hfinal, Or.inl ⟨hstatus, husage⟩, hcleaned⟩
  | definitelyAbsent =>
      rw [hstatus] at husage hfits
      cases husage
      have hfinal : observed.final = true := (Bool.and_eq_true_iff.mp hfits).1
      have hcleaned := htimely.resolve_left (by rw [hstatus]; rintro ⟨⟩)
      exact ⟨hwritten, h.read, h.parsed, h.isMatch, hfinal, Or.inr ⟨hstatus, rfl⟩, hcleaned⟩
  | ambiguous =>
      rw [hstatus] at husage
      cases husage

/-- A call that a life settles is the one it is about, and its observation is recognised. -/
theorem Touch.settles
    (h : Touch codec sha256 w inv w')
    {callId : String}
    {usd : Rat}
    (hopen : w.settled codec callId = none)
    (hsettled : w'.settled codec callId = some usd) :
    callId = inv.callId ∧ ∃ descriptor raw observed,
      Settles codec sha256 w inv descriptor raw observed usd ∧
        Closed codec sha256 w' inv.callId descriptor (sha256 raw) usd := by
  cases h with
  | nothing => cases hopen.symm.trans hsettled
  | archived archives => cases hopen.symm.trans hsettled
  | applied hadmitted hunsettled htimely archives evidence hsha =>
      rw [hadmitted.settled rfl] at hsettled
      split at hsettled
      · next heq =>
          exact ⟨heq, _, _, _, hadmitted.settles htimely hsettled,
            hadmitted.closed hsha hsettled rfl rfl⟩
      · cases hopen.symm.trans hsettled

end Settled

/-! ## Exactly once -/

/--
**Billing reconciliation is exactly-once.**  Over any lives, killed or not, a
settled amount stays; it is set only by a final observation that matches the call
and is not older than the cleanup, and that observation is recognised whenever it
is imported again; and an import that is refused or ambiguous leaves the charges
alone.
-/
theorem reconciles_exactly_once
    (codec : Codec)
    (sha256 : Bytes → String)
    (start : World)
    (lives : List Life)
    (life : Life) :
    let w := start.after codec sha256 lives
    let out := life.play codec sha256 w
    (∀ callId usd, w.settled codec callId = some usd → out.2.settled codec callId = some usd) ∧
    (∀ callId usd, w.settled codec callId = none → out.2.settled codec callId = some usd →
      callId = life.inv.callId ∧ ∃ descriptor raw observed,
        Settles codec sha256 w life.inv descriptor raw observed usd ∧
          ∀ (later : List Life) (again : Life),
            again.inv.callId = callId → again.inv.runId = life.inv.runId →
            again.inv.attested = true → again.inv.busy = false →
            again.inv.read descriptor = .ok raw → 2 ≤ again.steps →
              (again.play codec sha256 (out.2.after codec sha256 later)).1 =
                some (.ok ⟨callId, true, some usd⟩)) ∧
    (∀ total, (∃ e, out.1 = some (.error e)) ∨
        (∃ descriptor raw observed, w.descriptors life.inv.callId = some (some descriptor) ∧
          life.inv.read descriptor = .ok raw ∧ parseObservation codec raw = .ok observed ∧
            observed.status = .ambiguous) →
      out.2.chargedUsd codec total = w.chargedUsd codec total) := by
  intro w out
  have hlife : Touch codec sha256 w life.inv (life.play codec sha256 w).2 ∧
      ∀ e, (life.play codec sha256 w).1 = some (.error e) →
        (life.play codec sha256 w).2.calls = w.calls := life.touch w
  obtain ⟨htouch, hrefused⟩ := hlife
  refine ⟨fun callId usd hsettled => htouch.settled hsettled, ?_, ?_⟩
  · intro callId usd hopen hsettled
    obtain ⟨rfl, descriptor, raw, observed, hsettles, hclosed⟩ := htouch.settles hopen hsettled
    refine ⟨rfl, descriptor, raw, observed, hsettles, ?_⟩
    rintro later ⟨inv, steps⟩ hcall hrun hattested hidle hread hsteps
    obtain ⟨more, rfl⟩ := Nat.exists_eq_add_of_le' hsteps
    dsimp only at hcall hrun hattested hidle hread
    have hmatch : Matches inv descriptor observed :=
      { hsettles.isMatch with
        run := hsettles.isMatch.run.trans hrun.symm
        owner := hsettles.isMatch.owner.trans hrun.symm
        call := hsettles.isMatch.call.trans hcall.symm }
    have hafter := hclosed.after later
    rw [← hcall] at hafter ⊢
    exact hafter.replay hattested hidle hread hsettles.parsed hmatch rfl more
  · rintro total (⟨e, he⟩ | ⟨descriptor, raw, observed, hwritten, hread, hparsed, hstatus⟩)
    · unfold World.chargedUsd
      rw [hrefused e he]
    · change (life.play codec sha256 w).2.chargedUsd codec total = _
      generalize (life.play codec sha256 w).2 = w' at htouch
      cases htouch with
      | nothing => rfl
      | archived archives => rfl
      | applied hadmitted hopen htimely archives evidence hsha =>
          cases hwritten.symm.trans (descriptor_of_read hadmitted.written)
          cases hread.symm.trans hadmitted.read
          cases hparsed.symm.trans hadmitted.parsed
          refine hadmitted.charged hopen ?_ rfl total
          simp [MutationOutcome.usage, Observation.outcome, hstatus]

end Billing
end SwFactory
