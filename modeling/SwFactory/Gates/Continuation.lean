import SwFactory.Gates.Control

/-!
# Where a run continues

`stages._validate_approvals`: before anything is published, the recorded
decisions are walked in the order of the gates.
-/

namespace SwFactory
namespace Gates

open Machine

variable {D : Type} [DecidableEq D] (digests : Digests D)

/-- Refuse a second decision for a gate. -/
def checkDistinct : List GateName → List (Approval D) → Except Refusal Unit
  | _, [] => .ok ()
  | seen, a :: rest => do
      ensure (!seen.contains a.gate) (.duplicateApproval a.gate)
      checkDistinct (a.gate :: seen) rest

/-- What the walk compares every decision with. -/
structure Authority (D : Type) where
  cellId : Option String
  cellEpoch : Option Nat
  managed : Bool
  inputsDigest : D
  revision : String

/-- The recorded decision for a gate. -/
def decisionFor (approvals : List (Approval D)) (gate : GateName) : Option (Approval D) :=
  approvals.find? (fun a => a.gate == gate)

/-- Check the decision for one gate. -/
def checkGate
    (dir : RunDir D) (authority : Authority D) (approvals : List (Approval D)) (g : Gate) :
    Except Refusal (Approval D) :=
  match decisionFor approvals g.name with
  | none => .error (.missingDecision g.name)
  | some a => do
      let expected ← artifactSha256 digests dir g.artifact
      ensure (a.artifactSha256 == some expected) (.otherArtifact g.name)
      checkRecorded g a authority.managed authority.cellId authority.cellEpoch authority.inputsDigest authority.revision
      return a

/-- The gates that were processed, and the one that was rejected. -/
def walkGates (dir : RunDir D) (authority : Authority D) (approvals : List (Approval D)) :
    List Gate → Except Refusal (List GateName × Option GateName)
  | [] => .ok ([], none)
  | g :: rest => do
      let a ← checkGate digests dir authority approvals g
      if a.decision = .reject then
        return ([g.name], some g.name)
      else
        let (processed, rejected) ← walkGates dir authority approvals rest
        return (g.name :: processed, rejected)

/-- `_validate_approvals`: whether a gate was rejected, and which. -/
def validateApprovals (dir : RunDir D) (ctx : Ctx) (approvals : List (Approval D)) :
    Except Refusal (Bool × Option GateName) := do
  checkDistinct [] approvals
  match approvals.find? (fun a => !(ctx.gates.map Gate.name).contains a.gate) with
  | some a => throw (.unknownGate a.gate)
  | none =>
      let (cellId, cellEpoch, managed) ← cellEvidence dir
      let inputs ← require dir
      let authority : Authority D :=
        ⟨cellId, cellEpoch, managed, digests.inputs inputs, ctx.host.policyRevision⟩
      let (processed, rejected) ← walkGates digests dir authority approvals ctx.gates
      ensure (approvals.all (fun a => processed.contains a.gate)) .outOfSequence
      return (rejected.isSome, rejected)

/-! ## What the checks accept -/

variable {digests}

omit [DecidableEq D] in
theorem nodup_of_checkDistinct {seen : List GateName} {approvals : List (Approval D)}
    {u : Unit}
    (h : checkDistinct seen approvals = .ok u) :
    (approvals.map Approval.gate).Nodup ∧ ∀ a ∈ approvals, a.gate ∉ seen := by
  induction approvals generalizing seen with
  | nil =>
      exact ⟨List.nodup_nil, by simp⟩
  | cons a rest ih =>
      obtain ⟨_, hnew, h⟩ := bind_eq_ok h
      obtain ⟨hnodup, hfresh⟩ := ih h
      rw [ensure_eq_ok] at hnew
      constructor
      · rw [List.map_cons, List.nodup_cons]
        refine ⟨fun hmem => ?_, hnodup⟩
        obtain ⟨b, hb, heq⟩ := List.mem_map.mp hmem
        exact hfresh b hb (heq ▸ List.mem_cons_self)
      · intro b hb
        rcases List.mem_cons.mp hb with rfl | hb
        · simpa using hnew
        · exact fun hseen => hfresh b hb (List.mem_cons_of_mem _ hseen)

omit [DecidableEq D] in
/-- A decision that stands alone for its gate is the only one. -/
theorem filter_gate_eq {approvals : List (Approval D)} {a : Approval D}
    (hnodup : (approvals.map Approval.gate).Nodup)
    (ha : a ∈ approvals) :
    approvals.filter (fun b => b.gate == a.gate) = [a] := by
  induction approvals with
  | nil =>
      cases ha
  | cons b rest ih =>
      rw [List.map_cons, List.nodup_cons] at hnodup
      rcases List.mem_cons.mp ha with rfl | ha
      · have hrest : rest.filter (fun b => b.gate == a.gate) = [] := by
          rw [List.filter_eq_nil_iff]
          intro c hc heq
          exact hnodup.1 (List.mem_map.mpr ⟨c, hc, by simpa using heq⟩)
        simp [hrest]
      · have hne : b.gate ≠ a.gate := fun heq =>
          hnodup.1 (heq ▸ List.mem_map_of_mem ha)
        simp [hne, ih hnodup.2 ha]

/-- What a decision is when it passes for its gate. -/
structure Passes
    (digests : Digests D) (dir : RunDir D) (authority : Authority D) (g : Gate) (a : Approval D) :
    Prop where
  gate : a.gate = g.name
  artifact : ∃ content, dir.artifacts g.artifact = some content ∧
    a.artifactSha256 = some (digests.artifact content)
  cell : a.cellId = authority.cellId ∧ a.cellEpoch = authority.cellEpoch
  inputs : a.inputsDigest = some authority.inputsDigest
  human : g.mode = .human → a.mode = .human ∨ a.mode = .replay
  unmanaged : a.mode = .replay → authority.managed = false
  actor : a.mode = .human → knownReserved a.actor = false

theorem passes_of_checkGate
    {dir : RunDir D} {authority : Authority D} {approvals : List (Approval D)} {g : Gate}
    {a : Approval D}
    (h : checkGate digests dir authority approvals g = .ok a) :
    a ∈ approvals ∧ Passes digests dir authority g a := by
  unfold checkGate at h
  cases hfor : decisionFor approvals g.name with
  | none =>
      rw [hfor] at h
      cases h
  | some b =>
      rw [hfor] at h
      obtain ⟨expected, hexpected, h⟩ := bind_eq_ok h
      obtain ⟨_, hartifact, h⟩ := bind_eq_ok h
      obtain ⟨_, hrecorded, h⟩ := bind_eq_ok h
      cases h
      obtain ⟨_, hgate, hrecorded⟩ := bind_eq_ok hrecorded
      obtain ⟨_, hinputs, hrecorded⟩ := bind_eq_ok hrecorded
      obtain ⟨_, hcell, hrecorded⟩ := bind_eq_ok hrecorded
      obtain ⟨_, -, hrecorded⟩ := bind_eq_ok hrecorded
      obtain ⟨_, -, hrecorded⟩ := bind_eq_ok hrecorded
      obtain ⟨_, hmode, hrecorded⟩ := bind_eq_ok hrecorded
      obtain ⟨_, hmanaged, hactor⟩ := bind_eq_ok hrecorded
      rw [ensure_eq_ok] at hartifact hgate hinputs hcell hmode hmanaged hactor
      refine ⟨List.mem_of_find?_eq_some hfor, ?_⟩
      constructor
      · simpa using hgate
      · unfold artifactSha256 at hexpected
        cases hcontent : dir.artifacts g.artifact with
        | none =>
            rw [hcontent] at hexpected
            cases hexpected
        | some content =>
            rw [hcontent] at hexpected
            cases hexpected
            exact ⟨content, rfl, by simpa using hartifact⟩
      · simpa using hcell
      · simpa using hinputs
      · intro hhuman
        cases hb : a.mode <;> simp_all
      · intro hreplay
        simpa [hreplay] using hmanaged
      · intro hhuman
        simpa [hhuman] using hactor

/-! ## The gates that have to be decided -/

/-- The gates up to and including the first one whose decision is a rejection. -/
def upToRejection (approvals : List (Approval D)) : List Gate → List Gate
  | [] => []
  | g :: rest =>
      if (decisionFor approvals g.name).any (fun a => a.decision == .reject) then
        [g]
      else
        g :: upToRejection approvals rest

theorem decisionFor_of_checkGate
    {dir : RunDir D} {authority : Authority D} {approvals : List (Approval D)} {g : Gate}
    {a : Approval D}
    (h : checkGate digests dir authority approvals g = .ok a) :
    decisionFor approvals g.name = some a := by
  unfold checkGate at h
  cases hfor : decisionFor approvals g.name with
  | none =>
      rw [hfor] at h
      cases h
  | some b =>
      rw [hfor] at h
      obtain ⟨_, -, h⟩ := bind_eq_ok h
      obtain ⟨_, -, h⟩ := bind_eq_ok h
      obtain ⟨_, -, h⟩ := bind_eq_ok h
      cases h
      rfl

/-- The walk processes the gates up to the rejection, each with a decision that passes. -/
theorem walkGates_spec
    {dir : RunDir D} {authority : Authority D} {approvals : List (Approval D)} {gates : List Gate}
    {processed : List GateName} {rejected : Option GateName}
    (h : walkGates digests dir authority approvals gates = .ok (processed, rejected)) :
    processed = (upToRejection approvals gates).map Gate.name ∧
      ∀ g ∈ upToRejection approvals gates,
        ∃ a ∈ approvals, Passes digests dir authority g a := by
  induction gates generalizing processed rejected with
  | nil =>
      cases h
      exact ⟨rfl, by simp [upToRejection]⟩
  | cons g rest ih =>
      obtain ⟨a, hcheck, h⟩ := bind_eq_ok h
      have hfor := decisionFor_of_checkGate hcheck
      have hpasses := passes_of_checkGate hcheck
      by_cases hreject : a.decision = .reject
      · simp only [hreject, if_true] at h
        cases h
        have hup : upToRejection approvals (g :: rest) = [g] := by
          simp [upToRejection, hfor, hreject]
        rw [hup]
        refine ⟨rfl, fun g' hg' => ?_⟩
        cases List.mem_singleton.mp hg'
        exact ⟨a, hpasses⟩
      · simp only [hreject, if_false] at h
        obtain ⟨⟨processed', rejected'⟩, hrest, h⟩ := bind_eq_ok h
        cases h
        obtain ⟨hprocessed, hall⟩ := ih hrest
        have hup : upToRejection approvals (g :: rest) =
            g :: upToRejection approvals rest := by
          simp [upToRejection, hfor, hreject]
        rw [hup]
        refine ⟨by rw [hprocessed, List.map_cons], fun g' hg' => ?_⟩
        rcases List.mem_cons.mp hg' with rfl | hg'
        · exact ⟨a, hpasses⟩
        · exact hall g' hg'

/-- Everything a validated set of decisions has passed. -/
theorem validateApprovals_spec
    {dir : RunDir D} {ctx : Ctx} {approvals : List (Approval D)}
    {result : Bool × Option GateName}
    (h : validateApprovals digests dir ctx approvals = .ok result) :
    ∃ (authority : Authority D) (inputs : AcceptedInputs),
      cellEvidence dir = .ok (authority.cellId, authority.cellEpoch, authority.managed) ∧
      dir.pin = .holds inputs ∧
      authority.inputsDigest = digests.inputs inputs ∧
      (approvals.map Approval.gate).Nodup ∧
      (∀ g ∈ upToRejection approvals ctx.gates,
        ∃ a ∈ approvals, Passes digests dir authority g a) ∧
      ∀ a ∈ approvals,
        a.gate ∈ (upToRejection approvals ctx.gates).map Gate.name := by
  obtain ⟨_, hdistinct, h⟩ := bind_eq_ok h
  split at h
  · cases h
  · obtain ⟨⟨cellId, cellEpoch, managed⟩, hcell, h⟩ := bind_eq_ok h
    obtain ⟨inputs, hinputs, h⟩ := bind_eq_ok h
    obtain ⟨⟨processed, rejected⟩, hwalk, h⟩ := bind_eq_ok h
    obtain ⟨_, hextra, -⟩ := bind_eq_ok h
    obtain ⟨hprocessed, hall⟩ := walkGates_spec hwalk
    refine ⟨_, inputs, hcell, require_eq_ok.mp hinputs, rfl,
      (nodup_of_checkDistinct hdistinct).1, hall, fun a ha => ?_⟩
    rw [ensure_eq_ok, List.all_eq_true] at hextra
    rw [← hprocessed]
    simpa using hextra a ha

end Gates
end SwFactory
