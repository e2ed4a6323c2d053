import SwFactory.Gates.Continuation

/-!
# Gate authority

Decisions reach the run through a response of the operator, the terminal, a
replay fixture or the backend.  Every recorded decision carries the digest of
the inputs that are pinned where it is recorded, and it is these digests that
tie a decision to the run that publishes on it.  Two facts are not checked: the
name of the user at the terminal is compared with two spellings of the
reserved names only, and nothing compares the inputs a context was admitted
with to those that are pinned when it records or delivers.
-/

namespace SwFactory
namespace Gates

open Machine
open Text (Time)

section Recorded

variable {D : Type}

/-! ## Runs -/

/-- How a gate is answered. -/
inductive Answer (D : Type)
  /-- `record_<stage>` of the DAG -/
  | response
      (gate : GateName) (mode : GateMode) (given : Response)
      (fixture : Option ReplayFile) (jobManaged : Bool)
  /-- `record_<stage>` of a policy gate -/
  | policy (gate : GateName) (decision : Except Refusal (PolicyDecision D))
  /-- `run_pipeline` -/
  | terminal (gate : Gate) (around : Surroundings D)

variable (casefold : String → String)

def Answer.approval (s : Run D) (ctx : Ctx) : Answer D → Except Refusal (Approval D)
  | .response gate mode given fixture jobManaged =>
      approvalFromResponse casefold gate mode given fixture jobManaged
        ctx.cfg.scm s.clock
  | .policy gate decision => do return policyApproval gate (← decision)
  | .terminal gate around => cliApprover ctx gate (cellEvidence s.dir) around s.clock

/-- What a task of the run does. -/
inductive Task (D : Type)
  | prepare (ctx : Ctx)
  | reaccept (actor reason : String)
  | answer (ctx : Ctx) (reply : Answer D)
  | artifact (path : String) (content : Option String)
  | cell (file : CellFile)

def Task.op (s : Run D) : Task D → Except Refusal (Op D)
  | .prepare ctx => .ok (.prepare ctx)
  | .reaccept actor reason => .ok (.reaccept actor reason)
  | .answer ctx reply => do return .record ctx (← reply.approval casefold s ctx)
  | .artifact path content => .ok (.artifact path content)
  | .cell file => .ok (.cell file)

/-- A task and the time in front of each write it lives for. -/
structure Turn (D : Type) where
  task : Task D
  elapsed : List Time

def advance [DecidableEq D] (digests : Digests D) (s : Run D) (turn : Turn D) : Run D :=
  match turn.task.op casefold s with
  | .error _ => s
  | .ok op => step digests s ⟨op, turn.elapsed⟩

/-! ## What is claimed -/

/-- The decision `a` is authority over gate `g` in this run. -/
structure Stands (digests : Digests D) (s : Run D) (ctx : Ctx) (g : Gate) (a : Approval D) :
    Prop where
  only : s.dir.approvals.filter (fun b => b.gate == g.name) = [a]
  artifact : ∃ content, s.dir.artifacts g.artifact = some content ∧
    a.artifactSha256 = some (digests.artifact content)
  cell : ∃ managed, cellEvidence s.dir = .ok (a.cellId, a.cellEpoch, managed)
  inputs : ∃ r ∈ s.recorded, r.approval = a ∧ r.pin = s.dir.pin
  human : g.mode = .human →
    (a.mode = .human ∧ claimsReserved casefold a.actor = false) ∨
      (a.mode = .replay ∧
        cellEvidence s.dir = .ok (a.cellId, a.cellEpoch, false) ∧
        ctx.cfg.scm = "local")

/-- Every gate up to the first rejection is decided, and none behind it. -/
structure GateAuthority (digests : Digests D) (s : Run D) (ctx : Ctx) : Prop where
  decided : ∀ g ∈ upToRejection s.dir.approvals ctx.gates,
    ∃ a, Stands casefold digests s ctx g a
  ended : ∀ g ∈ ctx.gates, g ∉ upToRejection s.dir.approvals ctx.gates →
    ∀ a ∈ s.dir.approvals, a.gate ≠ g.name

/-- The answer is a replay fixture's. -/
def Answer.isReplay (s : Run D) (ctx : Ctx) (a : Answer D) : Bool :=
  match a.approval casefold s ctx with
  | .ok approval => approval.mode == .replay
  | .error _ => false

/-- A reserved user name at the terminal is spelled as the last check knows it. -/
def Answer.UserKnown : Answer D → Prop
  | .terminal _ around =>
      claimsReserved casefold around.user = true → knownReserved around.user = true
  | _ => True

/-- A replay fixture answers only while the inputs of its context are pinned. -/
def Attributed (s : Run D) (turn : Turn D) : Prop :=
  match turn.task with
  | .answer ctx answer =>
      answer.UserKnown casefold ∧
        (answer.isReplay casefold s ctx = true → s.dir.pin = .holds (snapshot ctx))
  | _ => True

/-! ## Where the answers come from -/

theorem replayApproval_cases
    {gate : GateName} {fixture : Option ReplayFile} {managed : Bool} {scm : String}
    {now : Time} {a : Approval D}
    (h : replayApproval gate fixture managed scm now = .ok (some a)) :
    a.mode = .replay ∧ scm = "local" := by
  obtain ⟨loaded, -, h⟩ := bind_eq_ok h
  cases loaded with
  | none =>
      cases h
  | some entries =>
      dsimp only at h
      unfold replayRefusal at h
      split at h
      · cases h
      · rename_i hrefusal
        have hentry := Except.ok.inj h
        obtain ⟨e, -, rfl⟩ := Option.map_eq_some_iff.mp hentry
        refine ⟨rfl, ?_⟩
        split at hrefusal
        · cases hrefusal
        · split at hrefusal
          · cases hrefusal
          · rename_i hscm
            exact not_not.mp hscm

/-- What a response can become. -/
theorem approvalFromResponse_cases
    {gate : GateName} {mode : GateMode} {response : Response}
    {fixture : Option ReplayFile} {managed : Bool} {scm : String} {now : Time}
    {a : Approval D}
    (h : approvalFromResponse casefold gate mode response fixture managed scm now =
      .ok a) :
    (a.mode = .replay ∧ scm = "local") ∨ a.mode = .auto ∨
      (a.mode = .human ∧ claimsReserved casefold a.actor = false) := by
  obtain ⟨_, -, h⟩ := bind_eq_ok h
  cases response with
  | missing =>
      obtain ⟨replay, hreplay, h⟩ := bind_eq_ok h
      cases replay with
      | none =>
          cases h
      | some r =>
          cases h
          exact Or.inl (replayApproval_cases hreplay)
  | malformed kind =>
      cases h
  | mapping chosen user respondedAt =>
      dsimp only at h
      split at h
      · cases h
      · split at h
        · obtain ⟨_, -, h⟩ := bind_eq_ok h
          cases h
          exact Or.inr (Or.inl rfl)
        · obtain ⟨_, hreserved, h⟩ := bind_eq_ok h
          split at h
          · cases h
          · cases h
            rw [ensure_eq_ok] at hreserved
            exact Or.inr (Or.inr ⟨rfl, Bool.not_eq_true' _ ▸ hreserved⟩)

theorem cliApprover_cases
    {ctx : Ctx} {gate : Gate}
    {evidence : Except Refusal (Option String × Option Nat × Bool)}
    {around : Surroundings D} {now : Time} {a : Approval D}
    (h : cliApprover ctx gate evidence around now = .ok a) :
    (a.mode = .replay ∧ ctx.cfg.scm = "local") ∨ a.mode = .auto ∨ a.mode = .policy ∨
      (a.mode = .human ∧ a.actor = around.user) := by
  unfold cliApprover at h
  cases hmode : gate.mode with
  | policy =>
      rw [hmode] at h
      obtain ⟨decision, -, h⟩ := bind_eq_ok h
      cases h
      exact Or.inr (Or.inr (Or.inl rfl))
  | auto =>
      rw [hmode] at h
      cases h
      exact Or.inr (Or.inl rfl)
  | human =>
      rw [hmode] at h
      obtain ⟨_, -, h⟩ := bind_eq_ok h
      obtain ⟨replay, hreplay, h⟩ := bind_eq_ok h
      cases replay with
      | some r =>
          cases h
          exact Or.inl (replayApproval_cases hreplay)
      | none =>
          obtain ⟨_, -, h⟩ := bind_eq_ok h
          cases h
          exact Or.inr (Or.inr (Or.inr ⟨rfl, rfl⟩))

/-- A replay answer is given where nothing is published. -/
theorem Answer.scm_of_replay {s : Run D} {ctx : Ctx} {answer : Answer D} {a : Approval D}
    (h : answer.approval casefold s ctx = .ok a)
    (hmode : a.mode = .replay) :
    ctx.cfg.scm = "local" := by
  cases answer with
  | response gate mode response fixture jobManaged =>
      rcases approvalFromResponse_cases casefold h with h | h | h
      · exact h.2
      · simp [hmode] at h
      · simp [hmode] at h
  | policy gate decision =>
      obtain ⟨d, -, h⟩ := bind_eq_ok h
      cases h
      cases hmode
  | terminal gate around =>
      rcases cliApprover_cases h with h | h | h | h
      · exact h.2
      · simp [hmode] at h
      · simp [hmode] at h
      · simp [hmode] at h

/-- A person's answer is given under a name that is free, or that the last check knows. -/
theorem Answer.actor_of_human {s : Run D} {ctx : Ctx} {answer : Answer D} {a : Approval D}
    (h : answer.approval casefold s ctx = .ok a)
    (hmode : a.mode = .human)
    (hknown : answer.UserKnown casefold)
    (hreserved : claimsReserved casefold a.actor = true) :
    knownReserved a.actor = true := by
  cases answer with
  | response gate mode response fixture jobManaged =>
      rcases approvalFromResponse_cases casefold h with h | h | h
      · simp [hmode] at h
      · simp [hmode] at h
      · simp [hreserved] at h
  | policy gate decision =>
      obtain ⟨d, -, h⟩ := bind_eq_ok h
      cases h
      cases hmode
  | terminal gate around =>
      rcases cliApprover_cases h with h | h | h | h
      · simp [hmode] at h
      · simp [hmode] at h
      · simp [hmode] at h
      · rw [h.2] at hreserved ⊢
        exact hknown hreserved

/-! ## The invariant -/

/-- Where each recorded decision comes from. -/
structure Sourced (digests : Digests D) (r : Recording D) : Prop where
  inputs : ∃ inputs, r.pin = .holds inputs ∧
    r.approval.inputsDigest = some (digests.inputs inputs)
  human : r.approval.mode = .human → claimsReserved casefold r.approval.actor = true →
    knownReserved r.approval.actor = true
  replay : r.approval.mode = .replay →
    r.pin = .holds (snapshot r.ctx) ∧ r.ctx.cfg.scm = "local"

/-- The decisions of the run are recorded ones, and each is sourced. -/
structure Traced (digests : Digests D) (s : Run D) : Prop where
  recorded : ∀ a ∈ s.dir.approvals, ∃ r ∈ s.recorded, r.approval = a
  sourced : ∀ r ∈ s.recorded, Sourced casefold digests r

variable {casefold}
variable {digests : Digests D}

/-- The writes that record no decision. -/
def Write.Undeciding : Write D → Prop
  | .approval _ _ => False
  | _ => True

theorem Write.Undeciding.decisions {w : Write D} (hw : w.Undeciding) (t : Time)
    (s : Run D) :
    (w.perform t s).dir.approvals = s.dir.approvals ∧
      (w.perform t s).recorded = s.recorded := by
  cases w with
  | approval => exact hw.elim
  | _ => exact ⟨rfl, rfl⟩

theorem Traced.performAll {writes : List (Write D)} {elapsed : List Time} {s : Run D}
    (hwrites : ∀ w ∈ writes, w.Undeciding)
    (hs : Traced casefold digests s) :
    Traced casefold digests (performAll writes elapsed s) := by
  refine performAll_invariant (fun w hw t s hs => ?_) elapsed hs
  obtain ⟨happrovals, hrecorded⟩ := (hwrites w hw).decisions t s
  constructor
  · rw [happrovals, hrecorded]
    exact hs.recorded
  · rw [hrecorded]
    exact hs.sourced

theorem traced_fresh (clock : Time) (artifacts : String → Option String) :
    Traced casefold digests (Run.fresh clock artifacts) where
  recorded := by
    intro a ha
    cases ha
  sourced := by
    intro r hr
    cases hr

variable [DecidableEq D]

theorem undeciding_of_writes {s : Run D} {op : Op D} {writes : List (Write D)}
    (hop : ∀ ctx a, op ≠ .record ctx a)
    (h : op.writes digests s = .ok writes) :
    ∀ w ∈ writes, w.Undeciding := by
  have hbinding : ∀ binding : Option CellBinding,
      ∀ w ∈ (bindingWrites binding : List (Write D)), w.Undeciding := by
    rintro (_ | binding) w hw
    · cases hw
    · cases List.mem_singleton.mp hw
      trivial
  cases op with
  | prepare ctx =>
      rcases prepare_cases h with rfl | rfl
      · exact hbinding _
      · intro w hw
        simp only [List.mem_cons] at hw
        rcases hw with rfl | rfl | rfl | rfl | hw
        · trivial
        · trivial
        · trivial
        · trivial
        · exact hbinding _ w hw
  | reaccept actor reason =>
      obtain ⟨record, rfl⟩ := reaccept_cases h
      intro w hw
      simp only [List.mem_cons, List.not_mem_nil, or_false] at hw
      rcases hw with rfl | rfl | rfl | rfl <;> trivial
  | record ctx a =>
      exact absurd rfl (hop ctx a)
  | artifact path content =>
      cases h
      intro w hw
      cases List.mem_singleton.mp hw
      trivial
  | cell file =>
      cases h
      intro w hw
      cases List.mem_singleton.mp hw
      trivial

theorem Traced.step_of_not_record {s : Run D} {op : Op D} {elapsed : List Time}
    (hs : Traced casefold digests s)
    (hop : ∀ ctx a, op ≠ .record ctx a) :
    Traced casefold digests (step digests s ⟨op, elapsed⟩) := by
  unfold step
  cases hwrites : op.writes digests s with
  | error e =>
      exact hs
  | ok writes =>
      exact hs.performAll (undeciding_of_writes hop hwrites)

/-- A recorded answer is sourced by the context it was given in. -/
theorem Traced.step_record {s : Run D} {ctx : Ctx} {answer : Answer D}
    {a : Approval D} {elapsed : List Time}
    (hs : Traced casefold digests s)
    (hanswer : answer.approval casefold s ctx = .ok a)
    (hknown : answer.UserKnown casefold)
    (hpin : a.mode = .replay → s.dir.pin = .holds (snapshot ctx)) :
    Traced casefold digests (step digests s ⟨.record ctx a, elapsed⟩) := by
  unfold step
  simp only [Op.writes]
  cases hrecord : recordApproval digests s.dir s.clock ctx a with
  | error e =>
      exact hs
  | ok writes =>
      obtain ⟨artifact, digest, cellId, cellEpoch, managed, inputs, -, -, -, hinputs, -,
        rfl⟩ := recordApproval_cases hrecord
      cases elapsed with
      | nil =>
          simpa using hs
      | cons t rest =>
          simp only [performAll_cons, performAll_done]
          constructor
          · intro b hb
            rcases List.mem_append.mp hb with hb | hb
            · obtain ⟨r, hr, heq⟩ := hs.recorded b (List.mem_filter.mp hb).1
              exact ⟨r, List.mem_append_left _ hr, heq⟩
            · cases List.mem_singleton.mp hb
              exact ⟨_, List.mem_append_right _ List.mem_cons_self, rfl⟩
          · intro r hr
            rcases List.mem_append.mp hr with hr | hr
            · exact hs.sourced r hr
            · cases List.mem_singleton.mp hr
              refine ⟨⟨inputs, hinputs, rfl⟩, fun hmode hreserved => ?_,
                fun hmode => ⟨hpin hmode, ?_⟩⟩
              · exact answer.actor_of_human casefold (a := a) hanswer hmode hknown hreserved
              · exact answer.scm_of_replay casefold (a := a) hanswer hmode

theorem Traced.advance {s : Run D} {turn : Turn D}
    (hs : Traced casefold digests s)
    (hturn : Attributed casefold s turn) :
    Traced casefold digests (advance casefold digests s turn) := by
  obtain ⟨task, elapsed⟩ := turn
  unfold Gates.advance
  cases task with
  | prepare ctx =>
      exact hs.step_of_not_record (by rintro _ _ ⟨⟩)
  | reaccept actor reason =>
      exact hs.step_of_not_record (by rintro _ _ ⟨⟩)
  | artifact path content =>
      exact hs.step_of_not_record (by rintro _ _ ⟨⟩)
  | cell file =>
      exact hs.step_of_not_record (by rintro _ _ ⟨⟩)
  | answer ctx answer =>
      obtain ⟨hknown, hpin⟩ := hturn
      simp only [Task.op]
      cases hanswer : answer.approval casefold s ctx with
      | error e =>
          exact hs
      | ok a =>
          refine hs.step_record hanswer hknown fun hmode => hpin ?_
          simp [Answer.isReplay, hanswer, hmode]

/-! ## The walk over the gates -/

omit [DecidableEq D] in
theorem mem_of_mem_upToRejection {approvals : List (Approval D)} {gates : List Gate}
    {g : Gate}
    (h : g ∈ upToRejection approvals gates) :
    g ∈ gates := by
  induction gates with
  | nil =>
      exact h
  | cons first rest ih =>
      unfold upToRejection at h
      split at h
      · exact List.mem_cons.mpr (Or.inl (List.mem_singleton.mp h))
      · rcases List.mem_cons.mp h with rfl | h
        · exact List.mem_cons_self
        · exact List.mem_cons_of_mem _ (ih h)

omit [DecidableEq D] in
/-- A decision that passes and is traced stands. -/
theorem Passes.stands
    (hdistinct : Function.Injective digests.inputs)
    {s : Run D} {ctx : Ctx} {authority : Authority D} {inputs : AcceptedInputs}
    {g : Gate} {a : Approval D}
    (htraced : Traced casefold digests s)
    (hctx : (∃ a ∈ s.dir.approvals, a.mode = .replay) →
      s.dir.pin = .holds (snapshot ctx))
    (hcell : cellEvidence s.dir =
      .ok (authority.cellId, authority.cellEpoch, authority.managed))
    (hpin : s.dir.pin = .holds inputs)
    (hinputs : authority.inputsDigest = digests.inputs inputs)
    (hnodup : (s.dir.approvals.map Approval.gate).Nodup)
    (ha : a ∈ s.dir.approvals)
    (hpasses : Passes digests s.dir authority g a) :
    Stands casefold digests s ctx g a := by
  obtain ⟨r, hr, rfl⟩ := htraced.recorded a ha
  obtain ⟨⟨pinned, hpinned, hdigest⟩, hhuman, hreplay⟩ := htraced.sourced r hr
  -- equal digests: the decision was recorded under the inputs that are pinned now
  have heq : r.pin = s.dir.pin := by
    rw [hpasses.inputs, hinputs, Option.some.injEq] at hdigest
    rw [hpinned, hpin, hdistinct hdigest]
  have hcell' : cellEvidence s.dir =
      .ok (r.approval.cellId, r.approval.cellEpoch, authority.managed) := by
    rw [hcell, hpasses.cell.1, hpasses.cell.2]
  constructor
  · rw [← hpasses.gate]
    exact filter_gate_eq hnodup ha
  · exact hpasses.artifact
  · exact ⟨authority.managed, hcell'⟩
  · exact ⟨r, hr, rfl, heq⟩
  · intro hmode
    rcases hpasses.human hmode with hmode | hmode
    · left
      refine ⟨hmode, ?_⟩
      have hknown := hpasses.actor hmode
      cases hreserved : claimsReserved casefold r.approval.actor with
      | false =>
          rfl
      | true =>
          rw [hhuman hmode hreserved] at hknown
          cases hknown
    · right
      obtain ⟨hown, hscm⟩ := hreplay hmode
      have hsnapshot : snapshot r.ctx = snapshot ctx := by
        have := hown.symm.trans (heq.trans (hctx ⟨_, ha, hmode⟩))
        exact Control.holds.inj this
      refine ⟨hmode, ?_, ?_⟩
      · rw [hcell', hpasses.unmanaged hmode]
      · rw [← scm_eq_of_snapshot_eq hsnapshot]
        exact hscm

/-- **Gate authority.** -/
theorem gate_authority
    (casefold : String → String)
    (digests : Digests D)
    (hdistinct : Function.Injective digests.inputs)
    (clock : Time)
    (artifacts : String → Option String)
    (turns : List (Turn D))
    (hturns :
      AlongRun (advance casefold digests) (Attributed casefold)
        (.fresh clock artifacts) turns)
    (ctx : Ctx)
    (s : Run D)
    (hs : s = runFrom (advance casefold digests) (.fresh clock artifacts) turns)
    (hctx : (∃ a ∈ s.dir.approvals, a.mode = .replay) →
      s.dir.pin = .holds (snapshot ctx))
    (result : Bool × Option GateName)
    (hpassed : validateApprovals digests s.dir ctx s.dir.approvals = .ok result) :
    GateAuthority casefold digests s ctx := by
  have htraced : Traced casefold digests s := by
    rw [hs]
    exact runFrom_invariant (fun s turn hs hturn => hs.advance hturn)
      (traced_fresh clock artifacts) hturns
  obtain ⟨authority, inputs, hcell, hpin, hinputs, hnodup, hdecided, hended⟩ :=
    validateApprovals_spec hpassed
  constructor
  · intro g hg
    obtain ⟨a, ha, hpasses⟩ := hdecided g hg
    exact ⟨a, hpasses.stands hdistinct htraced hctx hcell hpin hinputs hnodup ha⟩
  · intro g hg hnot a ha heq
    obtain ⟨g', hg', hname⟩ := List.mem_map.mp (hended a ha)
    -- no gate is met twice
    have hsame : g' = g :=
      List.inj_on_of_nodup_map ctx.nodup_gates (mem_of_mem_upToRejection hg') hg
        (hname.trans heq)
    exact hnot (hsame ▸ hg')

end Recorded

/-! ## What is not checked -/

namespace Unchecked

/-- Distinct snapshots have distinct digests. -/
def digests : Digests (String ⊕ AcceptedInputs) where
  artifact := Sum.inl
  inputs := Sum.inr

/-- Case folding, for names of ASCII letters. -/
def casefold (name : String) : String :=
  String.ofList (name.toList.map Char.toLower)

/-- A run that publishes through `scm`. -/
def ctx (scm : String) : Ctx where
  cfg := ⟨fun name => if name = "scm" then scm else "", none⟩
  host := ⟨fun _ => none, fun _ => none, [], "", ""⟩
  issue := ⟨"7", "an issue", "the body", []⟩
  blueprint := none
  binding := none

def artifacts : String → Option String :=
  fun path =>
    if path = "intent.md" then some "the intent"
    else if path = "plan.md" then some "the plan"
    else none

def intentGate : Gate :=
  ⟨.intent, "intent.md", .human⟩

def planGate : Gate :=
  ⟨.plan, "plan.md", .human⟩

/-- A terminal at which `user` approves, unless a fixture answers. -/
def around (user : String) (fixture : Option ReplayFile) :
    Surroundings (String ⊕ AcceptedInputs) where
  fixture := fixture
  user := user
  confirmed := true
  decision := .error .answeredByBackend

def fixture : ReplayFile :=
  .fixture "the fixture" [(.intent, ⟨.approve, "demo"⟩), (.plan, ⟨.approve, "demo"⟩)]

/-- The user of the terminal is called `AUTO`. -/
def reservedUser : List (Turn (String ⊕ AcceptedInputs)) :=
  [⟨.prepare (ctx "local"), [1, 1, 1, 1]⟩,
    ⟨.answer (ctx "local") (.terminal intentGate (around "AUTO" none)), [1]⟩,
    ⟨.answer (ctx "local") (.terminal planGate (around "AUTO" none)), [1]⟩]

/--
While a local run waits at its gates, the inputs are re-accepted and the run is
admitted again for GitHub; then the fixture of the local run answers.
-/
def carriedFixture : List (Turn (String ⊕ AcceptedInputs)) :=
  [⟨.prepare (ctx "local"), [1, 1, 1, 1]⟩,
    ⟨.reaccept "op" "publish it", [1, 1, 1, 1]⟩,
    ⟨.prepare (ctx "github"), [1, 1, 1, 1]⟩,
    ⟨.answer (ctx "local") (.terminal intentGate (around "op" (some fixture))), [1]⟩,
    ⟨.answer (ctx "local") (.terminal planGate (around "op" (some fixture))), [1]⟩]

/-- A person answers the intent gate, and the fixture the plan gate. -/
def attributed : List (Turn (String ⊕ AcceptedInputs)) :=
  [⟨.prepare (ctx "local"), [1, 1, 1, 1]⟩,
    ⟨.answer (ctx "local")
      (.response .intent .human
        (.mapping (some ["Approve"]) (.value (.text "alice")) (some 9)) none false), [1]⟩,
    ⟨.answer (ctx "local") (.terminal planGate (around "op" (some fixture))), [1]⟩]

/-- The run behind the turns. -/
def after (turns : List (Turn (String ⊕ AcceptedInputs))) :
    Run (String ⊕ AcceptedInputs) :=
  runFrom (advance casefold digests) (.fresh 0 artifacts) turns

end Unchecked

/-- Two runs whose decisions are validated and are no authority. -/
theorem unchecked_authority :
    (validateApprovals Unchecked.digests (Unchecked.after Unchecked.reservedUser).dir
          (Unchecked.ctx "local")
          (Unchecked.after Unchecked.reservedUser).dir.approvals = .ok (false, none) ∧
        ¬ GateAuthority Unchecked.casefold Unchecked.digests
          (Unchecked.after Unchecked.reservedUser) (Unchecked.ctx "local")) ∧
      (validateApprovals Unchecked.digests (Unchecked.after Unchecked.carriedFixture).dir
          (Unchecked.ctx "github")
          (Unchecked.after Unchecked.carriedFixture).dir.approvals = .ok (false, none) ∧
        ¬ GateAuthority Unchecked.casefold Unchecked.digests
          (Unchecked.after Unchecked.carriedFixture) (Unchecked.ctx "github")) := by
  refine ⟨⟨rfl, fun h => ?_⟩, ⟨rfl, fun h => ?_⟩⟩
  · obtain ⟨a, ha⟩ := h.decided Unchecked.intentGate List.mem_cons_self
    have honly := List.head_eq_of_cons_eq ha.only
    rcases ha.human rfl with ⟨-, hactor⟩ | ⟨hmode, -⟩
    · rw [← honly] at hactor
      exact absurd hactor (by decide)
    · rw [← honly] at hmode
      cases hmode
  · obtain ⟨a, ha⟩ := h.decided Unchecked.intentGate List.mem_cons_self
    have honly := List.head_eq_of_cons_eq ha.only
    rcases ha.human rfl with ⟨hmode, -⟩ | ⟨-, -, hscm⟩
    · rw [← honly] at hmode
      cases hmode
    · exact absurd hscm (by decide)

/-- The decisions of a person and of a fixture are authority over a local run. -/
theorem gate_authority_attributed :
    GateAuthority Unchecked.casefold Unchecked.digests
      (Unchecked.after Unchecked.attributed) (Unchecked.ctx "local") :=
  gate_authority Unchecked.casefold Unchecked.digests
    (fun _ _ h => Sum.inr.inj h) 0 Unchecked.artifacts Unchecked.attributed
    ⟨trivial, ⟨trivial, fun _ => rfl⟩,
      ⟨fun h => absurd h (by decide), fun _ => rfl⟩, trivial⟩
    (Unchecked.ctx "local") _ rfl (fun _ => rfl) (false, none) rfl

end Gates
end SwFactory
