import SwFactory.Autonomy.System

/-!
# What a process knows

A process knows the decisions it has read, the policy it has loaded and the
evidence it has seen last.  `protocol` says what it must know where it binds a
decision or a publication and where it asks for a merge; every request keeps
to it, whatever the statements answer.
-/

namespace SwFactory
namespace Autonomy

open Machine
open Gates (GateName)

/-- Its request, the rows it has read, and what it has loaded and seen last. -/
structure View where
  request : Request
  decisions : Decisions
  loaded : Option Policy
  seen : Option Rows

/-- Nothing is read yet. -/
def View.initial (request : Request) : View where
  request := request
  decisions := fun _ => none
  loaded := none
  seen := none

def View.learn (l : View) (key : Key) (value : key.Value) : View :=
  { l with decisions := Function.update l.decisions key (some value) }

@[simp] theorem View.learn_self (l : View) (key : Key) (value : key.Value) :
    (l.learn key value).decisions key = some value := by
  simp [View.learn]

@[simp] theorem View.learn_of_ne (l : View) {key key' : Key} (value : key.Value)
    (h : key' ≠ key) :
    (l.learn key value).decisions key' = l.decisions key' := by
  simp [View.learn, h]

section Views

variable (service : Service)

/-- What a publication is bound with: two gates, and a patch that was planned. -/
def Publishes (request : Request) (decisions : Decisions) (cellId : String)
    (epoch : Nat) (publication : Publication) : Prop :=
  ∃ body intent plan, request = .publish body ∧
    decisions (.gate cellId epoch .intent) = some intent ∧
    decisions (.gate cellId epoch .plan) = some plan ∧
    intent.approval.inputsDigest = plan.approval.inputsDigest ∧
    publication.paths = Patch.patchPaths body.patch ∧
    ∀ path ∈ publication.paths,
      below (service.artifactPrefix cellId) path = true ∨ path ∈ plan.paths

/-- The evidence read last shows what the policy asks for. -/
def Inspected (policy : Policy) (cellId : String) (publication : Publication)
    (sha : String) (seen : Option Rows) : Prop :=
  ∃ rows snapshot, seen = some rows ∧
    autonomousSnapshot service.sha256 publication.evidence.artifactDigests rows =
      .ok snapshot ∧
    snapshot.pr.headSha = some sha ∧
    verifiedState policy (service.artifactPrefix cellId) publication.paths snapshot sha =
      .ok .ready

/-- A merge request has read the publication of its policy. -/
structure Holds (body : MergeBody) (publication : Publication) (policy : Policy)
    (number : Nat) (sha : String) (l : View) : Prop where
  request : l.request = .merge body
  recorded : l.decisions (.publication body.cellId body.epoch) = some publication
  loaded : l.loaded = some policy
  revision : publication.revision = policy.revision
  number : publication.receipt.prNumber = some number
  sha : publication.receipt.headRevision = sha

/-- What a process knows when it asks for a merge. -/
def Mergeable (l : View) (number : Nat) (sha : String) : Prop :=
  ∃ body publication policy, Holds body publication policy number sha l ∧
    Inspected service policy body.cellId publication sha l.seen

def protocol : Protocol Stmt Ans View where
  allow l stmt :=
    match stmt with
    | .bind (.gate cellId epoch gate) decision => decision.Approves cellId epoch gate
    | .bind (.publication cellId epoch) publication =>
        Publishes service l.request l.decisions cellId epoch publication
    | .mergeVerified number sha => Mergeable service l number sha
    | _ => True
  answers _ _ _ := True
  next l stmt a :=
    match stmt, a with
    | .policy, policy => { l with loaded := some policy }
    | .get key, some value => l.learn key value
    | .snapshot _ _, rows => { l with seen := rows.toOption }
    | _, _ => l

variable {service}
variable {α β : Type}

/-- The program keeps to the protocol, and knows `Q` where it ends. -/
abbrev Keeps (service : Service) (Q : View → Except Refusal α → Prop) (p : Method α)
    (l : View) : Prop :=
  Obeys (protocol service) Q p l

/-- The process ends with what it knew. -/
abbrev Quiet (l : View) (l' : View) (_ : Except Refusal α) : Prop :=
  l' = l

theorem keeps_ofExcept {Q : View → Except Refusal α → Prop} {x : Except Refusal α}
    {l : View}
    (h : Q l x) :
    Keeps service Q (.ofExcept x) l := by
  cases x with
  | error e => exact h
  | ok a => exact h

theorem keeps_ofExcept_bind {R : View → Except Refusal β → Prop} {x : Except Refusal α}
    {f : α → Method β} {l : View}
    (hok : ∀ a, x = .ok a → Keeps service R (f a) l)
    (herr : ∀ e, R l (.error e)) :
    Keeps service R (Prog.ofExcept x >>= f) l := by
  cases x with
  | error e => exact herr e
  | ok a => exact hok a rfl

theorem keeps_check_bind {R : View → Except Refusal β → Prop} {condition : Bool}
    {refusal : Refusal} {f : Unit → Method β} {l : View}
    (hok : condition = true → Keeps service R (f ()) l)
    (herr : ∀ e, R l (.error e)) :
    Keeps service R (check condition refusal >>= f) l :=
  keeps_ofExcept_bind (fun _ h => hok (ensure_eq_ok.mp h)) herr

/-- A program that learns nothing, and the rest. -/
theorem keeps_quiet_bind {R : View → Except Refusal β → Prop} {p : Method α}
    {f : α → Method β} {l : View}
    (hp : Keeps service (Quiet l) p l)
    (hok : ∀ a, Keeps service R (f a) l)
    (herr : ∀ e, R l (.error e)) :
    Keeps service R (p >>= f) l := by
  refine Obeys.bind hp ?_ ?_
  · rintro l' a rfl
    exact hok a
  · rintro l' e rfl
    exact herr e

theorem readCell_keeps (cellId : String) (l : View) :
    Keeps service (Quiet l) (readCell cellId) l := by
  refine ⟨trivial, fun row _ => ?_⟩
  cases row with
  | none => exact rfl
  | some row => exact rfl

theorem fenced_keeps (fence : Fence) (l : View) :
    Keeps service (Quiet l) (fenced fence) l := by
  refine keeps_check_bind (fun _ => ?_) (fun _ => rfl)
  refine keeps_quiet_bind (readCell_keeps _ _) (fun row => ?_) (fun _ => rfl)
  refine keeps_check_bind (fun _ => ?_) (fun _ => rfl)
  refine keeps_check_bind (fun _ => ?_) (fun _ => rfl)
  exact keeps_check_bind (fun _ => rfl) (fun _ => rfl)

/-- `authority` returns the policy that was loaded last. -/
theorem authority_keeps (fence : Fence) (revision baseBranch : Option String) (l : View) :
    Keeps service
      (fun l' r => l'.request = l.request ∧ l'.decisions = l.decisions ∧
        ∀ policy, r = .ok policy → l'.loaded = some policy)
      (authority service fence revision baseBranch) l := by
  have herr : ∀ l' : View, l'.request = l.request → l'.decisions = l.decisions →
      ∀ e : Refusal, l'.request = l.request ∧ l'.decisions = l.decisions ∧
        ∀ policy : Policy, Except.error e = Except.ok policy → l'.loaded = some policy := by
    intro l' hrequest hdecisions e
    exact ⟨hrequest, hdecisions, by rintro _ ⟨⟩⟩
  refine keeps_quiet_bind (fenced_keeps _ _) (fun row => ?_) (herr l rfl rfl)
  refine ⟨trivial, fun policy _ => ?_⟩
  refine keeps_ofExcept_bind (fun _ _ => ?_) (herr _ rfl rfl)
  exact ⟨rfl, rfl, by rintro _ ⟨⟩; rfl⟩

theorem requireEligible_keeps (policy : Policy) (cellId verb : String) (l : View) :
    Keeps service (Quiet l) (requireEligible service policy cellId verb) l := by
  refine ⟨trivial, fun issue _ => ?_⟩
  refine keeps_ofExcept_bind (fun issue _ => ?_) (fun _ => rfl)
  split
  · exact rfl
  · exact rfl

/-! ## Gates -/

theorem followsIntent_keeps (policy : Policy) (body : GateBody) (gate : GateName)
    (l : View) :
    Keeps service (fun _ _ => True) (followsIntent policy body gate) l := by
  unfold followsIntent
  split
  · refine ⟨trivial, fun intent _ => ?_⟩
    refine keeps_check_bind (fun _ => ?_) (fun _ => trivial)
    exact keeps_ofExcept trivial
  · trivial

theorem gateDecision_approves (policy : Policy) (body : GateBody) (gate : GateName)
    (now : Text.Time) (previous : Option GateDecision) :
    ((gateDecision policy body gate now).at previous).Approves body.cellId body.epoch
      gate := by
  cases previous with
  | none => exact ⟨rfl, rfl, rfl, rfl⟩
  | some previous => exact ⟨rfl, rfl, rfl, rfl⟩

theorem approve_keeps (body : GateBody) (l : View) :
    Keeps service (fun _ _ => True) (approve service body) l := by
  refine Obeys.bind (authority_keeps _ _ _ _) (fun l policy _ => ?_) (fun _ _ _ => trivial)
  refine keeps_ofExcept_bind (fun gate _ => ?_) (fun _ => trivial)
  refine keeps_quiet_bind (requireEligible_keeps _ _ _ _) (fun _ => ?_) (fun _ => trivial)
  refine keeps_check_bind (fun _ => ?_) (fun _ => trivial)
  refine keeps_ofExcept_bind (fun _ _ => ?_) (fun _ => trivial)
  refine Obeys.bind (followsIntent_keeps _ _ _ _) (fun l _ _ => ?_) (fun _ _ _ => trivial)
  refine ⟨trivial, fun now _ => ?_⟩
  refine keeps_check_bind (fun _ => ?_) (fun _ => trivial)
  refine keeps_check_bind (fun _ => ?_) (fun _ => trivial)
  refine ⟨trivial, fun previous _ => ?_⟩
  refine ⟨gateDecision_approves _ _ _ _ _, fun bound _ => ?_⟩
  exact keeps_ofExcept_bind (fun _ _ => trivial) (fun _ => trivial)

theorem policyGate_keeps (body : GateBody) (l : View) :
    Keeps service (fun _ _ => True) (policyGate service body) l := by
  refine Obeys.finish (approve_keeps body l) (fun l r _ => ?_)
  cases r with
  | ok approval =>
      trivial
  | error e =>
      cases e with
      | value message =>
          trivial
      | stage message =>
          refine ⟨trivial, fun bound _ => ?_⟩
          exact keeps_ofExcept_bind (fun _ _ => trivial) (fun _ => trivial)
      | refused status message =>
          refine ⟨trivial, fun bound _ => ?_⟩
          exact keeps_ofExcept_bind (fun _ _ => trivial) (fun _ => trivial)

/-! ## Publications -/

/-- What `checkGates` lets through of the paths of a patch. -/
theorem checkGates_ok {policy : Policy} {artifactPrefix : Path} {evidence : Evidence}
    {changed : List Path} {intent plan : GateDecision} {u : Unit}
    (h : checkGates policy artifactPrefix evidence changed intent plan = .ok u) :
    intent.approval.inputsDigest = plan.approval.inputsDigest ∧
      ∀ path ∈ changed, below artifactPrefix path = true ∨ path ∈ plan.paths := by
  obtain ⟨_, -, h⟩ := bind_eq_ok h
  obtain ⟨_, hinputs, h⟩ := bind_eq_ok h
  obtain ⟨_, -, h⟩ := bind_eq_ok h
  obtain ⟨_, hplanned, -⟩ := bind_eq_ok h
  refine ⟨by simpa using hinputs, fun path hpath => ?_⟩
  rw [ensure_eq_ok, List.all_eq_true] at hplanned
  have := hplanned path hpath
  simp only [Bool.or_eq_true, List.contains_iff_mem] at this
  exact this.symm

theorem answered_ok {gate : String} {answer : Option GateDecision}
    {decision : GateDecision}
    (h : answered gate answer = .ok decision) :
    answer = some decision := by
  cases answer with
  | none => cases h
  | some d => exact congrArg some (Except.ok.inj h)

/-- A decision to publish is one that may be bound, with any receipt. -/
theorem validatePublication_keeps (body : PublishBody) (l : View)
    (hrequest : l.request = .publish body) :
    Keeps service
      (fun l' r => ∀ decision receipt, r = .ok (some decision) →
        Publishes service l'.request l'.decisions body.cellId body.epoch
          ⟨decision, receipt⟩)
      (validatePublication service body) l := by
  refine keeps_quiet_bind (readCell_keeps _ _) (fun row => ?_)
    (by rintro e _ _ ⟨⟩)
  split
  · rintro _ _ ⟨⟩
  refine Obeys.bind (authority_keeps _ _ _ _) (fun l' policy h => ?_)
    (by rintro _ e - _ _ ⟨⟩)
  obtain ⟨hrequest', -, -⟩ := h
  refine keeps_quiet_bind (requireEligible_keeps _ _ _ _) (fun _ => ?_)
    (by rintro e _ _ ⟨⟩)
  split
  · rintro _ _ ⟨⟩
  rename_i evidence _
  refine keeps_ofExcept_bind (fun _ _ => ?_) (by rintro e _ _ ⟨⟩)
  refine ⟨trivial, fun intent _ => ?_⟩
  refine keeps_ofExcept_bind (fun intent hintent => ?_) (by rintro e _ _ ⟨⟩)
  cases answered_ok hintent
  refine ⟨trivial, fun plan _ => ?_⟩
  refine keeps_ofExcept_bind (fun plan hplan => ?_) (by rintro e _ _ ⟨⟩)
  cases answered_ok hplan
  refine keeps_ofExcept_bind (fun _ hgates => ?_) (by rintro e _ _ ⟨⟩)
  refine ⟨trivial, fun previous _ => ?_⟩
  refine keeps_check_bind (fun _ => ?_) (by rintro e _ _ ⟨⟩)
  rintro _ receipt ⟨⟩
  obtain ⟨hinputs, hplanned⟩ := checkGates_ok hgates
  have hviews : ∀ l'' : View, l''.request = l'.request →
      l''.decisions (.gate body.cellId body.epoch .intent) = some intent →
      l''.decisions (.gate body.cellId body.epoch .plan) = some plan →
      Publishes service l''.request l''.decisions body.cellId body.epoch
        ⟨⟨policy.revision, evidence, Patch.patchPaths body.patch⟩, receipt⟩ := by
    intro l'' hr hi hp
    exact ⟨body, intent, plan, by rw [hr, hrequest', hrequest], hi, hp, hinputs, rfl,
      hplanned⟩
  cases previous with
  | none =>
      exact hviews _ rfl (by simp [protocol]) (by simp [protocol])
  | some publication =>
      exact hviews _ rfl (by simp [protocol]) (by simp [protocol])

theorem publish_keeps (body : PublishBody) (l : View)
    (hrequest : l.request = .publish body) :
    Keeps service (fun _ _ => True) (publish service body) l := by
  refine keeps_quiet_bind (fenced_keeps _ _) (fun _ => ?_) (fun _ => trivial)
  refine keeps_check_bind (fun _ => ?_) (fun _ => trivial)
  refine keeps_check_bind (fun _ => ?_) (fun _ => trivial)
  refine keeps_check_bind (fun _ => ?_) (fun _ => trivial)
  refine keeps_check_bind (fun _ => ?_) (fun _ => trivial)
  refine Obeys.bind (validatePublication_keeps body l hrequest) (fun l autonomous h => ?_)
    (fun _ _ _ => trivial)
  refine ⟨trivial, fun receipt _ => ?_⟩
  refine keeps_ofExcept_bind (fun receipt _ => ?_) (fun _ => trivial)
  cases autonomous with
  | none =>
      trivial
  | some decision =>
      refine ⟨h decision receipt rfl, fun bound _ => ?_⟩
      exact keeps_ofExcept_bind (fun _ _ => trivial) (fun _ => trivial)

/-! ## Merges -/

/-- `inspect` reads evidence only; `ready` says what the evidence shows. -/
theorem inspect_keeps (policy : Policy) (cellId : String) (publication : Publication)
    (number : Nat) (sha : String) (l : View) :
    Keeps service
      (fun l' r => l'.request = l.request ∧ l'.decisions = l.decisions ∧
        l'.loaded = l.loaded ∧
        (r = .ok .ready → Inspected service policy cellId publication sha l'.seen))
      (inspect service policy cellId publication number sha) l := by
  refine ⟨trivial, fun rows _ => ?_⟩
  refine keeps_ofExcept_bind (fun rows hrows => ?_) (by rintro e; exact ⟨rfl, rfl, rfl, nofun⟩)
  subst hrows
  refine keeps_ofExcept_bind (fun snapshot hsnapshot => ?_)
    (by rintro e; exact ⟨rfl, rfl, rfl, nofun⟩)
  refine keeps_ofExcept_bind (fun merged hplaced => ?_)
    (by rintro e; exact ⟨rfl, rfl, rfl, nofun⟩)
  split
  · exact ⟨rfl, rfl, rfl, nofun⟩
  refine keeps_quiet_bind (requireEligible_keeps _ _ _ _) (fun _ => ?_)
    (by rintro e; exact ⟨rfl, rfl, rfl, nofun⟩)
  refine keeps_ofExcept ⟨rfl, rfl, rfl, fun hready => ?_⟩
  obtain ⟨_, hhead, -⟩ := bind_eq_ok hplaced
  simp only [ensure_eq_ok, Bool.and_eq_true, beq_iff_eq] at hhead
  exact ⟨rows, snapshot, rfl, hsnapshot, hhead.1, hready⟩

theorem applyMerge_keeps {body : MergeBody} {publication : Publication} {policy : Policy}
    {number : Nat} {sha : String} {l : View}
    (h : Holds body publication policy number sha l) :
    Keeps service (fun _ _ => True)
      (applyMerge service policy body.cellId publication number sha) l := by
  refine ⟨trivial, fun leased _ => ?_⟩
  refine keeps_ofExcept_bind (fun _ _ => ?_) (fun _ => trivial)
  refine Obeys.bind (inspect_keeps _ _ _ _ _ _) (fun l' state hlook => ?_)
    (fun _ _ _ => trivial)
  obtain ⟨hrequest, hdecisions, hloaded, hready⟩ := hlook
  cases state with
  | merged => trivial
  | pending reason => trivial
  | ready =>
      refine ⟨⟨body, publication, policy, ?_, hready rfl⟩, fun answered _ => ?_⟩
      · exact ⟨hrequest.trans h.request, by rw [hdecisions]; exact h.recorded,
          hloaded.trans h.loaded, h.revision, h.number, h.sha⟩
      refine keeps_ofExcept_bind (fun _ _ => ?_) (fun _ => trivial)
      refine Obeys.bind (inspect_keeps _ _ _ _ _ _) (fun l' state _ => ?_)
        (fun _ _ _ => trivial)
      cases state <;> trivial

theorem reconcileMerge_keeps {body : MergeBody} {publication : Publication}
    {policy : Policy} {number : Nat} {sha : String} {l : View}
    (h : Holds body publication policy number sha l) :
    Keeps service (fun l' _ => Holds body publication policy number sha l')
      (reconcileMerge service policy body.cellId publication number sha) l := by
  have hlook : Keeps service (fun l' (_ : Except Refusal (Option MergeState)) =>
      Holds body publication policy number sha l')
      (do
        attempt (ask (.lease "github.read"))
        let state ← inspect service policy body.cellId publication number sha
        return some state) l := by
    refine ⟨trivial, fun leased _ => ?_⟩
    refine keeps_ofExcept_bind (fun _ _ => ?_) (fun _ => h)
    have hsame : ∀ l' : View, l'.request = l.request → l'.decisions = l.decisions →
        l'.loaded = l.loaded → Holds body publication policy number sha l' := by
      intro l' hrequest hdecisions hloaded
      exact ⟨hrequest.trans h.request, by rw [hdecisions]; exact h.recorded,
        hloaded.trans h.loaded, h.revision, h.number, h.sha⟩
    refine Obeys.bind (inspect_keeps _ _ _ _ _ _) (fun l' state hlook => ?_)
      (fun l' e hlook => ?_)
    · exact hsame l' hlook.1 hlook.2.1 hlook.2.2.1
    · exact hsame l' hlook.1 hlook.2.1 hlook.2.2.1
  refine Obeys.finish hlook (fun l' r hr => ?_)
  cases r with
  | ok state => exact hr
  | error e => cases e <;> exact hr

theorem merge_keeps (body : MergeBody) (l : View)
    (hrequest : l.request = .merge body) :
    Keeps service (fun _ _ => True) (merge service body) l := by
  refine Obeys.bind (authority_keeps _ _ _ _) (fun l' policy h => ?_) (fun _ _ _ => trivial)
  obtain ⟨hrequest', -, hloaded⟩ := h
  refine ⟨trivial, fun recorded _ => ?_⟩
  refine keeps_ofExcept_bind (fun publication hauthorized => ?_) (fun _ => trivial)
  obtain ⟨rfl, hrevision⟩ : recorded = some publication ∧
      publication.revision = policy.revision := by
    unfold authorized at hauthorized
    split at hauthorized
    · cases hauthorized
    split at hauthorized
    · rename_i hrevision
      cases hauthorized
      exact ⟨rfl, hrevision⟩
    · cases hauthorized
  refine keeps_ofExcept_bind (fun target htarget => ?_) (fun _ => trivial)
  obtain ⟨number, sha⟩ := target
  obtain ⟨hnumber, hsha⟩ : publication.receipt.prNumber = some number ∧
      publication.receipt.headRevision = sha := by
    unfold Publication.target at htarget
    split at htarget
    · split at htarget
      · cases htarget
        exact ⟨by assumption, rfl⟩
      · cases htarget
    · cases htarget
  have hholds : Holds body publication policy number sha
      (l'.learn (.publication body.cellId body.epoch) publication) :=
    ⟨hrequest'.trans hrequest, View.learn_self _ _ _, hloaded policy rfl, hrevision,
      hnumber, hsha⟩
  refine ⟨trivial, fun leased _ => ?_⟩
  refine keeps_ofExcept_bind (fun _ _ => ?_) (fun _ => trivial)
  refine Obeys.bind (inspect_keeps _ _ _ _ _ _) (fun l'' state hlook => ?_)
    (fun _ _ _ => trivial)
  obtain ⟨hrequest'', hdecisions, hloaded', -⟩ := hlook
  have hholds'' : Holds body publication policy number sha l'' :=
    ⟨hrequest''.trans hholds.request, by rw [hdecisions]; exact hholds.recorded,
      hloaded'.trans hholds.loaded, hrevision, hnumber, hsha⟩
  have hclaimed : ∀ l₃, Holds body publication policy number sha l₃ →
      Keeps service (fun _ _ => True)
        (do
          let _ ← attempt (ask (.begin body.operationKey))
          applyMerge service policy body.cellId publication number sha) l₃ := by
    intro l₃ hholds₃
    refine ⟨trivial, fun begun _ => ?_⟩
    exact keeps_ofExcept_bind (fun _ _ => applyMerge_keeps hholds₃) (fun _ => trivial)
  cases state
  case pending reason => trivial
  -- merged or ready: the mutation is begun, and observed first if it is in doubt
  all_goals
    refine ⟨trivial, fun begun _ => ?_⟩
    refine keeps_ofExcept_bind (fun begun _ => ?_) (fun _ => trivial)
    cases begun with
    | committed state => trivial
    | execute => exact applyMerge_keeps hholds''
    | observe =>
        refine Obeys.bind (reconcileMerge_keeps hholds'') (fun l₃ state hholds₃ => ?_)
          (fun _ _ _ => trivial)
        rcases state with - | (- | reason | -)
        · trivial
        · trivial
        · exact hclaimed l₃ hholds₃
        · exact hclaimed l₃ hholds₃

theorem Request.prog_keeps (request : Request) (l : View) (h : l.request = request) :
    Keeps service (fun _ _ => True) (request.prog service) l := by
  subst h
  cases hrequest : l.request with
  | gate body =>
      exact Obeys.bind (policyGate_keeps body l) (fun _ _ _ => trivial)
        (fun _ _ _ => trivial)
  | publish body =>
      exact Obeys.bind (publish_keeps body l hrequest) (fun _ _ _ => trivial)
        (fun _ _ _ => trivial)
  | merge body =>
      exact Obeys.bind (merge_keeps body l hrequest) (fun _ _ _ => trivial)
        (fun _ _ _ => trivial)

end Views

end Autonomy
end SwFactory
