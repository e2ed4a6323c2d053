import SwFactory.Publication.Pushing

/-!
# Whose commits a push replaces

The head of a branch is replaced by a commit that does not contain it only if
both commits name the same instance.  The pull request that a publication
returns is one of its branch, or one that carries the marker of its work.
-/

namespace SwFactory
namespace Publication

open Lexical
open Machine

section Ownership

variable (ancestor : Text → Text → Bool)
variable (trailersOf : Text → Text)

/-- The instance that a commit names. -/
def instanceNamed (commit : Text) : Text :=
  firstValue (trailersOf commit)

/-- The commit names an instance, and the new one names the same. -/
def SameInstance (old new : Text) : Prop :=
  instanceNamed trailersOf old ≠ [] ∧
    instanceNamed trailersOf new = instanceNamed trailersOf old

/-- What a push replaced is contained in what it pushed, or belongs to the same instance. -/
def Push.Justified (push : Push) : Prop :=
  ∀ old, push.replaced = some old →
    ancestor old push.new = true ∨ SameInstance trailersOf old push.new

/-- A lease is taken only on a commit of the instance of the clone's own head. -/
def ownership : Protocol Git Reply (Option Text) where
  allow := fun head command =>
    match command with
    | .pushLease _ leased => ∃ new, head = some new ∧ SameInstance trailersOf leased new
    | _ => True
  answers := fun head command answer =>
    match command with
    | .trailers .head => ∀ message, answer = Except.ok message →
        ∃ new, head = some new ∧ message = trailersOf new
    | .trailers (.sha commit) => ∀ message, answer = Except.ok message →
        message = trailersOf commit
    | _ => True
  next := fun head command answer =>
    match command with
    | .am _ =>
        match answer with
        | Except.ok commit => some commit
        | Except.error _ => head
    | _ => head

/-- The local heads are those of the clones, and every push so far was justified. -/
structure Consistent (loc : Nat → Option Text) (remote : Remote) : Prop where
  heads : ∀ pid, loc pid = remote.heads pid
  justified : ∀ push ∈ remote.pushes, push.Justified ancestor trailersOf

variable {ancestor : Text → Text → Bool}
variable {trailersOf : Text → Text}

/-- The revision a trailer is read of, as a commit. -/
def Rev.names (rev : Rev) (head : Option Text) (commit : Text) : Prop :=
  match rev with
  | .head => head = some commit
  | .sha name => name = commit

theorem obeys_call {command : Git} {head : Option Text}
    {Q : Option Text → Except StageError (Value command) → Prop} (hallow : (ownership trailersOf).allow head command)
    (hnext : ∀ answer, (ownership trailersOf).answers head command answer →
      Q ((ownership trailersOf).next head command answer) answer) :
    Obeys (ownership trailersOf) Q (call command) head := by
  refine ⟨hallow, fun answer hanswer => ?_⟩
  have hQ := hnext answer hanswer
  cases answer with
  | ok value => exact hQ
  | error e => exact hQ

/-- `_instance_of` reads the instance of the revision. -/
theorem instanceOf_obeys {rev : Rev} {head : Option Text} :
    Obeys (ownership trailersOf)
      (fun head' result => head' = head ∧ ∀ value, result = .ok value →
        ∃ commit, rev.names head commit ∧ value = instanceNamed trailersOf commit)
      (instanceOf rev) head := by
  unfold instanceOf
  refine Obeys.bind (Q := fun head' _ => head' = head) ?_ ?_ ?_
  · unfold Prog.handle
    refine Obeys.finish (Q := fun head' _ => head' = head) ?_ ?_
    · exact obeys_call trivial fun _ _ => rfl
    · rintro head' result rfl
      cases result with
      | ok value => exact rfl
      | error e => exact obeys_call trivial fun _ _ => rfl
  · rintro head' value rfl
    refine Obeys.bind (Q := fun head'' result => head'' = head' ∧ ∀ message,
      result = .ok message → ∃ commit, rev.names head' commit ∧ message = trailersOf commit)
      ?_ ?_ ?_
    · refine obeys_call trivial fun answer hanswer => ⟨rfl, fun message hmessage => ?_⟩
      cases rev with
      | head => exact hanswer message hmessage
      | sha name => exact ⟨name, rfl, hanswer message hmessage⟩
    · rintro head'' message ⟨rfl, hread⟩
      refine ⟨rfl, ?_⟩
      rintro _ ⟨⟩
      obtain ⟨commit, hnames, hmessage⟩ := hread message rfl
      exact ⟨commit, hnames, congrArg firstValue hmessage⟩
    · rintro head'' e ⟨rfl, -⟩
      exact ⟨rfl, by rintro _ ⟨⟩⟩
  · rintro head' e rfl
    exact ⟨rfl, by rintro _ ⟨⟩⟩

theorem replaceHead_obeys {branch remoteHead : Text} {head : Option Text} :
    Obeys (ownership trailersOf) (fun _ _ => True) (replaceHead branch remoteHead) head := by
  unfold replaceHead
  refine Obeys.bind instanceOf_obeys ?_ fun _ _ _ => trivial
  rintro _ mine ⟨rfl, hmine⟩
  refine Obeys.bind instanceOf_obeys ?_ fun _ _ _ => trivial
  rintro _ holder ⟨rfl, hholder⟩
  split
  · trivial
  · rename_i hsame
    rw [not_or, not_not] at hsame
    obtain ⟨new, hnew, hmineEq⟩ := hmine mine rfl
    obtain ⟨_, rfl, hholderEq⟩ := hholder holder rfl
    have howned : SameInstance trailersOf remoteHead new :=
      ⟨fun hempty => hsame.1 (hsame.2.symm.trans (hholderEq.trans hempty)),
        hmineEq.symm.trans (hsame.2.symm.trans hholderEq)⟩
    unfold pushLeased Prog.handle
    refine Obeys.finish (Q := fun _ _ => True) ?_ ?_
    · exact obeys_call ⟨new, hnew, howned⟩ fun _ _ => trivial
    · intro head' result _
      cases result with
      | ok value => trivial
      | error e =>
          dsimp only
          split <;> trivial

/-- A command that takes no lease keeps to the protocol. -/
theorem call_obeys {command : Git} {head : Option Text}
    (hplain : ∀ branch leased, command ≠ .pushLease branch leased) :
    Obeys (ownership trailersOf) (fun _ _ => True) (call command) head := by
  refine obeys_call ?_ fun _ _ => trivial
  cases command with
  | pushLease branch leased => exact absurd rfl (hplain branch leased)
  | _ => trivial

theorem bind_obeys {α β : Type} {p : Script α} {f : α → Script β} {head : Option Text}
    (hp : Obeys (ownership trailersOf) (fun _ _ => True) p head)
    (hf : ∀ head value, Obeys (ownership trailersOf) (fun _ _ => True) (f value) head) :
    Obeys (ownership trailersOf) (fun _ _ => True) (p >>= f) head :=
  Obeys.bind hp (fun head value _ => hf head value) fun _ _ _ => trivial

theorem pushPlain_obeys {branch : Text} {head : Option Text} :
    Obeys (ownership trailersOf) (fun _ _ => True) (pushPlain branch) head :=
  call_obeys (by rintro _ _ ⟨⟩)

theorem applyAndPush_obeys {branch patch : Text} {head : Option Text} :
    Obeys (ownership trailersOf) (fun _ _ => True) (applyAndPush branch patch) head := by
  refine bind_obeys (call_obeys (by rintro _ _ ⟨⟩)) fun head _ => ?_
  refine bind_obeys (call_obeys (by rintro _ _ ⟨⟩)) fun head _ => ?_
  split
  · refine bind_obeys (call_obeys (by rintro _ _ ⟨⟩)) fun head out => ?_
    unfold pushOver
    split
    · exact pushPlain_obeys
    · exact replaceHead_obeys
  · exact pushPlain_obeys

theorem ofExcept_obeys {α : Type} {result : Except StageError α} {head : Option Text} :
    Obeys (ownership trailersOf) (fun _ _ => True) (Prog.ofExcept result) head := by
  cases result <;> trivial

theorem ensureLabels_obeys {labels : List Text} {head : Option Text} :
    Obeys (ownership trailersOf) (fun _ _ => True) (ensureLabels labels) head := by
  induction labels generalizing head with
  | nil => trivial
  | cons label rest ih => exact bind_obeys (call_obeys (by rintro _ _ ⟨⟩)) fun head _ => ih

theorem existingPrUrl_obeys {branch key : Text} {head : Option Text} :
    Obeys (ownership trailersOf) (fun _ _ => True) (existingPrUrl branch key) head := by
  refine bind_obeys (bind_obeys (call_obeys (by rintro _ _ ⟨⟩)) fun _ _ => trivial) ?_
  intro head found
  cases found with
  | some url => trivial
  | none => exact bind_obeys (call_obeys (by rintro _ _ ⟨⟩)) fun _ _ => trivial

theorem presentPr_obeys {request : Request} {head : Option Text} :
    Obeys (ownership trailersOf) (fun _ _ => True) (presentPr request) head := by
  refine bind_obeys existingPrUrl_obeys fun head found => ?_
  cases found with
  | some url => exact bind_obeys (call_obeys (by rintro _ _ ⟨⟩)) fun _ _ => trivial
  | none => exact bind_obeys (call_obeys (by rintro _ _ ⟨⟩)) fun _ _ => ofExcept_obeys

/-- The two publications of the repository. -/
inductive Caller
  | localScm (request : Request)
  | gitHub (request : Request)

def Caller.program : Caller → Script Text
  | .localScm request => publishLocally request
  | .gitHub request => publish request

theorem program_obeys (caller : Caller) {head : Option Text} :
    Obeys (ownership trailersOf) (fun _ _ => True) caller.program head := by
  cases caller with
  | localScm request =>
      refine bind_obeys ofExcept_obeys fun head _ => ?_
      refine bind_obeys (call_obeys (by rintro _ _ ⟨⟩)) fun head _ => ?_
      exact bind_obeys applyAndPush_obeys fun _ _ => trivial
  | gitHub request =>
      refine bind_obeys ofExcept_obeys fun head _ => ?_
      refine bind_obeys (call_obeys (by rintro _ _ ⟨⟩)) fun head _ => ?_
      refine bind_obeys applyAndPush_obeys fun head _ => ?_
      exact bind_obeys ensureLabels_obeys fun head _ => presentPr_obeys

/-! ## The invariant of the remote -/

/-- A push that is justified keeps the remote consistent. -/
theorem Consistent.pushed {loc : Nat → Option Text} {remote : Remote}
    (h : Consistent ancestor trailersOf loc remote) {pid : Nat} {branch : Text}
    {accepts : Text → Bool} {input : Input}
    (haccepts : ∀ new, loc pid = some new → accepts new = true →
      Push.Justified ancestor trailersOf ⟨branch, remote.refs branch, new⟩) :
    Consistent ancestor trailersOf loc (remote.pushed pid branch accepts input).2 := by
  unfold Remote.pushed
  cases hhead : remote.heads pid with
  | none => exact h
  | some new =>
      dsimp only
      split
      · rename_i htaken
        rw [Bool.and_eq_true] at htaken
        refine ⟨h.heads, fun push hpush => ?_⟩
        rcases List.mem_append.mp hpush with hpush | hpush
        · exact h.justified push hpush
        · rw [List.mem_singleton.mp hpush]
          exact haccepts new ((h.heads pid).trans hhead) htaken.1
      · exact h

/-- A process that has made a commit works with that commit as its head. -/
theorem Consistent.committed {loc : Nat → Option Text} {remote : Remote}
    (h : Consistent ancestor trailersOf loc remote) (pid : Nat) (commit : Text) :
    Consistent ancestor trailersOf (Function.update loc pid (some commit))
      { remote with heads := Function.update remote.heads pid (some commit) } := by
  refine ⟨fun p => ?_, h.justified⟩
  by_cases hp : p = pid
  · subst hp
    simp
  · simp [hp, h.heads p]

/-- A process whose head stays. -/
theorem Consistent.unmoved {loc : Nat → Option Text} {remote : Remote} {pid : Nat}
    (h : Consistent ancestor trailersOf loc remote) :
    Consistent ancestor trailersOf (Function.update loc pid (loc pid)) remote := by
  rwa [Function.update_eq_self]

theorem Consistent.answers {loc : Nat → Option Text} {remote : Remote} {pid : Nat}
    {command : Git} {input : Input} (h : Consistent ancestor trailersOf loc remote) :
    (ownership trailersOf).answers (loc pid) command
      (Remote.exec ancestor trailersOf pid command input remote).1 := by
  cases command with
  | trailers rev =>
      have hread : ∀ message,
          (Remote.exec ancestor trailersOf pid (.trailers rev) input remote).1 = .ok message →
          ∃ commit, (remote.moved input.foreign).resolve pid rev = some commit ∧
            message = trailersOf commit := by
        intro message hmessage
        simp only [Remote.exec] at hmessage
        cases hresolve : (remote.moved input.foreign).resolve pid rev with
        | none =>
            rw [hresolve] at hmessage
            cases hmessage
        | some commit =>
            rw [hresolve] at hmessage
            refine ⟨commit, rfl, ?_⟩
            unfold answered at hmessage
            dsimp only at hmessage
            split at hmessage
            · exact (Except.ok.inj hmessage).symm
            · cases hmessage
      cases rev with
      | head =>
          intro message hmessage
          obtain ⟨commit, hcommit, heq⟩ := hread message hmessage
          exact ⟨commit, (h.heads pid).trans hcommit, heq⟩
      | sha name =>
          intro message hmessage
          obtain ⟨commit, hcommit, heq⟩ := hread message hmessage
          cases hcommit
          exact heq
  | _ => trivial

theorem Consistent.exec {loc : Nat → Option Text} {remote : Remote} {pid : Nat}
    {command : Git} {input : Input} (h : Consistent ancestor trailersOf loc remote)
    (hallow : (ownership trailersOf).allow (loc pid) command) :
    Consistent ancestor trailersOf
      (Function.update loc pid ((ownership trailersOf).next (loc pid) command
        (Remote.exec ancestor trailersOf pid command input remote).1))
      (Remote.exec ancestor trailersOf pid command input remote).2 := by
  have hmoved : Consistent ancestor trailersOf loc (remote.moved input.foreign) :=
    ⟨h.heads, h.justified⟩
  cases command with
  | am patch =>
      change Consistent _ _ (Function.update loc pid (match
        (Remote.exec ancestor trailersOf pid (.am patch) input remote).1 with
        | Except.ok commit => some commit
        | Except.error _ => loc pid)) _
      unfold Remote.exec
      cases input.failure with
      | none => exact hmoved.committed pid input.commit
      | some e => exact hmoved.unmoved
  | push branch =>
      refine (hmoved.pushed fun new hnew haccepts old hold => Or.inl ?_).unmoved
      have hrefs : (remote.moved input.foreign).refs branch = some old := hold
      unfold Remote.acceptsPlain at haccepts
      rw [hrefs] at haccepts
      exact haccepts
  | pushLease branch leased =>
      obtain ⟨new, hnew, hsame⟩ := hallow
      refine (hmoved.pushed fun new' hnew' haccepts old hold => Or.inr ?_).unmoved
      rw [hnew] at hnew'
      cases hnew'
      have hleased : (remote.moved input.foreign).refs branch = some leased :=
        eq_of_beq haccepts
      have hrefs : (remote.moved input.foreign).refs branch = some old := hold
      rw [hleased] at hrefs
      cases hrefs
      exact hsame
  | trailers rev =>
      refine Consistent.unmoved ?_
      unfold Remote.exec
      dsimp only
      split <;> exact hmoved
  | _ => exact hmoved.unmoved

section Runs

variable (ancestor : Text → Text → Bool)
variable (trailersOf : Text → Text)
variable (callers : Nat → Caller)
variable (refs : Text → Option Text)

/-- All publications are called, over any branches of the remote. -/
def start : Config Git Reply StageError Text Remote :=
  ⟨⟨refs, fun _ => none, []⟩, fun pid => .running (callers pid).program⟩

/-- The remote after the moves. -/
def remoteAfter (moves : List (Move Input)) : Remote :=
  (runFrom (remoteSystem ancestor trailersOf).step (start callers refs) moves).shared

theorem remoteAfter_consistent (moves : List (Move Input)) :
    ∃ loc, Consistent ancestor trailersOf loc
      (remoteAfter ancestor trailersOf callers refs moves) := by
  have hany : AlongRun (remoteSystem ancestor trailersOf).step (Performs (fun _ _ _ => True))
      (start callers refs) moves := by
    rw [alongRun_iff]
    intro pre m post _ p i stmt k _ _
    trivial
  have hstart : Composed (ownership trailersOf) (fun _ _ => True)
      (Consistent ancestor trailersOf) (start callers refs) :=
    ⟨fun _ => none, ⟨fun _ => rfl, by rintro push ⟨⟩⟩, fun pid => program_obeys (callers pid)⟩
  have hrun : EveryState (remoteSystem ancestor trailersOf).step
      (Composed (ownership trailersOf) (fun _ _ => True) (Consistent ancestor trailersOf))
      (start callers refs) moves := by
    refine System.composition (remoteSystem ancestor trailersOf) ?_ ?_ hstart hany
    · intro loc remote p command input h hallow _
      exact ⟨h.answers, h.exec hallow⟩
    · intro loc remote p h
      exact h
  obtain ⟨loc, hconsistent, -⟩ := hrun.last
  exact ⟨loc, hconsistent⟩

end Runs

end Ownership

/-! ## The pull request that is returned -/

/-- A pull request that a listing of the log shows. -/
def Listed (log : List (Event Git Reply)) (pr : PullRequest) : Prop :=
  (∃ (branch : Text) (prs : List { pr : PullRequest // pr.head = branch }),
    ⟨.openPrs branch, Except.ok prs⟩ ∈ log ∧ ∃ h, ⟨pr, h⟩ ∈ prs) ∨
    ∃ prs : List PullRequest, ⟨.listPrs, Except.ok prs⟩ ∈ log ∧ pr ∈ prs

/-- The URL of a pull request that the log opens for a branch. -/
def Opened (log : List (Event Git Reply)) (branch url : Text) : Prop :=
  ∃ title body labels out, ⟨.createPr branch title body labels, Except.ok out⟩ ∈ log ∧
    lastLine out = .ok url

/-- The pull request at the URL has the pushed branch as its head. -/
def HeadsBranch (request : Request) (log : List (Event Git Reply)) (url : Text) : Prop :=
  (∃ pr, Listed log pr ∧ pr.url.1 = url ∧ pr.head = request.branch) ∨
    Opened log request.branch url

/-- The pull request at the URL has the pushed branch as its head, or it carries the marker of
the work. -/
def PresentsWork (request : Request) (log : List (Event Git Reply)) (url : Text) : Prop :=
  HeadsBranch request log url ∨
    ∃ pr, Listed log pr ∧ pr.url.1 = url ∧ adopts pr.body request.identity.key = true

theorem Listed.append_left {log : List (Event Git Reply)} {pr : PullRequest}
    (h : Listed log pr) (before : List (Event Git Reply)) : Listed (before ++ log) pr := by
  rcases h with ⟨branch, prs, hmem, hpr⟩ | ⟨prs, hmem, hpr⟩
  · exact Or.inl ⟨branch, prs, List.mem_append_right _ hmem, hpr⟩
  · exact Or.inr ⟨prs, List.mem_append_right _ hmem, hpr⟩

theorem Listed.append_right {log : List (Event Git Reply)} {pr : PullRequest}
    (h : Listed log pr) (behind : List (Event Git Reply)) : Listed (log ++ behind) pr := by
  rcases h with ⟨branch, prs, hmem, hpr⟩ | ⟨prs, hmem, hpr⟩
  · exact Or.inl ⟨branch, prs, List.mem_append_left _ hmem, hpr⟩
  · exact Or.inr ⟨prs, List.mem_append_left _ hmem, hpr⟩

/-- A command that answers well has that answer in the log. -/
theorem logs_call {command : Git} {log : List (Event Git Reply)} {value : Value command}
    (h : (call command).Logs log (.ret value)) : log = [⟨command, Except.ok value⟩] := by
  unfold call at h
  cases h with
  | step answer hrest =>
      cases answer with
      | ok found =>
          obtain ⟨rfl, rfl⟩ := hrest.of_ret
          rfl
      | error e => cases hrest

/-- What the two lookups find. -/
theorem logs_existingPrUrl {branch key url : Text} {log : List (Event Git Reply)}
    (h : (existingPrUrl branch key).Logs log (.ret (some url))) :
    ∃ pr, Listed log pr ∧ pr.url.1 = url ∧ (pr.head = branch ∨ adopts pr.body key = true) := by
  obtain ⟨first, rest, found, rfl, hfirst, hrest⟩ := Prog.Logs.bind_ret h
  obtain ⟨first', rest', prs, rfl, hprs, hfound⟩ := Prog.Logs.bind_ret hfirst
  obtain ⟨rfl, hhead⟩ := hfound.of_ret
  have hlog := logs_call hprs
  cases found with
  | some found =>
      obtain ⟨rfl, hurl⟩ := hrest.of_ret
      cases hurl
      obtain ⟨pr, hpr, rfl⟩ := Option.map_eq_some_iff.mp hhead
      refine ⟨pr.1, Or.inl ⟨branch, prs, ?_, pr.2, List.mem_of_mem_head? hpr⟩, rfl,
        Or.inl pr.2⟩
      rw [hlog]
      exact List.mem_singleton.mpr rfl
  | none =>
      obtain ⟨first'', rest'', all, rfl, hall, hmatch⟩ := Prog.Logs.bind_ret hrest
      obtain ⟨rfl, hurl⟩ := hmatch.of_ret
      obtain ⟨pr, hpr, rfl⟩ := Option.map_eq_some_iff.mp hurl
      refine ⟨pr, Or.inr ⟨all, ?_, List.mem_of_find?_eq_some hpr⟩, rfl,
        Or.inr ?_⟩
      · rw [logs_call hall]
        exact List.mem_append_right _ (List.mem_append_left _ (List.mem_singleton.mpr rfl))
      · have hadopts := List.find?_some hpr
        exact hadopts

theorem logs_presentPr {request : Request} {url : Text} {log : List (Event Git Reply)}
    (h : (presentPr request).Logs log (.ret url)) : PresentsWork request log url := by
  obtain ⟨first, rest, found, rfl, hfirst, hrest⟩ := Prog.Logs.bind_ret h
  cases found with
  | some existing =>
      obtain ⟨edit, rest', u, rfl, -, hret⟩ := Prog.Logs.bind_ret hrest
      obtain ⟨rfl, rfl⟩ := hret.of_ret
      obtain ⟨pr, hlisted, hurl, hhead | hmarker⟩ := logs_existingPrUrl hfirst
      · exact Or.inl (Or.inl ⟨pr, hlisted.append_right _, hurl, hhead⟩)
      · exact Or.inr ⟨pr, hlisted.append_right _, hurl, hmarker⟩
  | none =>
      obtain ⟨create, rest', out, rfl, hcreate, hret⟩ := Prog.Logs.bind_ret hrest
      refine Or.inl (Or.inr ⟨request.title, request.markedBody, request.labels, out, ?_, ?_⟩)
      · rw [logs_call hcreate]
        exact List.mem_append_right _ (List.mem_append_left _ (List.mem_singleton.mpr rfl))
      · cases hline : lastLine out with
        | ok line =>
            rw [hline] at hret
            obtain ⟨-, rfl⟩ := hret.of_ret
            rfl
        | error e =>
            rw [hline] at hret
            cases hret

theorem PresentsWork.append_left {request : Request} {url : Text}
    {log : List (Event Git Reply)} (h : PresentsWork request log url)
    (before : List (Event Git Reply)) : PresentsWork request (before ++ log) url := by
  rcases h with (⟨pr, hlisted, hpr⟩ | ⟨title, body, labels, out, hmem, hline⟩) |
    ⟨pr, hlisted, hpr⟩
  · exact Or.inl (Or.inl ⟨pr, hlisted.append_left before, hpr⟩)
  · exact Or.inl (Or.inr ⟨title, body, labels, out, List.mem_append_right _ hmem, hline⟩)
  · exact Or.inr ⟨pr, hlisted.append_left before, hpr⟩

theorem logs_publish {request : Request} {url : Text} {log : List (Event Git Reply)}
    (h : (publish request).Logs log (.ret url)) : PresentsWork request log url := by
  obtain ⟨accept, rest, u, rfl, -, h⟩ := Prog.Logs.bind_ret h
  obtain ⟨prepare, rest, u, rfl, -, h⟩ := Prog.Logs.bind_ret h
  obtain ⟨push, rest, u, rfl, -, h⟩ := Prog.Logs.bind_ret h
  obtain ⟨labels, rest, u, rfl, -, h⟩ := Prog.Logs.bind_ret h
  exact ((((logs_presentPr h).append_left _).append_left _).append_left _).append_left _

/--
**Publishing keeps ownership.**  However the publications interleave with each other and with
foreign pushes, a commit that a push replaces is contained in the new one or names the same
instance; and the pull request at the returned URL has the pushed branch as its head, or carries
the marker of the work.
-/
theorem publishing_keeps_ownership
    (ancestor : Text → Text → Bool)
    (trailersOf : Text → Text)
    (callers : Nat → Caller)
    (refs : Text → Option Text)
    (moves : List (Move Input))
    (request : Request)
    (log : List (Event Git Reply))
    (url : Text) :
    (∀ push ∈ (remoteAfter ancestor trailersOf callers refs moves).pushes,
      push.Justified ancestor trailersOf) ∧
    ((publish request).Logs log (.ret url) → PresentsWork request log url) := by
  obtain ⟨loc, hconsistent⟩ := remoteAfter_consistent ancestor trailersOf callers refs moves
  exact ⟨hconsistent.justified, logs_publish⟩

/-! ## A pull request with another head -/

namespace Adopted

def request : Request where
  branch := "factory/7-0123456789ab".toList
  patch := []
  title := []
  body := []
  labels := []
  identity := ⟨"0123456789ab".toList, []⟩
  accepted := .ok ()

/-- An open pull request of another branch, with the marker of the work. -/
def renamed : PullRequest where
  url := ⟨"https://forge/pull/3".toList, by decide +kernel⟩
  head := "factory/seven".toList
  body := "<!-- swf-publication key=0123456789ab instance=swf-1 -->".toList

def log : List (Event Git Reply) :=
  [⟨.prepare, Except.ok ()⟩, ⟨.checkout request.branch, Except.ok ()⟩,
    ⟨.am [], Except.ok "c0ffee".toList⟩, ⟨.lsRemote request.branch, Except.ok []⟩,
    ⟨.push request.branch, Except.ok ()⟩, ⟨.openPrs request.branch, Except.ok []⟩,
    ⟨.listPrs, Except.ok [renamed]⟩,
    ⟨.editPr renamed.url.1 [] request.markedBody [], Except.ok ()⟩]

theorem logs : (publish request).Logs log (.ret renamed.url.1) := by
  refine .step _ (.step _ (.step _ (.step _ (.step _ (.step _ (.step _ ?_))))))
  exact .step _ (.done _)

end Adopted

/-- The returned pull request need not have the pushed branch as its head. -/
theorem adopted_head_differs :
    ¬ ∀ (request : Request) (log : List (Event Git Reply)) (url : Text),
      (publish request).Logs log (.ret url) → HeadsBranch request log url := by
  intro h
  rcases h _ _ _ Adopted.logs with
    ⟨pr, (⟨branch, prs, hmem, hin, hpr⟩ | ⟨prs, hmem, hpr⟩), -, hhead⟩ |
    ⟨title, body, labels, out, hmem, -⟩
  · simp only [Adopted.log, List.mem_cons, List.not_mem_nil, or_false] at hmem
    rcases hmem with h | h | h | h | h | h | h | h <;> cases h
    cases hpr
  · simp only [Adopted.log, List.mem_cons, List.not_mem_nil, or_false] at hmem
    rcases hmem with h | h | h | h | h | h | h | h <;> cases h
    rw [List.mem_singleton.mp hpr] at hhead
    revert hhead
    decide +kernel
  · simp only [Adopted.log, List.mem_cons, List.not_mem_nil, or_false] at hmem
    rcases hmem with h | h | h | h | h | h | h | h <;> cases h

end Publication
end SwFactory
