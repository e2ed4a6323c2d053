import SwFactory.Lexical.Splitting
import SwFactory.Machine.Logs
import SwFactory.Publication.Identity

/-!
# The push of a branch, and its pull request

A publication applies a patch in a clone of its own, pushes the branch, and
updates or opens a pull request.  A branch of the factory that exists is
replaced only under a lease, and only if the commit it points to names the same
factory instance as the new one.

Sources: `scm.py` (`_apply_and_push`, `_instance_of`, `_remote_head`,
`LocalScm.publish`, `GitHubScm.publish`, `_adopted_pr_url`, `_open_pr_url`) and
`publication_identity.py` (`read_marker`, `adopts`, `from_branch`).
-/

namespace SwFactory
namespace Publication

open Lexical
open Machine

/-! ## The marker of a pull request -/

/-- `str.split()` -/
def splitWords (text : Text) : List Text :=
  (text.splitBy (fun a b => Text.isSpace a == Text.isSpace b)).filter
    (fun part => part.all (fun c => !Text.isSpace c))

def markerStart : Text :=
  "<!-- swf-publication".toList

/-- The group `fields`, read behind the start: what stands before the first `>`, if that is
the end of `-->`. -/
def markerFields (rest : Text) : Option Text :=
  let text := rest.dropWhile Text.isSpace
  let inside := text.takeWhile (· != '>')
  if rest.head?.any Text.isSpace && inside.length < text.length &&
      ['-', '-'].isSuffixOf inside then
    some ((inside.take (inside.length - 2)).rdropWhile Text.isSpace)
  else
    none

/-- `_MARKER_RE.search` -/
def searchMarker : Text → Option Text
  | [] => none
  | c :: rest =>
      if markerStart.isPrefixOf (c :: rest) then
        match markerFields ((c :: rest).drop markerStart.length) with
        | some fields => some fields
        | none => searchMarker rest
      else
        searchMarker rest

/-- `part.partition("=")`, where both sides are there. -/
def readField (part : Text) : Option (Text × Text) :=
  match splitOnce '=' part with
  | some (name, value) => if name = [] ∨ value = [] then none else some (name, value)
  | none => none

/-- `read_marker`; of two fields with one name the later one counts. -/
def readMarker (body : Text) : Option (List (Text × Text)) :=
  match searchMarker body with
  | none => none
  | some text =>
      let fields := ((splitWords text).filterMap readField).reverse
      if (fields.lookup "key".toList).isSome then some fields else none

/-- `adopts` -/
def adopts (body key : Text) : Bool :=
  match readMarker body with
  | none => false
  | some fields => fields.lookup "key".toList == some key

/-! ## The statements -/

structure StageError where
  message : Text
  retryable : Bool
deriving DecidableEq, Repr

/-- A URL: a word. -/
def Url :=
  { text : Text // text ≠ [] ∧ ∀ c ∈ text, Text.isSpace c = false }
deriving DecidableEq

instance decidableWord (text : Text) : Decidable (∀ c ∈ text, Text.isSpace c = false) :=
  List.decidableBAll (fun c => Text.isSpace c = false) text

/-- An open pull request, as a listing shows it. -/
structure PullRequest where
  url : Url
  head : Text
  body : Text
deriving DecidableEq

/-- `HEAD` of the clone, or a commit by its name. -/
inductive Rev
  | head
  | sha (name : Text)
deriving DecidableEq, Repr

/-- The commands of a publication. -/
inductive Git
  | prepare
  | checkout (branch : Text)
  | am (patch : Text)
  | push (branch : Text)
  | pushLease (branch leased : Text)
  | lsRemote (branch : Text)
  | revParse (rev : Rev)
  | fetch (rev : Rev)
  | trailers (rev : Rev)
  | createLabel (label : Text)
  | openPrs (branch : Text)
  | listPrs
  | editPr (url title body : Text) (labels : List Text)
  | createPr (branch title body : Text) (labels : List Text)
deriving DecidableEq, Repr

/-- What a command prints.  `git am` answers with the commit it made; a listing of a branch shows
pull requests of that branch. -/
def Value : Git → Type
  | .am _ => Text
  | .lsRemote _ => Text
  | .trailers _ => Text
  | .openPrs branch => List { pr : PullRequest // pr.head = branch }
  | .listPrs => List PullRequest
  | .createPr _ _ _ _ => Text
  | _ => Unit

def Reply (command : Git) : Type :=
  Except StageError (Value command)

abbrev Script (α : Type) :=
  Prog Git Reply StageError α

/-- `_run`: what the command prints, or its error. -/
def call (command : Git) : Script (Value command) :=
  Prog.step command Prog.ofExcept

/-! ## The push -/

def factoryPrefix : Text :=
  "factory/".toList

/-- `_first_token` -/
def firstToken (out : Text) : Text :=
  (out.dropWhile Text.isSpace).takeWhile (fun c => !Text.isSpace c)

/-- The first value of a list of trailers, a line each. -/
def firstValue (message : Text) : Text :=
  match splitlines (trim Text.isSpace message) with
  | [] => []
  | line :: _ => trim Text.isSpace line

/-- `_instance_of` -/
def instanceOf (rev : Rev) : Script Text :=
  (call (.revParse rev)).handle (fun _ => call (.fetch rev)) >>= fun _ =>
    call (.trailers rev) >>= fun message => .ret (firstValue message)

/-- `message.lower()`, on the letters that matter here. -/
def lowered (message : Text) : Text :=
  message.map Char.toLower

/-- `_is_lease_refusal` -/
def isLeaseRefusal (message : Text) : Bool :=
  contains "stale info".toList (lowered message) ||
    contains "force-with-lease".toList (lowered message) ||
    contains "fetch first".toList (lowered message)

/-- The refusal to replace the commit of another instance. -/
def foreignHead (branch remoteHead holder mine : Text) : StageError :=
  ⟨branch ++ " on the remote is at ".toList ++ remoteHead.take 12 ++ ", published by ".toList ++
    (if holder = [] then
      "an instance that left no Factory-Instance trailer".toList
    else
      holder) ++ ", not by this one (".toList ++
    (if mine = [] then "a patch with no Factory-Instance trailer".toList else mine) ++
    ("). Another factory session is working this issue. Refusing to overwrite it; " ++
      "adopt its pull request instead.").toList, false⟩

def lostLease (branch : Text) : StageError :=
  ⟨"another factory instance moved ".toList ++ branch ++
    (" while this one was publishing; refusing to overwrite it. Re-run deliver: it will adopt " ++
      "the existing pull request.").toList, true⟩

/-- The push under a lease; a refused lease is told apart from other failures. -/
def pushLeased (branch remoteHead : Text) : Script Unit :=
  (call (.pushLease branch remoteHead)).handle fun e =>
    if isLeaseRefusal e.message then .raise (lostLease branch) else .raise e

/-- The replacement of a branch that exists. -/
def replaceHead (branch remoteHead : Text) : Script Unit :=
  instanceOf .head >>= fun mine =>
    instanceOf (.sha remoteHead) >>= fun holder =>
      if mine = [] ∨ holder ≠ mine then
        .raise (foreignHead branch remoteHead holder mine)
      else
        pushLeased branch remoteHead

def pushPlain (branch : Text) : Script Unit :=
  call (.push branch)

/-- The push of a branch of the factory, by what `git ls-remote` printed. -/
def pushOver (branch : Text) (out : Text) : Script Unit :=
  if firstToken out = [] then pushPlain branch else replaceHead branch (firstToken out)

def pushFactoryBranch (branch : Text) : Script Unit :=
  call (.lsRemote branch) >>= fun out => pushOver branch out

/-- `_apply_and_push` -/
def applyAndPush (branch patch : Text) : Script Unit :=
  call (.checkout branch) >>= fun _ =>
    call (.am patch) >>= fun _ =>
      if factoryPrefix.isPrefixOf branch then pushFactoryBranch branch else pushPlain branch

/-! ## The publication -/

structure PublicationIdentity where
  key : Text
  marker : Text
deriving DecidableEq, Repr

/-- What `publish` is called with; `accepted` is what the checks of the patch and of the token
came to. -/
structure Request where
  branch : Text
  patch : Text
  title : Text
  body : Text
  labels : List Text
  identity : PublicationIdentity
  accepted : Except StageError Unit

/-- The key of `PublicationIdentity.from_branch`. -/
def keyOfBranch (sha256 : Text → Text) (branch : Text) : Text :=
  let tail := match rsplitOnce '-' branch with
    | some (_, tail) => tail
    | none => []
  if tail.length = 12 ∧ tail.all Text.isLowerHex then tail else (sha256 branch).take 12

/-- `LocalScm.publish` -/
def publishLocally (request : Request) : Script Text :=
  .ofExcept request.accepted >>= fun _ =>
    call .prepare >>= fun _ =>
      applyAndPush request.branch request.patch >>= fun _ => .ret "file://pr.md".toList

/-- `_open_pr_url` -/
def openPrUrl (branch : Text) : Script (Option Text) :=
  call (.openPrs branch) >>= fun prs => .ret (prs.head?.map (fun pr => pr.1.url.1))

/-- `_adopted_pr_url` -/
def adoptedPrUrl (key : Text) : Script (Option Text) :=
  call .listPrs >>= fun prs =>
    .ret ((prs.find? (fun pr => adopts pr.body key)).map (fun pr => pr.url.1))

/-- `self._open_pr_url(branch) or self._adopted_pr_url(key)` -/
def existingPrUrl (branch key : Text) : Script (Option Text) :=
  openPrUrl branch >>= fun
    | some url => .ret (some url)
    | none => adoptedPrUrl key

/-- `_last_line` -/
def lastLine (out : Text) : Except StageError Text :=
  match (((splitlines out).map (trim Text.isSpace)).filter (· ≠ [])).getLast? with
  | some line => .ok line
  | none => .error ⟨"gh returned no url".toList, false⟩

def ensureLabels : List Text → Script Unit
  | [] => .ret ()
  | label :: rest => call (.createLabel label) >>= fun _ => ensureLabels rest

/-- The body of the pull request, with the marker. -/
def Request.markedBody (request : Request) : Text :=
  request.body ++ "\n\n".toList ++ request.identity.marker ++ ['\n']

/-- The pull request of a branch that has been pushed. -/
def presentPr (request : Request) : Script Text :=
  existingPrUrl request.branch request.identity.key >>= fun
    | some existing =>
        call (.editPr existing request.title request.markedBody request.labels) >>= fun _ =>
          .ret existing
    | none =>
        call (.createPr request.branch request.title request.markedBody request.labels) >>=
          fun out => .ofExcept (lastLine out)

/-- `GitHubScm.publish` -/
def publish (request : Request) : Script Text :=
  .ofExcept request.accepted >>= fun _ =>
    call .prepare >>= fun _ =>
      applyAndPush request.branch request.patch >>= fun _ =>
        ensureLabels request.labels >>= fun _ => presentPr request

/-! ## The remote -/

/-- A change of a branch by one of the publications. -/
structure Push where
  branch : Text
  replaced : Option Text
  new : Text
deriving DecidableEq, Repr

/-- The branches of the remote, the head of each clone, and what has been pushed. -/
structure Remote where
  refs : Text → Option Text
  heads : Nat → Option Text
  pushes : List Push

/-- What the surroundings contribute to one command: what others pushed meanwhile, whether the
command reaches the remote, how it fails, and what it prints. -/
structure Input where
  foreign : List (Text × Option Text)
  reached : Bool
  failure : Option StageError
  commit : Text
  branchPrs : (branch : Text) → List { pr : PullRequest // pr.head = branch }
  prs : List PullRequest
  out : Text

def brokenPipe : StageError :=
  ⟨"failed".toList, true⟩

section Semantics

-- A commit is an ancestor of another; the trailers `Factory-Instance` of a commit.
variable (ancestor : Text → Text → Bool)
variable (trailersOf : Text → Text)

/-- Others push whatever they like. -/
def Remote.moved (remote : Remote) (foreign : List (Text × Option Text)) : Remote :=
  { remote with refs := foreign.foldl (fun refs f => Function.update refs f.1 f.2) remote.refs }

/-- The remote takes a plain push of a new branch or of a fast forward. -/
def Remote.acceptsPlain (remote : Remote) (branch new : Text) : Bool :=
  match remote.refs branch with
  | none => true
  | some old => ancestor old new

/-- The branch points to the new commit. -/
def Remote.take (remote : Remote) (branch new : Text) : Remote :=
  { remote with
    refs := Function.update remote.refs branch (some new)
    pushes := remote.pushes ++ [⟨branch, remote.refs branch, new⟩] }

/-- A push: whether the remote takes it, and how the command ends. -/
def Remote.pushed (remote : Remote) (pid : Nat) (branch : Text)
    (accepts : Text → Bool) (input : Input) : Except StageError Unit × Remote :=
  match remote.heads pid with
  | none => (.error brokenPipe, remote)
  | some new =>
      if accepts new && input.reached then
        (match input.failure with
        | none => .ok ()
        | some e => .error e, remote.take branch new)
      else
        (.error (input.failure.getD brokenPipe), remote)

/-- A command that changes nothing. -/
def answered {α : Type} (input : Input) (value : α) : Except StageError α :=
  match input.failure with
  | none => .ok value
  | some e => .error e

/-- The commit a revision names in a clone. -/
def Remote.resolve (remote : Remote) (pid : Nat) : Rev → Option Text
  | .head => remote.heads pid
  | .sha name => some name

/-- The line of `git ls-remote`. -/
def Remote.line (remote : Remote) (branch : Text) : Text :=
  match remote.refs branch with
  | none => []
  | some commit => commit ++ "\trefs/heads/".toList ++ branch ++ ['\n']

def Remote.exec (pid : Nat) (command : Git) (input : Input) (before : Remote) :
    Reply command × Remote :=
  let remote := before.moved input.foreign
  match command with
  | .am _ =>
      match input.failure with
      | none =>
          (.ok input.commit,
            { remote with heads := Function.update remote.heads pid (some input.commit) })
      | some e => (.error e, remote)
  | .push branch =>
      remote.pushed pid branch (fun new => remote.acceptsPlain ancestor branch new) input
  | .pushLease branch leased =>
      remote.pushed pid branch (fun _ => remote.refs branch == some leased) input
  | .lsRemote branch => (answered input (remote.line branch), remote)
  | .trailers rev =>
      match remote.resolve pid rev with
      | none => (.error brokenPipe, remote)
      | some commit => (answered input (trailersOf commit), remote)
  | .openPrs branch => (answered input (input.branchPrs branch), remote)
  | .listPrs => (answered input input.prs, remote)
  | .createPr _ _ _ _ => (answered input input.out, remote)
  | .prepare => (answered input (), remote)
  | .checkout _ => (answered input (), remote)
  | .revParse _ => (answered input (), remote)
  | .fetch _ => (answered input (), remote)
  | .createLabel _ => (answered input (), remote)
  | .editPr _ _ _ _ => (answered input (), remote)

def remoteSystem : System Git Reply Remote Input where
  exec := Remote.exec ancestor trailersOf
  crash := fun _ remote => remote

end Semantics

end Publication
end SwFactory
