import SwFactory.Lexical.Regex
import SwFactory.Lexical.Splitting
import SwFactory.Machine.Dicts
import SwFactory.Machine.Parallel

/-!
# Maintenance incidents

A maintenance pass files an issue for every breach of a band that is not only
logged.  The ledger says, under the key of an incident, how far the filing got;
it is saved after every step, and is all that a later pass knows.

What is digested, how a decimal digit reads, and what the outside answers are
parameters.

Sources: `maintenance_incidents.py` (`IncidentLedger`, `DurableIncidentLedger`) and
`maintain.py` (`_issue_number`, `_incident_identity`, `run`).
-/

namespace SwFactory
namespace Maintain

open Lexical
open Machine

abbrev Text := List Char

inductive Action
  | log
  | diagnose
  | propose
deriving DecidableEq

/-- The floats of a breach are the texts that its documents show. -/
structure Breach where
  metric : Text
  sigma : Int
  value : Text
  mean : Text
  stdev : Text
  action : Action
deriving DecidableEq

structure IncidentIdentity where
  repository : Text
  sourceRun : Text
  evidenceDigest : Text
  metric : Text
  policyVersion : Text
deriving DecidableEq

inductive IncidentState
  | proposed
  | creating
  | opened
  | inDoubt
  | closed
deriving DecidableEq

structure IncidentReceipt where
  key : Text
  issueNumber : Nat
  issueUrl : Text
  contentDigest : Text
deriving DecidableEq

/-- What `_digest` is applied to. -/
inductive Digested
  | identity (identity : IncidentIdentity)
  | breach (breach : Breach)
  | bands (bands : Text)
  | content (record : Text) (action : Action)

inductive Failure
  | valueError
  | runtimeError
  | outside
deriving DecidableEq

section Keys

variable (digest : Digested → Text)

/-- `IncidentIdentity.key` -/
def IncidentIdentity.key (identity : IncidentIdentity) : Text :=
  "incident_".toList ++ (digest (.identity identity)).take 32

end Keys

/-! ## The ledger -/

structure IncidentLedger where
  states : Dict Text IncidentState
  receipts : Dict Text IncidentReceipt

namespace IncidentLedger

def empty : IncidentLedger :=
  ⟨[], []⟩

/-- `self.states[key] = state` -/
def mark (l : IncidentLedger) (key : Text) (state : IncidentState) : IncidentLedger :=
  { l with states := l.states.assign key state }

variable (digest : Digested → Text)

/-- The ledger, and whether the incident is a new one. -/
def propose (l : IncidentLedger) (identity : IncidentIdentity) : IncidentLedger × Bool :=
  let key := identity.key digest
  if key ∈ l.states.keys then
    (l, false)
  else
    (l.mark key .proposed, true)

def beginCreate (l : IncidentLedger) (identity : IncidentIdentity) :
    Except Failure IncidentLedger :=
  let key := identity.key digest
  if l.states.get? key = some .proposed ∨ l.states.get? key = some .inDoubt then
    .ok (l.mark key .creating)
  else
    .error .runtimeError

def recordCreated
    (l : IncidentLedger)
    (identity : IncidentIdentity)
    (issueNumber : Nat)
    (issueUrl : Text)
    (content : Digested) :
    Except Failure IncidentLedger :=
  let key := identity.key digest
  if issueNumber = 0 ∨ issueUrl = [] then
    .error .valueError
  else
    let receipt : IncidentReceipt := ⟨key, issueNumber, issueUrl, digest content⟩
    if (l.receipts.get? key).any (· ≠ receipt) then
      .error .runtimeError
    else
      .ok ({ l with receipts := l.receipts.assign key receipt }.mark key .opened)

def markUnknown (l : IncidentLedger) (identity : IncidentIdentity) :
    Except Failure IncidentLedger :=
  let key := identity.key digest
  if l.states.get? key = some .creating ∨ l.states.get? key = some .proposed then
    .ok (l.mark key .inDoubt)
  else
    .error .runtimeError

end IncidentLedger

/-! ## The pass -/

section Numbers

variable (digit : Char → Option Nat)

/-- `int(text)` of a text of decimal digits; more than 4300 of them are refused. -/
def int (text : Text) : Except Failure Nat :=
  if 4300 < text.length then
    .error .valueError
  else
    .ok (text.foldl (fun n c => 10 * n + (digit c).getD 0) 0)

/-- `\d+` -/
def digits : Regex :=
  .group 0 (.some (.one (fun c => (digit c).isSome)))

/-- `_issue_number` -/
def issueNumber (url : Text) : Except Failure Nat :=
  match ((digits digit).findAll (fun _ => false) url).getLast? with
  | some place => int digit ((place.group? 0).getD [])
  | none => .ok 0

end Numbers

/-- What a run of the window is told by; an absent field is empty. -/
structure Run where
  runId : Text
  finished : Text

/-- What a pass found and wrote about a breach: the incident's record, and the drafted intent. -/
structure Diagnosed where
  record : Text
  intent : Text

structure Issue where
  title : Text
  body : Text
  labels : List Text

inductive Notice
  | window (runs breaches : Nat)
  | breach (b : Breach)
  | wrote (metric : Text)
  | alreadyFiled (key : Text) (url : Option Text)
  | opened (url : Text)
deriving DecidableEq

inductive Stmt
  | load
  /-- `_diagnose`, and the record written below `docs/factory/incidents` -/
  | record (b : Breach)
  | save (l : IncidentLedger)
  /-- `scm.open_issue`, for an incident -/
  | openIssue (identity : IncidentIdentity) (issue : Issue)
  | print (notice : Notice)

abbrev Ans : Stmt → Type
  | .load => Except Failure IncidentLedger
  | .record _ => Except Failure Diagnosed
  | .save _ => Except Failure Unit
  | .openIssue _ _ => Except Failure Text
  | .print _ => Unit

/-- The file of the ledger, the incidents for which an issue was created, and the output. -/
structure World where
  file : IncidentLedger
  created : List IncidentIdentity
  printed : List Notice

def World.empty : World :=
  ⟨.empty, [], []⟩

/-- What the outside decides: whether a statement raises, whether an issue that fails to open
was created nevertheless, and the answers. -/
structure Input where
  raises : Bool
  created : Bool
  url : Text
  diagnosed : Diagnosed

def exec : Effect Stmt Ans World Input
  | .load, i, w => (if i.raises then .error .outside else .ok w.file, w)
  | .record _, i, w => (if i.raises then .error .outside else .ok i.diagnosed, w)
  | .save l, i, w =>
      if i.raises then (.error .outside, w) else (.ok ⟨⟩, { w with file := l })
  | .openIssue identity _, i, w =>
      (if i.raises then .error .outside else .ok i.url,
        if i.raises && !i.created then w else { w with created := identity :: w.created })
  | .print notice, _, w => (⟨⟩, { w with printed := w.printed ++ [notice] })

abbrev Script (α : Type) := Prog Stmt Ans Failure α

/-- A pass: its configuration, what it detected, and what the outside does until it is killed. -/
structure Pass where
  repo : Text
  runs : List Run
  bands : Text
  breaches : List Breach
  inputs : List Input

section Program

variable (digest : Digested → Text)
variable (digit : Char → Option Nat)

/-- `newest.get("run_id") or newest.get("finished") or "no-runs"` -/
def sourceRun : List Run → Text
  | [] => "no-runs".toList
  | newest :: _ =>
      if newest.runId ≠ [] then newest.runId
      else if newest.finished ≠ [] then newest.finished
      else "no-runs".toList

/-- `_incident_identity` -/
def Pass.incidentIdentity (p : Pass) (b : Breach) : IncidentIdentity where
  repository := p.repo
  sourceRun := sourceRun p.runs
  evidenceDigest := digest (.breach b)
  metric := b.metric
  policyVersion := digest (.bands p.bands)

/-- The key under which the pass files a breach. -/
def Pass.key (p : Pass) (b : Breach) : Text :=
  (p.incidentIdentity digest b).key digest

def load : Script IncidentLedger :=
  Prog.step .load Prog.ofExcept

def diagnose (b : Breach) : Script Diagnosed :=
  Prog.step (.record b) Prog.ofExcept

def save (l : IncidentLedger) : Script Unit :=
  Prog.step (.save l) Prog.ofExcept

def print (notice : Notice) : Script Unit :=
  Prog.step (.print notice) Prog.ret

/-- The issue of a breach. -/
def issueOf (b : Breach) (d : Diagnosed) : Issue :=
  let sigma := (toString b.sigma).toList
  match b.action with
  | .propose =>
      { title := "[maintain] ".toList ++ b.metric ++ " breached the ".toList ++ sigma ++
          "σ band".toList
        body := d.intent ++ "\n".toList ++ d.record
        labels := ["factory".toList] }
  | _ =>
      { title := "[incident] ".toList ++ b.metric ++ " ".toList ++ sigma ++ "σ".toList
        body := d.record
        labels := ["maintain".toList, "incident".toList] }

/-- What follows the answer of `open_issue`. -/
def settle (l : IncidentLedger) (identity : IncidentIdentity) (b : Breach) (d : Diagnosed) :
    Except Failure Text → Script IncidentLedger
  | .error e => do
      let l ← .ofExcept (l.markUnknown digest identity)
      save l
      .raise e
  | .ok url => do
      let number ← .ofExcept (issueNumber digit url)
      let l ← .ofExcept (l.recordCreated digest identity number url (.content d.record b.action))
      save l
      print (.opened url)
      .ret l

/-- From `begin_create` on. -/
def create (l : IncidentLedger) (identity : IncidentIdentity) (b : Breach) (d : Diagnosed) :
    Script IncidentLedger := do
  let l ← .ofExcept (l.beginCreate digest identity)
  save l
  let answer ← Prog.perform (.openIssue identity (issueOf b d))
  settle digest digit l identity b d answer

/-- One breach of the loop. -/
def Pass.handle (p : Pass) (l : IncidentLedger) (b : Breach) : Script IncidentLedger := do
  print (.breach b)
  if b.action = .log then
    .ret l
  else
    let d ← diagnose b
    print (.wrote b.metric)
    let identity := p.incidentIdentity digest b
    let proposal := l.propose digest identity
    save proposal.1
    if proposal.2 then
      create digest digit proposal.1 identity b d
    else
      let receipt := proposal.1.receipts.get? (identity.key digest)
      print (.alreadyFiled (identity.key digest) (receipt.map IncidentReceipt.issueUrl))
      .ret proposal.1

def Pass.handleAll (p : Pass) : List Breach → IncidentLedger → Script Unit
  | [], _ => .ret ⟨⟩
  | b :: bs, l => do
      let l ← p.handle digest digit l b
      p.handleAll bs l

/-- `run` -/
def Pass.run (p : Pass) : Script (List Breach) := do
  print (.window p.runs.length p.breaches.length)
  let l ← load
  p.handleAll digest digit p.breaches l
  .ret p.breaches

/-- A pass over the root: what it ends with, unless it is killed, and what it leaves. -/
def Pass.perform (p : Pass) (w : World) : Option (Except Failure (List Breach)) × World :=
  play exec (p.run digest digit) p.inputs { w with printed := [] }

/-- One pass after the other, from a root without a ledger. -/
def after (passes : List Pass) : World :=
  passes.foldl (fun w p => (p.perform digest digit w).2) .empty

end Program

/-! ## What is asked of a pass -/

section Claims

variable (digest : Digested → Text)
variable (digit : Char → Option Nat)

/-- The filing of the incident was begun, and no pass has settled it. -/
def IncidentLedger.Unsettled (l : IncidentLedger) (key : Text) : Prop :=
  l.states.get? key = some .proposed ∨ l.states.get? key = some .creating ∨
    l.states.get? key = some .inDoubt

/-- Every breach that is not only logged has a receipt. -/
def Pass.Filed (p : Pass) (l : IncidentLedger) : Prop :=
  ∀ b ∈ p.breaches, b.action ≠ .log → (l.receipts.get? (p.key digest b)).isSome

/-- Nothing is called filed without a receipt. -/
def Honest (printed : List Notice) : Prop :=
  ∀ key, .alreadyFiled key none ∉ printed

def Pass.Completes (p : Pass) (w : World) : Prop :=
  ∃ bs, (p.perform digest digit w).1 = some (.ok bs)

/-- The pass loses no incident. -/
structure Pass.Keeps (p : Pass) (w : World) : Prop where
  filed : p.Completes digest digit w → p.Filed digest (p.perform digest digit w).2.file
  honest : Honest (p.perform digest digit w).2.printed

/-- No breach the pass acts on was left unsettled by an earlier one. -/
def Pass.Clear (p : Pass) (l : IncidentLedger) : Prop :=
  ∀ b ∈ p.breaches, b.action ≠ .log → ¬ l.Unsettled (p.key digest b)

end Claims

end Maintain
end SwFactory
