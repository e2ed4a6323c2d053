import SwFactory.Backend.Dispatch

/-!
# The backend: the sweep of orphaned sandboxes

The nightly sweep lists the sandboxes of a provider, asks the Cell store who
owns each, and removes those whose Cell is over.  Every removal is journaled
under an identity: the Cell and the epoch that the resource belongs to.  A
sandbox that no Cell owns is journaled under an identity of its own, at epoch
1, and a container under the Cell and the epoch that its labels claim.

Sources: `maintain.py` (`sweep_orphans` to `_settle_absent`), `sandbox.py`
(`owned_sandboxes`), `sandbox_governance.py`, `backend/routes.py` (`_sweep`).
-/

namespace SwFactory
namespace Backend

open Text Machine Cells Restore

variable {V : Type}
variable (setup : Setup V)

section Identities

/-- `SandboxIdentity.validate`. -/
def SandboxIdentity.validate (i : SandboxIdentity) : Except BackendError Unit :=
  if i.provider = "" then .error (.other "provider is required")
  else if i.cellId = "" then .error (.other "cell_id is required")
  else if i.epoch ≤ 0 then .error (.other "epoch must be positive")
  else if i.attemptId = "" then .error (.other "attempt_id is required")
  else .ok ()

/-- `labels.get(key)`. -/
def label (labels : List (String × String)) (key : String) : Option String :=
  (lookup Prod.fst key labels).map Prod.snd

/-- `SandboxIdentity.labels`. -/
def SandboxIdentity.labels (i : SandboxIdentity) : List (String × String) :=
  [("swfactory.owned", "true"), ("swfactory.cell", i.cellId),
    ("swfactory.epoch", toString i.epoch), ("swfactory.attempt", i.attemptId)]

/-- `SandboxIdentity.from_labels`. -/
def fromLabels (provider : String) (labels : List (String × String)) :
    Option SandboxIdentity := do
  if label labels "swfactory.owned" ≠ some "true" then none
  else
    let cellId ← label labels "swfactory.cell"
    let epoch ← (label labels "swfactory.epoch").bind setup.parseInt
    let attemptId ← label labels "swfactory.attempt"
    let identity : SandboxIdentity := { provider, cellId, epoch, attemptId }
    match identity.validate with
    | .ok () => some identity
    | .error _ => none

/-- `CleanupDecision`. -/
inductive CleanupDecision
  | remove
  | keep
  | observe
  | refuse
deriving DecidableEq, Repr

/-- `authorize_cleanup`, for a resource that is reachable. -/
def authorizeCleanup (i : SandboxIdentity) (labels : List (String × String))
    (currentEpoch : Option Int) (active : Bool) :
    Except BackendError CleanupDecision := do
  i.validate
  if label labels "swfactory.owned" ≠ some "true" then return .refuse
  else if label labels "swfactory.cell" ≠ some i.cellId then return .refuse
  else if label labels "swfactory.epoch" ≠ some (toString i.epoch) then
    return .refuse
  else if label labels "swfactory.attempt" ≠ some i.attemptId then return .refuse
  else
    match currentEpoch with
    | none => return .observe
    | some current =>
        if current ≠ i.epoch then
          return if active then .refuse else .remove
        else return if active then .keep else .remove

/-- `CleanupDebt`. -/
abbrev CleanupDebt := List (String × SandboxIdentity)

/-- `CleanupDebt.record`. -/
def CleanupDebt.record (debt : CleanupDebt) (resource : String)
    (i : SandboxIdentity) : Except BackendError CleanupDebt := do
  i.validate
  match lookup Prod.fst resource debt with
  | some entry =>
      if entry.2 ≠ i then
        .error (.other "provider identity reused across Factory Cells")
      else .ok debt
  | none => .ok (debt ++ [(resource, i)])

/-- `CleanupDebt.settle`. -/
def CleanupDebt.settle (debt : CleanupDebt) (resource : String)
    (i : SandboxIdentity) : Except BackendError CleanupDebt :=
  match lookup Prod.fst resource debt with
  | some entry =>
      if entry.2 ≠ i then
        .error (.other "cleanup receipt does not match outstanding debt")
      else .ok (debt.filter (fun e => decide (e.1 ≠ resource)))
  | none => .error (.other "cleanup receipt does not match outstanding debt")

/-- The report of a sweep. -/
structure Report where
  removed : List String := []
  kept : List String := []
  debt : List String := []
  reconciled : List String := []
deriving DecidableEq, Repr

/-- `report[key] += value`, for every key. -/
def Report.merge (a b : Report) : Report where
  removed := a.removed ++ b.removed
  kept := a.kept ++ b.kept
  debt := a.debt ++ b.debt
  reconciled := a.reconciled ++ b.reconciled

/-- `CLEANUP_KIND`. -/
def cleanupKind : String := "sandbox_cleanup"

/-- `sorted(debt.outstanding)`. -/
def CleanupDebt.names (debt : CleanupDebt) : List String :=
  (debt.map Prod.fst).mergeSort (fun a b => decide (a ≤ b))

end Identities

section Sandboxes

/-- `owned_sandboxes`. -/
def ownedSandboxes (listing : List Sandbox) (owner : String) : List Sandbox :=
  let owner := setup.lower (strip owner)
  if owner = "" then []
  else listing.filter (fun item =>
    decide (item.status ≠ "deleted" ∧
      setup.lower (strip item.createdBy) = owner))

/-- The characters `[a-z0-9]`. -/
def isSlugStart (c : Char) : Bool :=
  ('a' ≤ c && c ≤ 'z') || ('0' ≤ c && c ≤ '9')

/-- The characters `[a-z0-9_-]`. -/
def isSlugChar (c : Char) : Bool :=
  isSlugStart c || c == '_' || c == '-'

/-- One final line feed, in front of which `$` matches too, is dropped. -/
def dropFinalNewline (chars : List Char) : List Char :=
  if chars.getLast? = some '\n' then chars.dropLast else chars

/-- `SANDBOX_NAME_RE`: `swf-`, a slug, and eight hex digits behind a dash. -/
def isSandboxName (name : String) : Bool :=
  let chars := dropFinalNewline name.toList
  let slug := (chars.drop 4).take (chars.length - 13)
  let digest := chars.drop (chars.length - 9)
  chars.take 4 == "swf-".toList && decide (14 ≤ chars.length) &&
    (slug.head?.any isSlugStart) && slug.all isSlugChar &&
    digest.head? == some '-' && digest.tail.all isLowerHex

/-- `name.rsplit("-", 1)[-1]`. -/
def lastSegment (name : String) : String :=
  String.ofList (name.toList.reverse.takeWhile (fun c => c != '-')).reverse

/-- `sweep_orphans`. -/
def sweepOrphans (listing : List Sandbox) (ttl now : Int) (owner : String) :
    List String :=
  (ownedSandboxes setup listing owner).filterMap (fun item =>
    if isSandboxName item.name &&
        item.created.any (fun stamp => decide (ttl < now - stamp.at_)) then
      some item.name
    else none)

/-- `cell_for_sandbox`. -/
def cellForSandbox (name : String) (cells : List Cell) : Option Cell :=
  cells.find? (fun cell =>
    Factory.isSet cell.airflowRunId &&
      decide (setup.runIdFor (cell.airflowRunId.getD "") (cell.mapIndex.getD 0) =
        lastSegment name))

/-- `sandbox_identity`. -/
def sandboxIdentity (item : Sandbox) (cell : Option Cell) (owner : String) :
    SandboxIdentity :=
  let attempt :=
    match item.created with
    | some stamp => stamp.isoformat
    | none => lastSegment item.name
  match cell with
  | none =>
      ⟨"islo", setup.stableId ⟨owner, "islo", item.name⟩, 1, attempt⟩
  | some cell => ⟨"islo", cell.cellId, cell.epoch, attempt⟩

/-- `authorize_removal`. -/
def authorizeRemoval (i : SandboxIdentity) (cell : Option Cell) :
    Except BackendError CleanupDecision :=
  match cell with
  | none => authorizeCleanup i i.labels (some 1) false
  | some cell =>
      authorizeCleanup i i.labels (some cell.epoch) (!cell.state.isTerminal)

/-- `authorize_container`. -/
def authorizeContainer (i : SandboxIdentity) (row : Container)
    (cell : Option Cell) : Except BackendError CleanupDecision :=
  match cell with
  | none => authorizeCleanup i row.labels none false
  | some cell =>
      authorizeCleanup i row.labels (some cell.epoch) (!cell.state.isTerminal)

end Sandboxes

section Removals

variable [DecidableEq V]

/-- The reference that a removal is journaled under. -/
def removalRef (r : Removal) : Journal.OperationRef :=
  buildRef setup r.identity.cellId r.identity.epoch cleanupKind
    [r.resource, r.identity.attemptId]

/-- The observation of `_remove`, when its effect has raised. -/
def observeRemoval (ref : Journal.OperationRef) : Method V (Option V) :=
  (onKey ref.key (Journal.observe ref)).finish (fun
    | .ok outcome =>
        .ret (if outcome.status = .committed then outcome.result else none)
    | .error (.operation _) => .ret none
    | .error e => .raise e)

/-- `_remove`. -/
def remove (r : Removal) : Method V (Option V) := do
  let _ ← perform (.requestedAt r)
  (mutate (removalRef setup r) true true).finish (fun
    | .ok result => .ret result
    | .error _ => observeRemoval (removalRef setup r))

/-- The body of both loops, once a decision is made. -/
def removeNominee (r : Removal) (decision : CleanupDecision)
    (debt : CleanupDebt) (report : Report) :
    Method V (CleanupDebt × Report) :=
  if decision ≠ .remove then
    .ret (debt, { report with kept := report.kept ++ [r.resource] })
  else do
    let debt ← .ofExcept (debt.record r.resource r.identity)
    let receipt ← remove setup r
    if receipt.isSome then do
      let debt ← .ofExcept (debt.settle r.resource r.identity)
      return (debt, { report with removed := report.removed ++ [r.resource] })
    else return (debt, report)

/-- One turn of `_sweep_islo`. -/
def sweepSandbox (owner : String) (items : List Sandbox) (cells : List Cell)
    (name : String) (debt : CleanupDebt) (report : Report) :
    Method V (CleanupDebt × Report) :=
  match lookup Sandbox.name name items.reverse with
  | none => .raise (.other name)
  | some item => do
      let cell := cellForSandbox setup name cells
      let identity := sandboxIdentity setup item cell owner
      let decision ← .ofExcept (authorizeRemoval identity cell)
      removeNominee setup ⟨name, cell, identity⟩ decision debt report

/-- The loop of `_sweep_islo`. -/
def sweepNames (owner : String) (items : List Sandbox) (cells : List Cell) :
    List String → CleanupDebt → Report → Method V (CleanupDebt × Report)
  | [], debt, report => .ret (debt, report)
  | name :: names, debt, report => do
      let (debt, report) ← sweepSandbox setup owner items cells name debt report
      sweepNames owner items cells names debt report

/-- The row is a cleanup of a resource that its provider no longer lists. -/
def settles (provider : String) (present : List String)
    (row : Journal.Row V) : Option String :=
  match row.observation with
  | some (.observation _ (some (.document evidence)) _) =>
      let (resource, named) := setup.evidenceOf evidence
      if row.kind ≠ cleanupKind ∨ resource = "" ∨ resource ∈ present ∨
          named ≠ provider then none
      else some resource
  | _ => none

/-- The loop of `_settle_absent`. -/
def settleRows (provider : String) (present : List String) :
    List (String × Journal.Row V) → Method V (List String)
  | [] => .ret []
  | (key, row) :: rows =>
      match settles setup provider present row with
      | none => settleRows provider present rows
      | some resource => do
          let outcome ← onKey key
            (Journal.observe ⟨row.cellId, row.epoch, cleanupKind, key⟩)
          let rest ← settleRows provider present rows
          return if outcome.status = .committed then resource :: rest else rest

/-- `_settle_absent`. -/
def settleAbsent (provider : String) (present : List String) :
    Method V (List String) := do
  let rows : List (String × Journal.Row V) ← perform (.unresolved 1000)
  settleRows setup provider present rows

/-- `_sweep_islo`. -/
def sweepIslo (ttl : Int) (owner : String) (cells : List Cell) (limit : Int) :
    Method V Report := do
  let now : Int ← perform .now
  let answer : Except String (List Sandbox) ← perform .listing
  let listing ← outside answer
  let items := ownedSandboxes setup listing owner
  let names := (sweepOrphans setup listing ttl now owner).take limit.toNat
  let (debt, report) ← sweepNames setup owner items cells names [] {}
  let reconciled ← settleAbsent setup "islo" (items.map Sandbox.name)
  return { report with debt := debt.names, reconciled := reconciled }

/-- One turn of `sweep_containers`. -/
def sweepContainer (cells : List Cell) (row : Container) (debt : CleanupDebt)
    (report : Report) : Method V (CleanupDebt × Report) :=
  match fromLabels setup "docker" row.labels with
  | none => .ret (debt, { report with kept := report.kept ++ [row.id] })
  | some identity => do
      let cell := lookup Cell.cellId identity.cellId cells.reverse
      let decision ← .ofExcept (authorizeContainer identity row cell)
      removeNominee setup ⟨row.id, cell, identity⟩ decision debt report

/-- The loop of `sweep_containers`. -/
def sweepRows (cells : List Cell) :
    List Container → CleanupDebt → Report → Method V (CleanupDebt × Report)
  | [], debt, report => .ret (debt, report)
  | row :: rows, debt, report => do
      let (debt, report) ← sweepContainer setup cells row debt report
      sweepRows cells rows debt report

/-- `sweep_containers`. -/
def sweepContainers (cells : List Cell) (limit : Int) : Method V Report := do
  let answer : Except String (List Container) ← perform .containers
  let rows ← outside answer
  let (debt, report) ← sweepRows setup cells (rows.take limit.toNat) [] {}
  let reconciled ← settleAbsent setup "docker" (rows.map Container.id)
  return { report with debt := debt.names, reconciled := reconciled }

/-- `_sweep` and `sweep_sandboxes`. -/
def sweepSandboxes (ttl : Int) (owner : String) (docker : Bool) (limit : Int) :
    Method V Report := do
  let cells : List Cell ← perform (.listCells 1000)
  let islo ←
    if owner = "" then .ret {} else sweepIslo setup ttl owner cells limit
  if docker then
    -- a daemon that does not answer hides nothing of the first report
    (sweepContainers setup cells limit).finish (fun
      | .ok containers => .ret (islo.merge containers)
      | .error _ => .ret islo)
  else return islo

end Removals

end Backend
end SwFactory
