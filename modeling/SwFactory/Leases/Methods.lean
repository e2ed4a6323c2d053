import SwFactory.Cells.Growth
import SwFactory.Text
import SwFactory.Machine.Tables

/-!
# The credential lease broker

One backend process owns the broker, and every method holds its lock for the
whole of its transaction; so a transaction is one function on the tables.
Inside, the statements stand in the order of the source, with the places where
it commits and where an exception rolls back.

Digests are a parameter.  Beside the tables a log keeps the handles that were
given out (no part of the program: the bearer of a lease is never stored).

The methods are programs over the broker's transactions.  The clock and the
Cell's epoch are read outside of them.  `World` puts the broker beside the
connections of the Cell store: an epoch is read from the committed store, and
the callback of `take_epoch` and `activate` revokes the leases of the epoch
they end, before they commit the next one.

Sources: `credential_lease.py`, `backend/service.py` (how the two are joined).
-/

namespace SwFactory
namespace Leases

open Text Machine

/-! ## Tables and transactions -/

structure LeaseBinding where
  factoryRunId : String
  dagRunId : String
  taskInstanceId : String
  stageId : String
  sandboxId : String
  attemptNumber : Int
  cellId : String
  epoch : Int
  operationKey : String
  policyDigest : String
deriving DecidableEq, Repr

/-- The `ValueError`s of `validate`. -/
inductive InvalidBinding
  /-- must be a nonempty bounded string -/
  | text (field : String)
  /-- credential lease requires a valid Factory Cell id -/
  | cellId
  /-- must be an integer in [1, 2**64 - 1] -/
  | range (field : String)
  /-- credential lease requires a canonical policy digest -/
  | policyDigest
deriving DecidableEq, Repr

/-- The strings that `validate` checks, in its order. -/
def LeaseBinding.strings (b : LeaseBinding) : List (String × String) :=
  [("factory_run_id", b.factoryRunId),
    ("dag_run_id", b.dagRunId),
    ("task_instance_id", b.taskInstanceId),
    ("stage_id", b.stageId),
    ("sandbox_id", b.sandboxId),
    ("operation_key", b.operationKey),
    ("policy_digest", b.policyDigest)]

/-- An integer in `[1, 2**64 - 1]`. -/
def isPositiveU64 (n : Int) : Bool :=
  decide (1 ≤ n ∧ n ≤ 2 ^ 64 - 1)

/-- `validate`. -/
def LeaseBinding.validate (b : LeaseBinding) : Except InvalidBinding Unit :=
  match b.strings.find? (fun f => isBlank f.2 || decide (512 < f.2.length)) with
  | some (field, _) => .error (.text field)
  | none =>
      if !isCellId b.cellId then .error .cellId
      else if !isPositiveU64 b.epoch then .error (.range "epoch")
      else if !isPositiveU64 b.attemptNumber then .error (.range "attempt_number")
      else if b.policyDigest.toList.take 7 ≠ "policy:".toList then
        .error .policyDigest
      else .ok ()

structure LeaseHandle where
  leaseId : String
  bearer : String
deriving DecidableEq, Repr

/-- `_hash_secret` and `LeaseBinding.digest`. -/
structure Digests (H : Type) where
  secret : String → H
  binding : LeaseBinding → H

/-- Different texts have different digests. -/
structure Digests.CollisionFree {H : Type} (digests : Digests H) : Prop where
  secret : Function.Injective digests.secret
  binding : Function.Injective digests.binding

/-- One row of `credential_leases`. -/
structure Lease (H : Type) where
  leaseId : String
  secretHash : H
  capability : String
  purpose : String
  binding : LeaseBinding
  bindingDigest : H
  expiresAt : Time
  processHash : Option H := none
  revokedAt : Option Time := none
  revokeReason : Option String := none
  createdAt : Time
  cellId : String
  epoch : Int
  attemptNumber : Int
deriving DecidableEq, Repr

/-- The reasons of a denial. -/
inductive DenialReason
  | unknownLease
  | invalidBearer
  | revoked
  | expired
  | bindingMismatch
  | staleEpoch
  | processMismatch
  | providerUnavailable
deriving DecidableEq, Repr

/-- One row of `credential_denials`. -/
structure LeaseDenial (H : Type) where
  leaseId : String
  reason : DenialReason
  bindingDigest : H
  capability : Option String
  purpose : Option String
  factoryRunId : String
  cellId : String
  epoch : Int
  attemptNumber : Int
  createdAt : Time
deriving DecidableEq, Repr

/-- What the methods of the broker raise. -/
inductive LeaseError
  | invalid (e : InvalidBinding)
  /-- credential capability must be explicit and deny-by-default -/
  | implicitCapability
  /-- capability has no trusted provider -/
  | noProvider (capability : String)
  /-- purpose must be nonempty and bounded -/
  | purpose
  /-- ttl_s must be in (0, 3600] -/
  | ttl
  /-- cannot mint a credential lease for a stale Cell epoch -/
  | staleMint
  /-- process_nonce must contain at least 16 characters -/
  | shortNonce
  | denied (reason : DenialReason)
  /-- The trusted provider raised. -/
  | providerFailed
  /-- trusted provider returned no credential -/
  | noCredential
  /-- attempt_number must be positive -/
  | attemptNumber
  /-- The epoch reader raised. -/
  | keyError (cellId : String)
  /-- `sqlite3.IntegrityError` -/
  | integrityError
deriving DecidableEq, Repr

/-- The tables, and the handles that were given out with their bindings. -/
structure Broker (H : Type) where
  leases : List (Lease H) := []
  denials : List (LeaseDenial H) := []
  minted : List (LeaseHandle × LeaseBinding) := []
deriving DecidableEq, Repr

/-- What a trusted provider does; what is no string counts as the empty one. -/
inductive Provided
  | raised
  | value (credential : String)
deriving DecidableEq, Repr

/-- The arguments of `redeem`. -/
structure Redeem where
  handle : LeaseHandle
  binding : LeaseBinding
  processNonce : String
  now : Option Time := none
deriving DecidableEq, Repr

section Transactions

variable {H : Type} [DecidableEq H]
variable (digests : Digests H)

namespace Broker

/-- `SELECT * FROM credential_leases WHERE lease_id=?`. -/
def find (leaseId : String) (b : Broker H) : Option (Lease H) :=
  lookup Lease.leaseId leaseId b.leases

/-- The transaction of `mint`: `lease_id` is the primary key. -/
def insert (lease : Lease H) (handle : LeaseHandle) (b : Broker H) :
    Except LeaseError Unit × Broker H :=
  match b.find lease.leaseId with
  | some _ => (.error .integrityError, b)
  | none =>
      (.ok (),
        { b with
          leases := b.leases ++ [lease]
          minted := b.minted ++ [(handle, lease.binding)] })

/-- `_deny`, which commits what stands in the draft `b`. -/
def deny (r : Redeem) (clock : Time) (reason : DenialReason)
    (row : Option (Lease H)) (b : Broker H) :
    Except LeaseError String × Broker H :=
  (.error (.denied reason),
    { b with
      denials := b.denials ++
        [{ leaseId := r.handle.leaseId
           reason := reason
           bindingDigest := digests.binding r.binding
           capability := row.map (·.capability)
           purpose := row.map (·.purpose)
           factoryRunId := r.binding.factoryRunId
           cellId := r.binding.cellId
           epoch := r.binding.epoch
           attemptNumber := r.binding.attemptNumber
           createdAt := clock }] })

/-- `UPDATE ... SET process_hash=? WHERE lease_id=? AND process_hash IS NULL`. -/
def bindProcess (leaseId : String) (processHash : H) (b : Broker H) : Broker H :=
  { b with
    leases := updateRows Lease.leaseId leaseId
      (fun l => { l with processHash := l.processHash.or (some processHash) })
      b.leases }

/-- The checks of `redeem` on the row it has read; `none` passes. -/
def refusal (r : Redeem) (clock : Time) (currentEpoch : Int) (row : Lease H) :
    Option DenialReason :=
  if row.secretHash ≠ digests.secret r.handle.bearer then some .invalidBearer
  else if row.revokedAt ≠ none then some .revoked
  else if row.expiresAt ≤ clock then some .expired
  else if row.bindingDigest ≠ digests.binding r.binding then some .bindingMismatch
  else if currentEpoch ≠ r.binding.epoch then some .staleEpoch
  else none

/-- The rest of `redeem` on the draft `bound` over the committed tables `b`. -/
def materialize (providers : List String) (r : Redeem) (clock : Time)
    (provided : Provided) (bound b : Broker H) :
    Except LeaseError String × Broker H :=
  match bound.find r.handle.leaseId with
  | none => deny digests r clock .processMismatch none bound
  | some row =>
      if row.processHash ≠ some (digests.secret r.processNonce) then
        deny digests r clock .processMismatch (some row) bound
      else if row.capability ∉ providers then
        deny digests r clock .providerUnavailable (some row) bound
      else
        match provided with
        | .raised => (.error .providerFailed, b)
        | .value credential =>
            if credential = "" then (.error .noCredential, b)
            else (.ok credential, bound)

/-- The transaction of `redeem`. -/
def redeem (providers : List String) (r : Redeem) (clock : Time)
    (currentEpoch : Int) (provided : Provided) (b : Broker H) :
    Except LeaseError String × Broker H :=
  match b.find r.handle.leaseId with
  | none => deny digests r clock .unknownLease none b
  | some row =>
      match refusal digests r clock currentEpoch row with
      | some reason => deny digests r clock reason (some row) b
      | none =>
          let bound :=
            match row.processHash with
            | none =>
                b.bindProcess r.handle.leaseId (digests.secret r.processNonce)
            | some _ => b
          materialize digests providers r clock provided bound b

/-- `_revoke`, with the rows it is about; returns how many it revoked. -/
def revoke (which : Lease H → Bool) (reason : String) (clock : Time)
    (b : Broker H) : Nat × Broker H :=
  (b.leases.countP (fun l => which l && l.revokedAt.isNone),
    { b with
      leases := b.leases.map fun l =>
        if which l && l.revokedAt.isNone then
          { l with revokedAt := some clock, revokeReason := some reason }
        else l })

end Broker

end Transactions

/-! ## Methods -/

/-- The leases that a revocation is about. -/
inductive Which
  | lease (leaseId : String)
  | epoch (cellId : String) (epoch : Int)
  | prior (cellId : String) (epoch : Int) (attemptNumber : Int)
deriving DecidableEq, Repr

def Which.selects {H : Type} : Which → Lease H → Bool
  | .lease leaseId, l => decide (l.leaseId = leaseId)
  | .epoch cellId n, l => decide (l.cellId = cellId ∧ l.epoch = n)
  | .prior cellId n attemptNumber, l =>
      decide (l.cellId = cellId ∧ l.epoch = n ∧ l.attemptNumber < attemptNumber)

/-- The arguments of `mint`. -/
structure Mint where
  binding : LeaseBinding
  capability : String
  purpose : String := "external-effect"
  ttl : Time := 300
  now : Option Time := none
deriving DecidableEq, Repr

/-- The clock, the tokens, the epoch reader and the transactions. -/
inductive Stmt
  | time
  | tokens
  | epoch (cellId : String)
  | insert (m : Mint) (clock : Time) (handle : LeaseHandle)
  | redeem (r : Redeem) (clock : Time) (currentEpoch : Int)
  | revoke (which : Which) (reason : String) (clock : Time)

def Ans : Stmt → Type
  | .time => Time
  | .tokens => String × String
  | .epoch _ => Except LeaseError Int
  | .insert _ _ _ => Except LeaseError Unit
  | .redeem _ _ _ => Except LeaseError String
  | .revoke _ _ _ => Nat

/-- What the environment contributes to one statement. -/
structure Input where
  now : Time := 0
  tokens : String × String := ("", "")
  provided : Provided := .raised

/-- The capabilities with a trusted provider, and `str.casefold`. -/
structure Service where
  providers : List String
  casefold : String → String

abbrev Method (α : Type) := Prog Stmt Ans LeaseError α

section Methods

variable (service : Service)

def validate (b : LeaseBinding) : Method Unit :=
  match b.validate with
  | .error e => .raise (.invalid e)
  | .ok () => .ret ()

/-- `time.time() if now is None else now`. -/
def clockOr : Option Time → Method Time
  | some now => .ret now
  | none => .step .time fun now => .ret now

/-- `epoch_reader`. -/
def readEpoch (cellId : String) : Method Int :=
  .step (.epoch cellId) fun answer => .ofExcept answer

/-- The `capability` is a wildcard or names no scope. -/
def Service.isImplicit (service : Service) (capability : String) : Bool :=
  ["*", "all", "any", "github"].contains (service.casefold capability) ||
    !capability.toList.contains '.'

/-- The row of a new lease. -/
def newLease {H : Type} (digests : Digests H) (m : Mint) (clock : Time) (handle : LeaseHandle) : Lease H where
  leaseId := handle.leaseId
  secretHash := digests.secret handle.bearer
  capability := strip m.capability
  purpose := strip m.purpose
  binding := m.binding
  bindingDigest := digests.binding m.binding
  expiresAt := clock + m.ttl
  createdAt := clock
  cellId := m.binding.cellId
  epoch := m.binding.epoch
  attemptNumber := m.binding.attemptNumber

/-- `mint`. -/
def mint (m : Mint) : Method LeaseHandle := do
  validate m.binding
  let capability := strip m.capability
  let purpose := strip m.purpose
  if service.isImplicit capability then
    .raise .implicitCapability
  else if capability ∉ service.providers then
    .raise (.noProvider capability)
  else if purpose = "" ∨ 128 < purpose.length then
    .raise .purpose
  else if m.ttl = 0 ∨ 3600 < m.ttl then
    .raise .ttl
  else do
    let current ← readEpoch m.binding.cellId
    if current ≠ m.binding.epoch then
      .raise .staleMint
    else do
      let clock ← clockOr m.now
      .step .tokens fun (tokens : String × String) => do
        let handle : LeaseHandle :=
          { leaseId := "lease_" ++ tokens.1
            bearer := "swfl_" ++ tokens.2 }
        (.step (.insert m clock handle) fun inserted => .ofExcept inserted :
          Method Unit)
        return handle

/-- `redeem`, behind its checks. -/
def redeemChecked (r : Redeem) : Method String := do
  let clock ← clockOr r.now
  let currentEpoch ← readEpoch r.binding.cellId
  .step (.redeem r clock currentEpoch) fun answer => .ofExcept answer

/-- `redeem`. -/
def redeem (r : Redeem) : Method String := do
  validate r.binding
  if r.processNonce.length < 16 then
    .raise .shortNonce
  else
    redeemChecked r

/-- `_revoke`. -/
def revokeLeases (which : Which) (reason : String) (now : Option Time) :
    Method Nat := do
  let clock ← clockOr now
  .step (.revoke which reason clock) fun revoked => .ret revoked

/-- `revoke_prior_attempts`. -/
def revokePriorAttempts (cellId : String) (epoch attemptNumber : Int)
    (reason : String) (now : Option Time) : Method Nat :=
  if attemptNumber < 1 then
    .raise .attemptNumber
  else
    revokeLeases (.prior cellId epoch attemptNumber) reason now

/-- One call of a broker method. -/
inductive Call
  | mint (m : Mint)
  | redeem (r : Redeem)
  | revoke (leaseId reason : String) (now : Option Time)
  | revokeEpoch (cellId : String) (epoch : Int) (reason : String)
      (now : Option Time)
  | revokePriorAttempts (cellId : String) (epoch attemptNumber : Int)
      (reason : String) (now : Option Time)

/-- What a call returns. -/
inductive Returned
  | handle (handle : LeaseHandle)
  | credential (value : String)
  | count (n : Nat)
deriving DecidableEq, Repr

def Call.prog : Call → Method Returned
  | .mint m => do
      return .handle (← Leases.mint service m)
  | .redeem r => do
      return .credential (← Leases.redeem r)
  | .revoke leaseId reason now => do
      return .count (← revokeLeases (.lease leaseId) reason now)
  | .revokeEpoch cellId epoch reason now => do
      return .count (← revokeLeases (.epoch cellId epoch) reason now)
  | .revokePriorAttempts cellId epoch attemptNumber reason now => do
      return .count
        (← Leases.revokePriorAttempts cellId epoch attemptNumber reason now)

variable {H : Type} [DecidableEq H]

/-- The meaning of the statements, with the Cells as they are committed. -/
def system (digests : Digests H) (cells : Cells.Store) :
    System Stmt Ans (Broker H) Input where
  exec _ s i b :=
    match s with
    | .time => (i.now, b)
    | .tokens => (i.tokens, b)
    | .epoch cellId =>
        match cells.find cellId with
        | none => (.error (.keyError cellId), b)
        | some c => (.ok c.epoch, b)
    | .insert m clock handle => b.insert (newLease digests m clock handle) handle
    | .redeem r clock currentEpoch =>
        b.redeem digests service.providers r clock currentEpoch i.provided
    | .revoke which reason clock => b.revoke which.selects reason clock
  crash _ b := b

end Methods

/-- The connections of the Cell store, and the threads of the broker. -/
structure World (H : Type) where
  cells : Cells.Configuration
  broker : Config Stmt Ans LeaseError Returned (Broker H)

inductive WorldMove
  | cell (m : Move Cells.Input)
  | broker (m : Move Input)

/-- The callback that a move of the Cell store performs, with its clock. -/
def callback (c : Cells.Configuration) :
    Move Cells.Input → Option (Which × String × Time)
  | .run p i =>
      match c.procs p, i.revocation with
      | .running (.step (.call (.revoke cellId epoch reason)) _), none =>
          some (.epoch cellId epoch, reason, i.now)
      | _, _ => none
  | .crash _ => none

section Worlds

variable {H : Type} [DecidableEq H]
variable (digests : Digests H) (service : Service)
variable (stableId : Cells.CellIdentity → String)

/-- The tables behind a callback. -/
def Broker.notified (b : Broker H) : Option (Which × String × Time) → Broker H
  | none => b
  | some (which, reason, clock) => (b.revoke which.selects reason clock).2

/-- One statement of one connection or of one thread. -/
def World.step (w : World H) : WorldMove → World H
  | .cell m =>
      { cells := Cells.step stableId w.cells m
        broker :=
          { w.broker with
            shared := w.broker.shared.notified (callback w.cells m) } }
  | .broker m =>
      { w with
        broker := (system service digests w.cells.shared.committed).step
          w.broker m }

/-- The moves of a run in order. -/
def World.run (w : World H) (ms : List WorldMove) : World H :=
  runFrom (World.step digests service stableId) w ms

/-- Nothing yet; every connection and every thread is about to make its call. -/
def World.start (cellCalls : Nat → Cells.Call) (calls : Nat → Call) :
    World H where
  cells := Cells.start stableId cellCalls
  broker :=
    { shared := {}
      procs := fun p => .running ((calls p).prog service) }

end Worlds

end Leases
end SwFactory
