import SwFactory.Text
import SwFactory.Machine.Runs
import SwFactory.Machine.Tables

/-!
# The webhook inbox: receipts and transactions

`DeliveryInbox` keeps one row per delivery id.  Every method opens its own
connection and runs in one `BEGIN IMMEDIATE` transaction, so the methods of all
receiver processes happen one after the other, in any order; the clock is read
before the transaction and can have any value.

A log records what the inbox granted (no part of the program): which receipt an
id was first admitted with, which claim token was given out for it, and when an
operator reopened it.
-/

namespace SwFactory
namespace Inbox

open Text Machine

/-- The states of a delivery. -/
inductive State
  | pending
  | dispatching
  | dispatched
  | dead
deriving DecidableEq, Repr

/-- `_swfactory_webhook` of a dispatch configuration. -/
structure WebhookConf where
  version : Nat
  deliveryId : String
  repository : String
  event : String
  payloadSha256 : String
deriving DecidableEq, Repr

/-- `conf`: what the trigger carries, and the webhook it came from. -/
structure Conf (C : Type) where
  trigger : C
  webhook : WebhookConf
deriving DecidableEq, Repr

/-- What a delivery id stands for. -/
structure Identity (C : Type) where
  repository : String
  payloadSha256 : String
  dagId : String
  dagRunId : String
  conf : Conf C
deriving DecidableEq, Repr

/-- `Delivery`, which is also one row of `deliveries`. -/
structure Delivery (C : Type) where
  deliveryId : String
  identity : Identity C
  event : String
  state : State := .pending
  attempts : Nat := 0
  totalAttempts : Nat := 0
  createdAt : Time
  updatedAt : Time
  nextAttemptAt : Time
  leaseUntil : Time := 0
  leaseToken : Option String := none
  lastError : Option String := none
  workOrderId : Option String := none
  admissionState : Option String := none
deriving DecidableEq, Repr

/-- Every exception that leaves a method of the inbox. -/
inductive InboxError
  /-- a valid X-GitHub-Delivery header is required -/
  | invalidDeliveryId
  /-- delivery id was already used for different content -/
  | differentContent
  /-- webhook inbox is full; resolve pending or dead deliveries -/
  | full
  /-- lease and attempt limits must be positive -/
  | limitsNotPositive
  | keyError (deliveryId : String)
  /-- only dead deliveries can be retried -/
  | notDead
deriving DecidableEq, Repr

/-- What the log records. -/
inductive Event (C : Type)
  | admitted (deliveryId : String) (identity : Identity C)
  | claimed (deliveryId token : String)
  | reopened (deliveryId : String)
deriving DecidableEq, Repr

/-- The table and the log, latest entry first. -/
structure Store (C : Type) where
  rows : List (Delivery C)
  log : List (Event C)

variable {C : Type}

/-- `_DELIVERY_RE`. -/
def isDeliveryId (value : String) : Bool :=
  let word (c : Char) : Bool := c.isAlphanum || c = '_' || c = '-'
  match value.toList with
  | [] => false
  | first :: rest =>
      first.isAlphanum && rest.length ≤ 127 && rest.all word

/-- The two digests of `enqueue`, as functions of what they hash. -/
structure Hashing where
  /-- `hashlib.sha256(event.encode() + b"\0" + body).hexdigest()` -/
  payloadSha256 : (event body : String) → String
  /-- `"swf_webhook__"` and the digest of the folded repository and the id -/
  runId : (repository deliveryId : String) → String

/-- The arguments of `enqueue`; `maxPending` is that of the calling inbox. -/
structure Enqueue (C : Type) where
  deliveryId : String
  event : String
  body : String
  repository : String
  dagId : String
  conf : C
  maxPending : Nat
  now : Time

/-- The receipt an `enqueue` asks for. -/
def Enqueue.identity (hash : Hashing) (args : Enqueue C) : Identity C :=
  let digest := hash.payloadSha256 args.event args.body
  { repository := args.repository
    payloadSha256 := digest
    dagId := args.dagId
    dagRunId := hash.runId args.repository args.deliveryId
    conf :=
      { trigger := args.conf
        webhook := ⟨1, args.deliveryId, args.repository, args.event, digest⟩ } }

/-- The row that `enqueue` inserts. -/
def Enqueue.fresh (hash : Hashing) (args : Enqueue C) : Delivery C where
  deliveryId := args.deliveryId
  identity := args.identity hash
  event := args.event
  createdAt := args.now
  updatedAt := args.now
  nextAttemptAt := args.now

/-- `state IN ('pending', 'dispatching', 'dead')`. -/
def Delivery.isOpen (row : Delivery C) : Bool :=
  decide (row.state ≠ .dispatched)

/-- The arguments of `claim`; `token` is its `uuid.uuid4().hex`. -/
structure Claim where
  lease : Int
  maxAttempts : Int
  token : String
  now : Time

/-- `state='dispatching' AND lease_until <= now`. -/
def Delivery.expired (now : Time) (row : Delivery C) : Bool :=
  decide (row.state = .dispatching) && decide (row.leaseUntil ≤ now)

/-- The rows that the first `UPDATE` of `claim` ends. -/
def Claim.exhausts (args : Claim) (row : Delivery C) : Bool :=
  decide (args.maxAttempts ≤ row.attempts) &&
    (decide (row.state = .pending) || row.expired args.now)

/-- The first `UPDATE` of `claim`. -/
def Claim.exhaust (args : Claim) (row : Delivery C) : Delivery C :=
  if args.exhausts row then
    { row with
      state := .dead
      leaseToken := none
      leaseUntil := 0
      updatedAt := args.now
      lastError := some "dispatch_attempts_exhausted" }
  else row

/-- The `WHERE` of the `SELECT` of `claim`. -/
def Claim.due (args : Claim) (row : Delivery C) : Bool :=
  (decide (row.state = .pending) && decide (row.nextAttemptAt ≤ args.now)) ||
    row.expired args.now

/-- `ORDER BY next_attempt_at, created_at, delivery_id`. -/
def before (left right : Delivery C) : Bool :=
  left.nextAttemptAt < right.nextAttemptAt ||
    (left.nextAttemptAt = right.nextAttemptAt &&
      (left.createdAt < right.createdAt ||
        (left.createdAt = right.createdAt &&
          decide (left.deliveryId ≤ right.deliveryId))))

/-- The row that `claim` selects. -/
def Claim.select (args : Claim) (rows : List (Delivery C)) :
    Option (Delivery C) :=
  ((rows.filter args.due).mergeSort before).head?

/-- The second `UPDATE` of `claim`. -/
def Claim.take (args : Claim) (row : Delivery C) : Delivery C :=
  { row with
    state := .dispatching
    attempts := row.attempts + 1
    totalAttempts := row.totalAttempts + 1
    leaseToken := some args.token
    leaseUntil := args.now + args.lease.toNat
    updatedAt := args.now }

/-- `WHERE delivery_id=? AND state='dispatching' AND lease_token=?`. -/
def Delivery.holds (delivery row : Delivery C) : Bool :=
  decide (row.deliveryId = delivery.deliveryId) &&
    decide (row.state = .dispatching) &&
    row.leaseToken.isSome && decide (row.leaseToken = delivery.leaseToken)

/-- The arguments of `complete`. -/
structure Complete (C : Type) where
  delivery : Delivery C
  workOrderId : Option String
  admissionState : Option String
  now : Time

/-- The `UPDATE` of `complete`. -/
def Complete.apply (args : Complete C) (row : Delivery C) : Delivery C :=
  { row with
    state := .dispatched
    leaseToken := none
    leaseUntil := 0
    lastError := none
    updatedAt := args.now
    workOrderId := args.workOrderId
    admissionState := args.admissionState }

/-- The arguments of `fail`. -/
structure Fail (C : Type) where
  delivery : Delivery C
  error : String
  retryable : Bool
  maxAttempts : Int
  retryAfter : Int
  now : Time

/-- `int(text[:4], 16)`. -/
def hexPrefix (text : String) : Nat :=
  (text.toList.take 4).foldl
    (fun n c => 16 * n + (if c.isDigit then c.toNat - 48 else c.toNat - 87)) 0

/-- `due`: when the next attempt may start. -/
def Fail.due (args : Fail C) : Time :=
  let delay := min 300 (5 * 2 ^ min (args.delivery.attempts - 1) 8)
  let jitter := hexPrefix args.delivery.identity.payloadSha256 %
    (max 1 (delay / 5) + 1)
  args.now + max (delay + jitter) (min (max args.retryAfter 0) 3600).toNat

/-- The `UPDATE` of `fail`. -/
def Fail.apply (args : Fail C) (row : Delivery C) : Delivery C :=
  { row with
    state :=
      if args.retryable && decide (args.delivery.attempts < args.maxAttempts) then
        .pending
      else .dead
    lastError := some args.error
    nextAttemptAt := args.due
    updatedAt := args.now
    leaseToken := none
    leaseUntil := 0 }

/-- The `UPDATE` of `retry`. -/
def reopen (now : Time) (row : Delivery C) : Delivery C :=
  { row with
    state := .pending
    attempts := 0
    nextAttemptAt := now
    updatedAt := now
    leaseToken := none
    leaseUntil := 0 }

/-- One call of a method. -/
inductive Op (C : Type)
  | enqueue (args : Enqueue C)
  | claim (args : Claim)
  | complete (args : Complete C)
  | fail (args : Fail C)
  | retry (deliveryId : String) (now : Time)

/-- What a call returns. -/
inductive Reply (C : Type)
  | receipt (delivery : Delivery C) (admitted : Bool)
  | claimed (delivery : Option (Delivery C))
  | changed (effective : Bool)
  | reopened (delivery : Delivery C)

namespace Store

/-- The row of a delivery id. -/
def row (store : Store C) (deliveryId : String) : Option (Delivery C) :=
  lookup Delivery.deliveryId deliveryId store.rows

/-- `UPDATE deliveries SET change WHERE delivery_id=?`. -/
def update (store : Store C) (deliveryId : String)
    (change : Delivery C → Delivery C) : Store C :=
  { store with rows := updateRows Delivery.deliveryId deliveryId change store.rows }

/-- `enqueue`. -/
def enqueue (hash : Hashing) (args : Enqueue C) (store : Store C) :
    Except InboxError (Reply C) × Store C :=
  if !isDeliveryId args.deliveryId then (.error .invalidDeliveryId, store)
  else
    match store.row args.deliveryId with
    | some old =>
        if old.identity.payloadSha256 ≠ (args.identity hash).payloadSha256 ||
            old.identity.repository ≠ args.repository then
          (.error .differentContent, store)
        else (.ok (.receipt old false), store)
    | none =>
        if args.maxPending ≤ store.rows.countP Delivery.isOpen then
          (.error .full, store)
        else
          (.ok (.receipt (args.fresh hash) true),
            { rows := store.rows ++ [args.fresh hash]
              log := .admitted args.deliveryId (args.identity hash) :: store.log })

/-- `claim`. -/
def claim (args : Claim) (store : Store C) :
    Except InboxError (Reply C) × Store C :=
  if args.lease ≤ 0 || args.maxAttempts < 1 then
    (.error .limitsNotPositive, store)
  else
    let rows := store.rows.map args.exhaust
    match args.select rows with
    | none => (.ok (.claimed none), { store with rows := rows })
    | some row =>
        (.ok (.claimed (some (args.take row))),
          { rows := updateRows Delivery.deliveryId row.deliveryId args.take rows
            log := .claimed row.deliveryId args.token :: store.log })

/-- `complete`. -/
def complete (args : Complete C) (store : Store C) :
    Except InboxError (Reply C) × Store C :=
  (.ok (.changed (store.rows.any args.delivery.holds)),
    { store with
      rows := store.rows.map (fun row =>
        if args.delivery.holds row then args.apply row else row) })

/-- `fail`. -/
def fail (args : Fail C) (store : Store C) :
    Except InboxError (Reply C) × Store C :=
  (.ok (.changed (store.rows.any args.delivery.holds)),
    { store with
      rows := store.rows.map (fun row =>
        if args.delivery.holds row then args.apply row else row) })

/-- `retry`. -/
def retry (deliveryId : String) (now : Time) (store : Store C) :
    Except InboxError (Reply C) × Store C :=
  match store.row deliveryId with
  | none => (.error (.keyError deliveryId), store)
  | some row =>
      if row.state ≠ .dead then (.error .notDead, store)
      else
        (.ok (.reopened (reopen now row)),
          { rows := updateRows Delivery.deliveryId deliveryId (reopen now) store.rows
            log := .reopened deliveryId :: store.log })

/-- One call on the inbox. -/
def exec (hash : Hashing) (store : Store C) :
    Op C → Except InboxError (Reply C) × Store C
  | .enqueue args => store.enqueue hash args
  | .claim args => store.claim args
  | .complete args => store.complete args
  | .fail args => store.fail args
  | .retry deliveryId now => store.retry deliveryId now

end Store

/-- The inbox after one call. -/
def step (hash : Hashing) (store : Store C) (op : Op C) : Store C :=
  (store.exec hash op).2

/-- A new inbox. -/
def empty : Store C := ⟨[], []⟩

end Inbox
end SwFactory
