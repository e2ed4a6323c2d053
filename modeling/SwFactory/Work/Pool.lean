import SwFactory.Machine.Scheduled
import SwFactory.Text
import SwFactory.Work.Runner

/-!
# Running the nodes of a wave in a thread pool

The threads of the pool and the thread that waits in `as_completed` take turns
in an order that the schedule decides: a worker advances one future by one read
of the flag or one call of the runner, the waiting thread takes one finished
future or cancels one pending one.  The machine rests when no thread can move.

Source: `work_executor.py`, `_parallel`.
-/

namespace SwFactory
namespace Work

/-- A future of the pool, by where `_run_with_retry` stands in it. -/
inductive Slot
  | queued
  | checking (attempt : Nat)
  | calling (attempt : Nat)
  | finished (outcome : Except Raised NodeResult)
  | cancelled

def Slot.isQueued : Slot → Bool
  | .queued => true
  | _ => false

def Slot.isRunning : Slot → Bool
  | .checking _ | .calling _ => true
  | _ => false

def Slot.isDone : Slot → Bool
  | .finished _ | .cancelled => true
  | _ => false

def Slot.isCancelled : Slot → Bool
  | .cancelled => true
  | _ => false

/-- A future with its request; `as_completed` yields each future once. -/
structure Job where
  request : NodeRequest
  slot : Slot := .queued
  yielded : Bool := false

/-- Where the waiting thread stands. -/
inductive Main
  | waiting
  | dropping (rest : List Nat)
  | unwinding (reason : Raised) (rest : List Nat)

structure Pool where
  clock : Clock
  jobs : List Job
  main : Main := .waiting
  byId : List (String × NodeResult) := []

inductive PoolMove
  | work (i : Nat)
  | yield (i : Nat)
  | drop
  | interrupt

/-- One step of `_run_with_retry` inside a future. -/
def advance (w : World) (policy : ExecutorPolicy) (request : NodeRequest)
    (c : Clock) : Slot → Clock × Slot
  | .queued => (c.next, .checking 1)
  | .checking attempt =>
      let c := w.poll c
      if c.cancelled then
        (c, .finished (.ok (cancelledResult w.digest request attempt)))
      else
        (c, .calling attempt)
  | .calling attempt =>
      match callRunner w request attempt c.tick with
      | .error e => (c.next, .finished (.error e))
      | .ok result =>
          if result.retryable ∧ attempt < policy.maxAttempts then
            (c.next, .checking (attempt + 1))
          else
            (c.next, .finished (.ok result))
  | slot => (c.next, slot)

/-- What an exception of a future is reported as. -/
def failedResult (digest : String → String) (request : NodeRequest)
    (e : Raised) : NodeResult where
  logicalId := request.logicalId digest
  nodeId := request.node.id
  state := .failed
  inputHead := request.inputHead
  outputHead := none
  attempt := request.attempt
  detail := Text.truncate 2000 (e.kind ++ ": " ++ e.text)

/-- `future.result()`, its exceptions reported. -/
def Job.result (digest : String → String) (job : Job) : NodeResult :=
  match job.slot with
  | .finished (.ok result) => result
  | .finished (.error e) => failedResult digest job.request e
  | _ => failedResult digest job.request ⟨"CancelledError", ""⟩

/-- `pending.cancel()`: only a future that has not started is cancelled. -/
def Job.cancel (job : Job) : Job :=
  if job.slot.isQueued then { job with slot := .cancelled } else job

def cancelAt (jobs : List Job) (i : Nat) : List Job :=
  match jobs[i]? with
  | none => jobs
  | some job => jobs.set i job.cancel

/-- The body of the loop over `as_completed`. -/
def Pool.collect (w : World) (p : Pool) (i : Nat) (job : Job) : Pool :=
  let c := w.poll p.clock
  let jobs := p.jobs.set i { job with yielded := true }
  if c.cancelled && job.slot.isCancelled then
    { p with clock := c, jobs := jobs }
  else
    let result := job.result w.digest
    let byId := (job.request.node.id, result) :: p.byId
    if result.state ≠ .ok then
      { clock := c.cancel
        jobs := jobs
        main := .dropping (List.range jobs.length)
        byId := byId }
    else
      { p with clock := c, jobs := jobs, byId := byId }

/-- Futures that hold a thread. -/
def Pool.busy (p : Pool) : Nat :=
  p.jobs.countP fun job => job.slot.isRunning

def Pool.allowed (w : World) (workers : Nat) (p : Pool) : PoolMove → Bool
  | .work i =>
      p.jobs[i]?.any fun job =>
        job.slot.isRunning || (job.slot.isQueued && decide (p.busy < workers))
  | .yield i =>
      (match p.main with
        | .waiting => true
        | _ => false) &&
      p.jobs[i]?.any fun job => job.slot.isDone && !job.yielded
  | .drop =>
      match p.main with
      | .waiting => false
      | .dropping _ => true
      | .unwinding _ rest => !rest.isEmpty
  | .interrupt =>
      (w.interrupts p.clock.tick).isSome &&
      match p.main with
      | .waiting => p.jobs.any fun job => !job.yielded
      | .dropping _ => true
      | .unwinding _ _ => false

def Pool.moves (w : World) (workers : Nat) (p : Pool) : List PoolMove :=
  (((List.range p.jobs.length).flatMap fun i => [PoolMove.work i, .yield i]) ++
    [PoolMove.drop, .interrupt]).filter (p.allowed w workers)

def Pool.step (w : World) (policy : ExecutorPolicy) (p : Pool) :
    PoolMove → Pool
  | .work i =>
      match p.jobs[i]? with
      | none => p
      | some job =>
          let (c, slot) := advance w policy job.request p.clock job.slot
          { p with clock := c, jobs := p.jobs.set i { job with slot := slot } }
  | .yield i =>
      match p.jobs[i]? with
      | none => p
      | some job => p.collect w i job
  | .drop =>
      match p.main with
      | .dropping (i :: rest) =>
          { p with
            clock := p.clock.next
            jobs := cancelAt p.jobs i
            main := .dropping rest }
      | .unwinding reason (i :: rest) =>
          { p with
            clock := p.clock.next
            jobs := cancelAt p.jobs i
            main := .unwinding reason rest }
      | .dropping [] => { p with clock := p.clock.next, main := .waiting }
      | _ => p
  | .interrupt =>
      match w.interrupts p.clock.tick with
      | none => p
      | some reason =>
          { p with
            clock := p.clock.next.cancel
            main := .unwinding reason (List.range p.jobs.length) }

/-- The threads of the pool and the waiting thread, under the schedule. -/
def poolMachine (w : World) (policy : ExecutorPolicy) (workers : Nat) :
    Machine.Scheduled Pool PoolMove where
  moves := Pool.moves w workers
  step := Pool.step w policy
  pick p := w.schedule p.clock.tick

/-- Steps that `n` futures can take altogether. -/
def poolFuel (policy : ExecutorPolicy) (n : Nat) : Nat :=
  n * (2 * policy.maxAttempts + 3 + (n + 2)) + (n + 1)

/-- The pool where it rests. -/
def pooled (w : World) (policy : ExecutorPolicy) (requests : List NodeRequest)
    (c : Clock) : Pool :=
  (poolMachine w policy (min policy.maxParallel requests.length)).settle
    (poolFuel policy requests.length)
    { clock := c, jobs := requests.map fun request => { request := request } }

/-- `_parallel`. -/
def parallel (w : World) (policy : ExecutorPolicy)
    (requests : List NodeRequest) (c : Clock) :
    Except Raised (List NodeResult × Clock) :=
  let p := pooled w policy requests c
  match p.main with
  | .unwinding reason _ => .error reason
  | _ => .ok (requests.filterMap fun r => p.byId.lookup r.node.id, p.clock)

/-- What a move that is allowed does to the pool. -/
inductive Pool.Step (w : World) (policy : ExecutorPolicy) (p : Pool) :
    Pool → Prop
  | work (i : Nat) (job : Job)
      (hjob : p.jobs[i]? = some job)
      (hactive : job.slot.isDone = false) :
      Step w policy p
        { p with
          clock := (advance w policy job.request p.clock job.slot).1
          jobs := p.jobs.set i
            { job with
              slot := (advance w policy job.request p.clock job.slot).2 } }
  | skip (i : Nat) (job : Job)
      (hjob : p.jobs[i]? = some job)
      (hslot : job.slot = .cancelled)
      (hfresh : job.yielded = false) :
      Step w policy p
        { p with
          clock := w.poll p.clock
          jobs := p.jobs.set i { job with yielded := true } }
  | collect (i : Nat) (job : Job)
      (hjob : p.jobs[i]? = some job)
      (hdone : job.slot.isDone = true)
      (hfresh : job.yielded = false)
      (hok : (job.result w.digest).state = .ok) :
      Step w policy p
        { p with
          clock := w.poll p.clock
          jobs := p.jobs.set i { job with yielded := true }
          byId := (job.request.node.id, job.result w.digest) :: p.byId }
  | fail (i : Nat) (job : Job)
      (hjob : p.jobs[i]? = some job)
      (hmain : p.main = .waiting)
      (hdone : job.slot.isDone = true)
      (hfresh : job.yielded = false)
      (hbad : (job.result w.digest).state ≠ .ok)
      (hflag : (w.poll p.clock).cancelled = false ∨ job.slot ≠ .cancelled) :
      Step w policy p
        { clock := (w.poll p.clock).cancel
          jobs := p.jobs.set i { job with yielded := true }
          main := .dropping (List.range p.jobs.length)
          byId := (job.request.node.id, job.result w.digest) :: p.byId }
  | drop (i : Nat) (rest : List Nat)
      (hmain : p.main = .dropping (i :: rest)) :
      Step w policy p
        { p with
          clock := p.clock.next
          jobs := cancelAt p.jobs i
          main := .dropping rest }
  | dropped
      (hmain : p.main = .dropping []) :
      Step w policy p { p with clock := p.clock.next, main := .waiting }
  | unwind (reason : Raised) (i : Nat) (rest : List Nat)
      (hmain : p.main = .unwinding reason (i :: rest)) :
      Step w policy p
        { p with
          clock := p.clock.next
          jobs := cancelAt p.jobs i
          main := .unwinding reason rest }
  | interrupt (reason : Raised)
      (hmain : ∀ e rest, p.main ≠ .unwinding e rest)
      (hreason : w.interrupts p.clock.tick = some reason) :
      Step w policy p
        { p with
          clock := p.clock.next.cancel
          main := .unwinding reason (List.range p.jobs.length) }

theorem Slot.isCancelled_iff {slot : Slot} :
    slot.isCancelled = true ↔ slot = .cancelled := by
  cases slot <;> simp [isCancelled]

theorem step_of_allowed
    {w : World} {policy : ExecutorPolicy} {workers : Nat}
    {p : Pool} {m : PoolMove}
    (h : p.allowed w workers m = true) :
    Pool.Step w policy p (p.step w policy m) := by
  cases m with
  | work i =>
      simp only [Pool.allowed, Option.any_eq_true, Bool.or_eq_true,
        Bool.and_eq_true] at h
      obtain ⟨job, hjob, hactive⟩ := h
      simp only [Pool.step, hjob]
      refine .work i job hjob ?_
      cases hslot : job.slot <;>
        simp_all [Slot.isRunning, Slot.isQueued, Slot.isDone]
  | yield i =>
      simp only [Pool.allowed, Option.any_eq_true, Bool.and_eq_true,
        Bool.not_eq_true'] at h
      obtain ⟨hmain, job, hjob, hdone, hfresh⟩ := h
      have hwaiting : p.main = .waiting := by
        cases hm : p.main <;> simp_all
      simp only [Pool.step, hjob, Pool.collect, List.length_set]
      split
      · next hskip =>
          rw [Bool.and_eq_true, Slot.isCancelled_iff] at hskip
          exact .skip i job hjob hskip.2 hfresh
      · next hskip =>
          rw [Bool.and_eq_true, Slot.isCancelled_iff, not_and_or] at hskip
          split
          · next hbad =>
              refine .fail i job hjob hwaiting hdone hfresh hbad ?_
              exact hskip.imp_left (by simp)
          · next hok =>
              exact .collect i job hjob hdone hfresh (not_not.mp hok)
  | drop =>
      simp only [Pool.allowed] at h
      simp only [Pool.step]
      split
      · next hmain => exact .drop _ _ hmain
      · next hmain => exact .unwind _ _ _ hmain
      · next hmain => exact .dropped hmain
      · next hdrop hunwind hdone =>
          -- the other positions of the waiting thread do not allow the move
          cases hm : p.main with
          | waiting =>
              simp [hm] at h
          | dropping rest =>
              cases rest with
              | nil => exact absurd hm hdone
              | cons i rest => exact absurd hm (hdrop i rest)
          | unwinding reason rest =>
              cases rest with
              | nil => simp [hm] at h
              | cons i rest => exact absurd hm (hunwind reason i rest)
  | interrupt =>
      simp only [Pool.allowed, Bool.and_eq_true, Option.isSome_iff_exists] at h
      obtain ⟨⟨reason, hreason⟩, hmain⟩ := h
      simp only [Pool.step, hreason]
      refine .interrupt reason ?_ hreason
      intro e rest hm
      simp [hm] at hmain

/-- Steps that a future can still take. -/
def Slot.weight (policy : ExecutorPolicy) : Slot → Nat
  | .queued => 2 * policy.maxAttempts + 3
  | .checking attempt => 2 * (policy.maxAttempts + 1 - attempt) + 2
  | .calling attempt => 2 * (policy.maxAttempts + 1 - attempt) + 1
  | .finished _ => 0
  | .cancelled => 0

/-- Taking a future may make the waiting thread go over all of them. -/
def Job.weight (policy : ExecutorPolicy) (n : Nat) (job : Job) : Nat :=
  job.slot.weight policy + if job.yielded then 0 else n + 2

def Main.weight (n : Nat) : Main → Nat
  | .waiting => n + 1
  | .dropping rest => n + 1 + (rest.length + 1)
  | .unwinding _ rest => rest.length

def Pool.weight (policy : ExecutorPolicy) (p : Pool) : Nat :=
  (p.jobs.map (Job.weight policy p.jobs.length)).sum +
    p.main.weight p.jobs.length

theorem advance_weight
    {w : World} {policy : ExecutorPolicy} {request : NodeRequest}
    {c : Clock} {slot : Slot}
    (hactive : slot.isDone = false) :
    (advance w policy request c slot).2.weight policy < slot.weight policy := by
  have hpos := policy.maxAttempts_pos
  cases slot with
  | queued =>
      simp only [advance, Slot.weight]
      omega
  | checking attempt =>
      simp only [advance]
      split <;> simp only [Slot.weight] <;> omega
  | calling attempt =>
      simp only [advance]
      split
      · simp only [Slot.weight]
        omega
      · split
        · next hretry =>
            have := hretry.2
            simp only [Slot.weight]
            omega
        · simp only [Slot.weight]
          omega
  | finished outcome =>
      simp [Slot.isDone] at hactive
  | cancelled =>
      simp [Slot.isDone] at hactive

theorem Job.cancel_weight (policy : ExecutorPolicy) (n : Nat) (job : Job) :
    job.cancel.weight policy n ≤ job.weight policy n := by
  unfold Job.cancel
  split
  · simp only [Job.weight, Slot.weight]
    omega
  · exact Nat.le_refl _

@[simp] theorem length_cancelAt (jobs : List Job) (i : Nat) :
    (cancelAt jobs i).length = jobs.length := by
  unfold cancelAt
  split <;> simp

theorem cancelAt_weight (policy : ExecutorPolicy) (n : Nat)
    (jobs : List Job) (i : Nat) :
    ((cancelAt jobs i).map (Job.weight policy n)).sum ≤
      (jobs.map (Job.weight policy n)).sum := by
  unfold cancelAt
  split
  · exact Nat.le_refl _
  · next job hjob =>
      have hsum := Machine.sum_map_set (Job.weight policy n) job.cancel hjob
      have hle := Job.cancel_weight policy n job
      omega

theorem yield_weight (policy : ExecutorPolicy) (n : Nat)
    {jobs : List Job} {i : Nat} {job : Job}
    (hjob : jobs[i]? = some job)
    (hfresh : job.yielded = false) :
    ((jobs.set i { job with yielded := true }).map
        (Job.weight policy n)).sum + (n + 2) =
      (jobs.map (Job.weight policy n)).sum := by
  have hsum := Machine.sum_map_set (Job.weight policy n)
    { job with yielded := true } hjob
  simp only [Job.weight, hfresh, if_true, Bool.false_eq_true, if_false] at hsum ⊢
  omega

/-- Every step of the pool takes one of the steps it had left. -/
theorem Pool.Step.weight_lt
    {w : World} {policy : ExecutorPolicy} {p p' : Pool}
    (h : Pool.Step w policy p p') :
    p'.weight policy < p.weight policy := by
  cases h with
  | work i job hjob hactive =>
      have hlt :
          (advance w policy job.request p.clock job.slot).2.weight policy <
            job.slot.weight policy :=
        advance_weight hactive
      have hsum := Machine.sum_map_set (Job.weight policy p.jobs.length)
        { job with
          slot := (advance w policy job.request p.clock job.slot).2 } hjob
      simp only [Job.weight] at hsum
      simp only [Pool.weight, List.length_set]
      omega
  | skip i job hjob hslot hfresh =>
      have hsum := yield_weight policy p.jobs.length hjob hfresh
      simp only [Pool.weight, List.length_set]
      omega
  | collect i job hjob hdone hfresh hok =>
      have hsum := yield_weight policy p.jobs.length hjob hfresh
      simp only [Pool.weight, List.length_set]
      omega
  | fail i job hjob hmain hdone hfresh hbad hflag =>
      have hsum := yield_weight policy p.jobs.length hjob hfresh
      simp only [Pool.weight, List.length_set, hmain, Main.weight,
        List.length_range]
      omega
  | drop i rest hmain =>
      have hle := cancelAt_weight policy p.jobs.length p.jobs i
      simp only [Pool.weight, length_cancelAt, hmain, Main.weight,
        List.length_cons]
      omega
  | dropped hmain =>
      simp only [Pool.weight, hmain, Main.weight, List.length_nil]
      omega
  | unwind reason i rest hmain =>
      have hle := cancelAt_weight policy p.jobs.length p.jobs i
      simp only [Pool.weight, length_cancelAt, hmain, Main.weight,
        List.length_cons]
      omega
  | interrupt reason hmain hreason =>
      have hbefore : p.jobs.length < p.main.weight p.jobs.length := by
        cases hm : p.main with
        | waiting => simp only [Main.weight]; omega
        | dropping rest => simp only [Main.weight]; omega
        | unwinding e rest => exact absurd hm (hmain e rest)
      have hafter : Main.weight p.jobs.length
          (.unwinding reason (List.range p.jobs.length)) = p.jobs.length :=
        List.length_range
      simp only [Pool.weight, hafter]
      omega

end Work
end SwFactory
