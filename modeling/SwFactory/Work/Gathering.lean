import SwFactory.Work.Pool

/-!
# What the pool has gathered when it rests

Under every schedule the pool comes to rest with each future taken, or it
unwinds after an interrupt.  A future that was cancelled leaves the flag set, so
a wave whose flag is not set has a result for each of its nodes.
-/

namespace SwFactory
namespace Work

theorem forall_mem_set
    {P : Job → Prop} {jobs : List Job} {i : Nat} {job : Job}
    (hjobs : ∀ j ∈ jobs, P j)
    (hjob : P job) :
    ∀ j ∈ jobs.set i job, P j := by
  intro j hj
  rcases List.mem_or_eq_of_mem_set hj with hj | rfl
  · exact hjobs j hj
  · exact hjob

theorem map_request_set
    {jobs : List Job} {i : Nat} {job job' : Job}
    (hjob : jobs[i]? = some job)
    (hsame : job'.request = job.request) :
    (jobs.set i job').map (·.request) = jobs.map (·.request) := by
  induction jobs generalizing i with
  | nil =>
      simp at hjob
  | cons first rest ih =>
      cases i with
      | zero =>
          simp only [List.getElem?_cons_zero, Option.some.injEq] at hjob
          subst hjob
          simp [hsame]
      | succ i =>
          simp only [List.getElem?_cons_succ] at hjob
          simp [ih hjob]

theorem map_request_cancelAt (jobs : List Job) (i : Nat) :
    (cancelAt jobs i).map (·.request) = jobs.map (·.request) := by
  unfold cancelAt
  split
  · rfl
  · next job hjob =>
      refine map_request_set hjob ?_
      unfold Job.cancel
      split <;> rfl

/-- Cancelling the futures one by one touches those that have not started. -/
theorem forall_mem_cancelAt
    {P : Job → Prop} {jobs : List Job} {i : Nat}
    (hjobs : ∀ j ∈ jobs, P j)
    (hcancel : ∀ j, j.slot = .queued → P j → P { j with slot := .cancelled }) :
    ∀ j ∈ cancelAt jobs i, P j := by
  unfold cancelAt
  split
  · exact hjobs
  · next job hjob =>
      have hmem := List.mem_of_getElem? hjob
      refine forall_mem_set hjobs ?_
      unfold Job.cancel
      split
      · next hqueued =>
          refine hcancel job ?_ (hjobs job hmem)
          cases hslot : job.slot <;> simp_all [Slot.isQueued]
      · exact hjobs job hmem

/-- What holds of the pool in every state, whatever its surroundings do. -/
structure Pool.Sound (requests : List NodeRequest) (p : Pool) : Prop where
  requests : p.jobs.map (·.request) = requests
  own : ∀ job ∈ p.jobs, ∀ result, job.slot = .finished (.ok result) →
    result.nodeId = job.request.node.id
  flagged : ∀ job ∈ p.jobs, job.slot = .cancelled → p.clock.cancelled = true
  busy : p.main ≠ .waiting → p.clock.cancelled = true
  named : ∀ e ∈ p.byId, e.2.nodeId = e.1
  gathered : ∀ job ∈ p.jobs, job.yielded = true →
    job.slot = .cancelled ∨
      (job.slot.isDone = true ∧
        ∃ result, (job.request.node.id, result) ∈ p.byId)

theorem Job.result_nodeId
    {digest : String → String} {job : Job}
    (hown : ∀ result, job.slot = .finished (.ok result) →
      result.nodeId = job.request.node.id) :
    (job.result digest).nodeId = job.request.node.id := by
  unfold Job.result
  split
  · next result hslot =>
      exact hown result hslot
  · rfl
  · rfl

theorem advance_flag
    {w : World} {policy : ExecutorPolicy} {request : NodeRequest}
    {c : Clock} {slot : Slot}
    (h : c.cancelled = true) :
    (advance w policy request c slot).1.cancelled = true := by
  cases slot with
  | queued =>
      exact h
  | checking attempt =>
      have hpoll := World.poll_of_cancelled (w := w) h
      simp only [advance]
      split <;> exact hpoll
  | calling attempt =>
      simp only [advance]
      split
      · exact h
      · split <;> exact h
  | finished outcome =>
      exact h
  | cancelled =>
      exact h

/-- A future finishes with a result for its own node. -/
theorem advance_own
    {w : World} {policy : ExecutorPolicy} {request : NodeRequest}
    {c : Clock} {slot : Slot}
    (hactive : slot.isDone = false)
    {result : NodeResult}
    (h : (advance w policy request c slot).2 = .finished (.ok result)) :
    result.nodeId = request.node.id := by
  cases slot with
  | queued =>
      cases h
  | checking attempt =>
      simp only [advance] at h
      split at h
      · cases h
        rfl
      · cases h
  | calling attempt =>
      simp only [advance] at h
      split at h
      · cases h
      · next answer hanswer =>
          split at h
          · cases h
          · cases h
            exact callRunner_nodeId hanswer
  | finished outcome =>
      simp [Slot.isDone] at hactive
  | cancelled =>
      simp [Slot.isDone] at hactive

theorem advance_ne_cancelled
    {w : World} {policy : ExecutorPolicy} {request : NodeRequest}
    {c : Clock} {slot : Slot}
    (hactive : slot.isDone = false) :
    (advance w policy request c slot).2 ≠ .cancelled := by
  cases slot with
  | queued =>
      simp [advance]
  | checking attempt =>
      simp only [advance]
      split <;> simp
  | calling attempt =>
      simp only [advance]
      split
      · simp
      · split <;> simp
  | finished outcome =>
      simp [Slot.isDone] at hactive
  | cancelled =>
      simp [Slot.isDone] at hactive

theorem Pool.Step.flag
    {w : World} {policy : ExecutorPolicy} {p p' : Pool}
    (h : Pool.Step w policy p p')
    (hflag : p.clock.cancelled = true) :
    p'.clock.cancelled = true := by
  cases h with
  | work i job hjob hactive => exact advance_flag hflag
  | skip i job hjob hslot hfresh => exact World.poll_of_cancelled hflag
  | collect i job hjob hdone hfresh hok => exact World.poll_of_cancelled hflag
  | fail i job hjob hmain hdone hfresh hbad hor => rfl
  | drop i rest hmain => exact hflag
  | dropped hmain => exact hflag
  | unwind reason i rest hmain => exact hflag
  | interrupt reason hmain hreason => rfl

namespace Pool.Sound

variable {w : World} {policy : ExecutorPolicy}
variable {requests : List NodeRequest} {p p' : Pool}

/-- What the waiting thread does with a future it takes. -/
theorem yield {i : Nat} {job : Job} {c : Clock} {main : Main}
    {byId : List (String × NodeResult)}
    (hs : p.Sound requests)
    (hjob : p.jobs[i]? = some job)
    (hclock : p.clock.cancelled = true → c.cancelled = true)
    (hmain : main ≠ .waiting → c.cancelled = true)
    (hnew : ∀ e ∈ byId, e ∈ p.byId ∨
      e = (job.request.node.id, job.result w.digest))
    (hold : ∀ e ∈ p.byId, e ∈ byId)
    (htaken : job.slot = .cancelled ∨
      (job.slot.isDone = true ∧
        ∃ result, (job.request.node.id, result) ∈ byId)) :
    Pool.Sound requests
      { clock := c
        jobs := p.jobs.set i { job with yielded := true }
        main := main
        byId := byId } := by
  have hmem := List.mem_of_getElem? hjob
  constructor
  · rw [← hs.requests]
    exact map_request_set hjob rfl
  · exact forall_mem_set hs.own (hs.own job hmem)
  · have hflagged : ∀ j ∈ p.jobs, j.slot = .cancelled → c.cancelled = true :=
      fun j hj hslot => hclock (hs.flagged j hj hslot)
    exact forall_mem_set hflagged (hflagged job hmem)
  · exact hmain
  · intro e he
    rcases hnew e he with he | rfl
    · exact hs.named e he
    · exact Job.result_nodeId (hs.own job hmem)
  · refine forall_mem_set ?_ (fun _ => htaken)
    intro j hj hyielded
    refine (hs.gathered j hj hyielded).imp_right ?_
    rintro ⟨hdone, result, hresult⟩
    exact ⟨hdone, result, hold _ hresult⟩

/-- Cancelling a future keeps what holds of the pool. -/
theorem cancelAt {i : Nat} {main : Main}
    (hs : p.Sound requests)
    (hflag : p.clock.cancelled = true) :
    Pool.Sound requests
      { p with
        clock := p.clock.next
        jobs := cancelAt p.jobs i
        main := main } := by
  constructor
  · exact (map_request_cancelAt p.jobs i).trans hs.requests
  · refine forall_mem_cancelAt hs.own ?_
    intro j _ _ result hslot
    cases hslot
  · exact fun _ _ _ => hflag
  · exact fun _ => hflag
  · exact hs.named
  · refine forall_mem_cancelAt hs.gathered ?_
    intro j _ _ _
    exact .inl rfl

theorem step
    (hs : p.Sound requests)
    (h : Pool.Step w policy p p') :
    p'.Sound requests := by
  cases h with
  | work i job hjob hactive =>
      have hmem := List.mem_of_getElem? hjob
      constructor
      · rw [← hs.requests]
        exact map_request_set hjob rfl
      · exact forall_mem_set hs.own (fun result hslot => advance_own hactive hslot)
      · refine forall_mem_set ?_ ?_
        · exact fun j hj hslot => advance_flag (hs.flagged j hj hslot)
        · exact fun hslot => absurd hslot (advance_ne_cancelled hactive)
      · exact fun hmain => advance_flag (hs.busy hmain)
      · exact hs.named
      · refine forall_mem_set hs.gathered ?_
        -- a future that was taken is done, so it is not the one that advanced
        intro hyielded
        rcases hs.gathered job hmem hyielded with hslot | ⟨hdone, -⟩
        · simp [hslot, Slot.isDone] at hactive
        · simp [hdone] at hactive
  | skip i job hjob hslot hfresh =>
      exact hs.yield (w := w) hjob World.poll_of_cancelled
        (fun hmain => World.poll_of_cancelled (hs.busy hmain))
        (fun e he => .inl he) (fun e he => he) (.inl hslot)
  | collect i job hjob hdone hfresh hok =>
      refine hs.yield (w := w) hjob World.poll_of_cancelled
        (fun hmain => World.poll_of_cancelled (hs.busy hmain)) ?_ ?_ ?_
      · exact fun e he => (List.mem_cons.mp he).symm
      · exact fun e he => List.mem_cons_of_mem _ he
      · exact .inr ⟨hdone, _, List.mem_cons_self⟩
  | fail i job hjob hmain hdone hfresh hbad hor =>
      refine hs.yield (w := w) hjob (fun _ => rfl) (fun _ => rfl) ?_ ?_ ?_
      · exact fun e he => (List.mem_cons.mp he).symm
      · exact fun e he => List.mem_cons_of_mem _ he
      · exact .inr ⟨hdone, _, List.mem_cons_self⟩
  | drop i rest hmain =>
      exact hs.cancelAt (hs.busy (by simp [hmain]))
  | dropped hmain =>
      exact
        { requests := hs.requests
          own := hs.own
          flagged := hs.flagged
          busy := fun _ => hs.busy (by simp [hmain])
          named := hs.named
          gathered := hs.gathered }
  | unwind reason i rest hmain =>
      exact hs.cancelAt (hs.busy (by simp [hmain]))
  | interrupt reason hmain hreason =>
      exact
        { requests := hs.requests
          own := hs.own
          flagged := fun _ _ _ => rfl
          busy := fun _ => rfl
          named := hs.named
          gathered := hs.gathered }

end Pool.Sound

section Rest

variable {w : World} {policy : ExecutorPolicy} {workers : Nat} {p : Pool}

theorem allowed_of_mem_moves {m : PoolMove} (h : m ∈ p.moves w workers) :
    p.allowed w workers m = true :=
  (List.mem_filter.mp h).2

theorem not_allowed_of_rest (h : p.moves w workers = []) (m : PoolMove) :
    p.allowed w workers m = false := by
  by_contra hm
  have hallowed : p.allowed w workers m = true := by simpa using hm
  have hmem : m ∈ p.moves w workers := by
    refine List.mem_filter.mpr ⟨?_, hallowed⟩
    cases m with
    | work i =>
        simp only [Pool.allowed, Option.any_eq_true] at hallowed
        obtain ⟨job, hjob, -⟩ := hallowed
        have hlt := (List.getElem?_eq_some_iff.mp hjob).1
        simpa using hlt
    | yield i =>
        simp only [Pool.allowed, Bool.and_eq_true, Option.any_eq_true] at hallowed
        obtain ⟨-, job, hjob, -⟩ := hallowed
        have hlt := (List.getElem?_eq_some_iff.mp hjob).1
        simpa using hlt
    | drop =>
        simp
    | interrupt =>
        simp
  simp [h] at hmem

/-- Where no thread can move, every future is taken or the pool unwinds. -/
theorem rest_cases
    (hworkers : ∀ job ∈ p.jobs, 0 < workers)
    (h : p.moves w workers = []) :
    (∃ reason, p.main = .unwinding reason []) ∨
      (p.main = .waiting ∧ ∀ job ∈ p.jobs, job.yielded = true) := by
  cases hmain : p.main with
  | dropping rest =>
      have hdrop := not_allowed_of_rest h .drop
      simp [Pool.allowed, hmain] at hdrop
  | unwinding reason rest =>
      have hdrop := not_allowed_of_rest h .drop
      cases rest with
      | nil => exact .inl ⟨reason, rfl⟩
      | cons i rest => simp [Pool.allowed, hmain] at hdrop
  | waiting =>
      refine .inr ⟨rfl, fun job hmem => ?_⟩
      obtain ⟨i, hjob⟩ := List.mem_iff_getElem?.mp hmem
      have hidle : ∀ j ∈ p.jobs, j.slot.isRunning = false := by
        intro j hj
        obtain ⟨k, hk⟩ := List.mem_iff_getElem?.mp hj
        have hwork := not_allowed_of_rest h (.work k)
        simp only [Pool.allowed, hk, Option.any_some, Bool.or_eq_false_iff] at hwork
        exact hwork.1
      have hbusy : p.busy = 0 := by
        simp only [Pool.busy, List.countP_eq_zero]
        intro j hj
        simp [hidle j hj]
      have hwork := not_allowed_of_rest h (.work i)
      have hyield := not_allowed_of_rest h (.yield i)
      have hpos := hworkers job hmem
      simp only [Pool.allowed, hjob, Option.any_some, hbusy, hpos] at hwork
      simp only [Pool.allowed, hmain, hjob, Option.any_some] at hyield
      cases hslot : job.slot <;>
        simp_all [Slot.isRunning, Slot.isQueued, Slot.isDone]

end Rest

section Pooled

variable {w : World} {policy : ExecutorPolicy}
variable {requests : List NodeRequest} {c : Clock}

/-- An invariant of the steps holds where the pool rests. -/
theorem pooled_invariant
    {P : Pool → Prop}
    (hstart : P
      { clock := c, jobs := requests.map fun request => { request := request } })
    (hstep : ∀ p p', Pool.Step w policy p p' → P p → P p') :
    P (pooled w policy requests c) := by
  refine Machine.Scheduled.settle_invariant _ ?_ _ hstart
  intro p m hm hp
  exact hstep p _ (step_of_allowed (allowed_of_mem_moves hm)) hp

theorem pooled_rests :
    (pooled w policy requests c).moves w
      (min policy.maxParallel requests.length) = [] := by
  refine Machine.Scheduled.settle_rests
    (poolMachine w policy (min policy.maxParallel requests.length))
    (Pool.weight policy) ?_ ?_
  · intro p m hm
    have hstep : Pool.Step w policy p (p.step w policy m) :=
      step_of_allowed (allowed_of_mem_moves hm)
    exact hstep.weight_lt
  · simp [Pool.weight, Main.weight, poolFuel, Job.weight, Slot.weight,
      Function.comp_def]

theorem pooled_sound : (pooled w policy requests c).Sound requests := by
  refine pooled_invariant ?_ (fun p p' h hp => hp.step h)
  exact
    { requests := by simp [Function.comp_def]
      own := by simp
      flagged := by simp
      busy := by simp
      named := by simp
      gathered := by simp }

theorem pooled_cases (w : World) (policy : ExecutorPolicy)
    (requests : List NodeRequest) (c : Clock) :
    (∃ reason, (pooled w policy requests c).main = .unwinding reason []) ∨
      ((pooled w policy requests c).main = .waiting ∧
        ∀ job ∈ (pooled w policy requests c).jobs, job.yielded = true) := by
  refine rest_cases ?_ pooled_rests
  intro job hjob
  have hsound : (pooled w policy requests c).Sound requests := pooled_sound
  have hlength := congrArg List.length hsound.requests
  have hpos := List.length_pos_of_mem hjob
  have hparallel := policy.maxParallel_pos
  simp only [List.length_map] at hlength
  omega

theorem mem_of_lookup {entries : List (String × NodeResult)} {id : String}
    {result : NodeResult}
    (h : entries.lookup id = some result) : (id, result) ∈ entries := by
  obtain ⟨before, after, rfl, -⟩ := List.lookup_eq_some_iff.mp h
  simp

theorem parallel_eq_ok
    {results : List NodeResult} {c' : Clock}
    (h : parallel w policy requests c = .ok (results, c')) :
    (∀ job ∈ (pooled w policy requests c).jobs, job.yielded = true) ∧
      results = requests.filterMap
        (fun r => (pooled w policy requests c).byId.lookup r.node.id) ∧
      c' = (pooled w policy requests c).clock := by
  unfold parallel at h
  rcases pooled_cases w policy requests c with ⟨reason, hmain⟩ | ⟨hmain, hyielded⟩
  · simp [hmain] at h
  · simp only [hmain, Except.ok.injEq, Prod.mk.injEq] at h
    exact ⟨hyielded, h.1.symm, h.2.symm⟩

theorem parallel_answers
    {results : List NodeResult} {c' : Clock}
    (h : parallel w policy requests c = .ok (results, c')) :
    Answers requests results c' := by
  obtain ⟨hyielded, rfl, rfl⟩ := parallel_eq_ok h
  have hsound : (pooled w policy requests c).Sound requests := pooled_sound
  constructor
  · intro result hresult
    obtain ⟨request, hrequest, hlookup⟩ := List.mem_filterMap.mp hresult
    exact ⟨request, hrequest, hsound.named _ (mem_of_lookup hlookup)⟩
  · intro hflag
    have hfound : ∀ request ∈ requests, ∃ result,
        (pooled w policy requests c).byId.lookup request.node.id = some result := by
      intro request hrequest
      rw [← hsound.requests] at hrequest
      obtain ⟨job, hjob, rfl⟩ := List.mem_map.mp hrequest
      rcases hsound.gathered job hjob (hyielded job hjob) with hslot | ⟨-, r, hr⟩
      · simp [hsound.flagged job hjob hslot] at hflag
      · exact Option.isSome_iff_exists.mp
          (List.lookup_isSome_iff.mpr ⟨_, hr, by simp⟩)
    have hnamed : ∀ request ∈ requests,
        ((pooled w policy requests c).byId.lookup request.node.id).map
          (·.nodeId) = some request.node.id := by
      intro request hrequest
      obtain ⟨result, hresult⟩ := hfound request hrequest
      rw [hresult, Option.map_some, hsound.named _ (mem_of_lookup hresult)]
    rw [List.map_filterMap, List.filterMap_congr hnamed, List.filterMap_eq_map']

end Pooled

end Work
end SwFactory
