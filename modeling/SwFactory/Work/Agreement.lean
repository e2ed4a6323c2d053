import SwFactory.Work.FanIn

/-!
# The parallel path agrees with the serial one

Where the runner is a function of its request, what a node comes to is a
function of its request too (`settled`), apart from the measured duration.  Both
ways of running a wave end with the flag set exactly when some node of the wave
does not come to `ok`, and otherwise with the settled results of all its nodes.
So the merges, the final head, the conflicts and the flag of the report do not
depend on the way the waves are run, nor on the schedule.
-/

namespace SwFactory
namespace Work

/-- A result without the duration that was measured. -/
def NodeResult.untimed (r : NodeResult) : NodeResult :=
  { r with durationS := 0 }

/--
Surroundings without a will of their own: the runner answers each request for its
logical node, the merger is a function of its arguments, and nobody cancels.
-/
structure Functional (answer : NodeRequest → NodeResult)
    (merge : NodeResult → String → Nat → Except Raised MergeReceipt)
    (w : World) : Prop where
  runner : ∀ tick r, w.runner tick r = .ok (answer r)
  honest : ∀ r, (answer r).logicalId = r.logicalId w.digest ∧
    (answer r).nodeId = r.node.id
  merger : ∀ tick r head index, w.merger tick r head index = merge r head index
  quiet : ∀ tick, w.cancels tick = false
  calm : ∀ tick, w.interrupts tick = none

/-- The merger does not read the duration that was measured. -/
def Timeless
    (merge : NodeResult → String → Nat → Except Raised MergeReceipt) : Prop :=
  ∀ (r : NodeResult) (d : Int) (head : String) (index : Nat),
    merge { r with durationS := d } head index = merge r head index

/-- The answer to one attempt, stamped with it. -/
def attempted (answer : NodeRequest → NodeResult) (request : NodeRequest)
    (attempt : Nat) : NodeResult :=
  { answer { request with attempt := attempt } with attempt := attempt }

/-- What the retry loop comes to from an attempt on, with `more` to come. -/
def settledFrom (answer : NodeRequest → NodeResult) (request : NodeRequest) :
    Nat → Nat → NodeResult
  | 0, attempt => attempted answer request attempt
  | more + 1, attempt =>
      if (attempted answer request attempt).retryable then
        settledFrom answer request more (attempt + 1)
      else
        attempted answer request attempt

/-- What a node comes to. -/
def settled (answer : NodeRequest → NodeResult) (policy : ExecutorPolicy)
    (request : NodeRequest) : NodeResult :=
  settledFrom answer request (policy.maxAttempts - 1) 1

/-- How a wave ends: the flag tells failure, and without it all is settled. -/
structure Settles (answer : NodeRequest → NodeResult) (policy : ExecutorPolicy)
    (requests : List NodeRequest) (results : List NodeResult) (c : Clock) :
    Prop where
  flag : c.cancelled = true ↔
    ∃ request ∈ requests, (settled answer policy request).state ≠ .ok
  results : c.cancelled = false →
    results.map (·.untimed) =
      requests.map fun r => (settled answer policy r).untimed

section Serial

variable {answer : NodeRequest → NodeResult}
variable {merge : NodeResult → String → Nat → Except Raised MergeReceipt}
variable {w : World} {policy : ExecutorPolicy}

theorem NodeResult.state_of_untimed {r r' : NodeResult}
    (h : r.untimed = r'.untimed) : r.state = r'.state := by
  have hstate := congrArg NodeResult.state h
  exact hstate

theorem NodeResult.retryable_of_untimed {r r' : NodeResult}
    (h : r.untimed = r'.untimed) : r.retryable = r'.retryable := by
  have hretryable := congrArg NodeResult.retryable h
  exact hretryable

theorem Functional.poll (hw : Functional answer merge w) (c : Clock) :
    (w.poll c).cancelled = c.cancelled := by
  simp [World.poll, hw.quiet]

/-- The runner answers, and the answer is for the node that was asked for. -/
theorem Functional.callRunner (hw : Functional answer merge w)
    (request : NodeRequest) (attempt tick : Nat) :
    ∃ result, callRunner w request attempt tick = .ok result ∧
      result.untimed = (attempted answer request attempt).untimed := by
  obtain ⟨hlogical, hnode⟩ := hw.honest { request with attempt := attempt }
  have hsame : ¬ ((answer { request with attempt := attempt }).logicalId ≠
      request.logicalId w.digest ∨
      (answer { request with attempt := attempt }).nodeId ≠ request.node.id) := by
    rw [hlogical, hnode]
    simp [NodeRequest.logicalId]
  refine ⟨{ attempted answer request attempt with
    durationS := max (answer { request with attempt := attempt }).durationS
      (w.elapsed tick) }, ?_, rfl⟩
  rw [Work.callRunner, hw.runner, Machine.ok_bind, if_neg hsame]
  rfl

/-- The retry loop of a node, while the flag is not set. -/
theorem Functional.runWithRetry (hw : Functional answer merge w)
    (request : NodeRequest) (more attempt : Nat) {c : Clock}
    (hflag : c.cancelled = false) :
    ∃ result c', runWithRetry w request more attempt c = .ok (result, c') ∧
      result.untimed = (settledFrom answer request more attempt).untimed ∧
      c'.cancelled = false := by
  induction more generalizing attempt c with
  | zero =>
      have hpoll : (w.poll c).cancelled = false := (hw.poll c).trans hflag
      obtain ⟨result, hcall, hsame⟩ :=
        hw.callRunner request attempt (w.poll c).tick
      rw [Work.runWithRetry, if_neg (by simp [hpoll]), hcall]
      exact ⟨result, _, rfl, hsame, hpoll⟩
  | succ more ih =>
      have hpoll : (w.poll c).cancelled = false := (hw.poll c).trans hflag
      obtain ⟨result, hcall, hsame⟩ :=
        hw.callRunner request attempt (w.poll c).tick
      have hretry := NodeResult.retryable_of_untimed hsame
      rw [Work.runWithRetry, if_neg (by simp [hpoll]), hcall,
        Machine.ok_bind, settledFrom, ← hretry]
      split
      · exact ih (attempt + 1) hpoll
      · exact ⟨result, _, rfl, hsame, hpoll⟩

/-- One after the other, a wave stops at the first node that is not `ok`. -/
theorem Functional.serial (hw : Functional answer merge w)
    (requests : List NodeRequest) {c : Clock}
    (hflag : c.cancelled = false) :
    ∃ results c', serial w policy requests c = .ok (results, c') ∧
      Settles answer policy requests results c' := by
  induction requests generalizing c with
  | nil =>
      exact ⟨[], c, rfl, by simp [hflag], by simp⟩
  | cons request rest ih =>
      have hpoll : (w.poll c).cancelled = false := (hw.poll c).trans hflag
      obtain ⟨result, c₁, hrun, hsame, hflag₁⟩ :=
        hw.runWithRetry request (policy.maxAttempts - 1) 1 hpoll
      have hstate : result.state = (settled answer policy request).state :=
        NodeResult.state_of_untimed hsame
      rw [Work.serial, if_neg (by simp [hpoll]), hrun, Machine.ok_bind]
      dsimp only
      split
      · next hbad =>
          rw [hstate] at hbad
          refine ⟨[result], _, rfl, ?_, by simp⟩
          simp only [Clock.cancel_cancelled, true_iff]
          exact ⟨request, List.mem_cons_self, hbad⟩
      · next hok =>
          rw [hstate, not_not] at hok
          obtain ⟨out, c₂, hout, hsettles⟩ := ih hflag₁
          rw [hout]
          refine ⟨result :: out, c₂, rfl, ?_, ?_⟩
          · rw [hsettles.flag]
            simp [hok]
          · intro hflag₂
            rw [List.map_cons, List.map_cons, hsettles.results hflag₂]
            exact congrArg (· :: _) hsame

end Serial

/-- Where a future stands on the way to what its node comes to. -/
def SlotPure (answer : NodeRequest → NodeResult) (policy : ExecutorPolicy)
    (flag : Bool) (request : NodeRequest) : Slot → Prop
  | .queued => True
  | .checking attempt | .calling attempt =>
      attempt ≤ policy.maxAttempts ∧
      settledFrom answer request (policy.maxAttempts - attempt) attempt =
        settled answer policy request
  | .finished outcome =>
      ∃ result, outcome = .ok result ∧
        (result.untimed = (settled answer policy request).untimed ∨
          (result.state ≠ .ok ∧ flag = true))
  | .cancelled => flag = true

/-- The pool under surroundings that are functions. -/
structure Pool.Pure (answer : NodeRequest → NodeResult)
    (policy : ExecutorPolicy) (requests : List NodeRequest) (p : Pool) :
    Prop where
  stays : ∀ reason rest, p.main ≠ .unwinding reason rest
  flag : p.clock.cancelled = true →
    ∃ request ∈ requests, (settled answer policy request).state ≠ .ok
  jobs : ∀ job ∈ p.jobs, job.request ∈ requests ∧
    SlotPure answer policy p.clock.cancelled job.request job.slot
  byId : ∀ e ∈ p.byId, p.clock.cancelled = true ∨
    ∃ request ∈ requests, request.node.id = e.1 ∧ e.2.state = .ok ∧
      e.2.untimed = (settled answer policy request).untimed

section Parallel

variable {answer : NodeRequest → NodeResult}
variable {merge : NodeResult → String → Nat → Except Raised MergeReceipt}
variable {w : World} {policy : ExecutorPolicy}
variable {requests : List NodeRequest} {p p' : Pool}

theorem SlotPure.flagged {flag : Bool} {request : NodeRequest} {slot : Slot}
    (h : SlotPure answer policy flag request slot) :
    SlotPure answer policy true request slot := by
  cases slot with
  | queued => trivial
  | checking attempt => exact h
  | calling attempt => exact h
  | finished outcome =>
      obtain ⟨result, hok, hor⟩ := h
      exact ⟨result, hok, hor.imp_right fun hbad => ⟨hbad.1, rfl⟩⟩
  | cancelled => rfl

theorem Functional.advance_flag (hw : Functional answer merge w)
    (policy : ExecutorPolicy) (request : NodeRequest) (c : Clock) (slot : Slot) :
    (advance w policy request c slot).1.cancelled = c.cancelled := by
  have hpoll := hw.poll c
  cases slot with
  | queued => rfl
  | checking attempt =>
      simp only [advance]
      split <;> exact hpoll
  | calling attempt =>
      simp only [advance]
      split
      · rfl
      · split <;> rfl
  | finished outcome => rfl
  | cancelled => rfl

/-- A step of the retry loop stays on the way to the settled result. -/
theorem Functional.advance (hw : Functional answer merge w)
    {request : NodeRequest} {c : Clock} {slot : Slot}
    (hactive : slot.isDone = false)
    (h : SlotPure answer policy c.cancelled request slot) :
    SlotPure answer policy c.cancelled request
      (advance w policy request c slot).2 := by
  cases slot with
  | queued =>
      exact ⟨policy.maxAttempts_pos, rfl⟩
  | checking attempt =>
      simp only [Work.advance]
      split
      · next hflag =>
          rw [hw.poll] at hflag
          exact ⟨_, rfl, .inr ⟨by simp [cancelledResult], hflag⟩⟩
      · exact h
  | calling attempt =>
      obtain ⟨hle, hsettled⟩ := h
      obtain ⟨result, hcall, hsame⟩ := hw.callRunner request attempt c.tick
      have hretry := NodeResult.retryable_of_untimed hsame
      simp only [Work.advance, hcall]
      -- the pure loop branches as the future does
      rcases Nat.lt_or_eq_of_le hle with hlt | heq
      · have hmore : policy.maxAttempts - attempt =
            (policy.maxAttempts - (attempt + 1)) + 1 := by omega
        rw [hmore, settledFrom] at hsettled
        split
        · next hgo =>
            rw [if_pos (hretry ▸ hgo.1)] at hsettled
            exact ⟨hlt, hsettled⟩
        · next hstop =>
            have hnot : ¬ (attempted answer request attempt).retryable = true :=
              fun hr => hstop ⟨hretry ▸ hr, hlt⟩
            rw [if_neg hnot] at hsettled
            exact ⟨result, rfl, .inl (hsettled ▸ hsame)⟩
      · rw [heq, Nat.sub_self, settledFrom, ← heq] at hsettled
        rw [if_neg (by omega)]
        exact ⟨result, rfl, .inl (hsettled ▸ hsame)⟩
  | finished outcome =>
      simp [Slot.isDone] at hactive
  | cancelled =>
      simp [Slot.isDone] at hactive

/-- What is gathered from a future. -/
theorem SlotPure.result {flag : Bool} {job : Job} {digest : String → String}
    (h : SlotPure answer policy flag job.request job.slot)
    (hdone : job.slot.isDone = true) :
    ((job.result digest).untimed =
        (settled answer policy job.request).untimed) ∨
      ((job.result digest).state ≠ .ok ∧ flag = true) := by
  unfold Job.result
  cases hslot : job.slot with
  | queued => simp [hslot, Slot.isDone] at hdone
  | checking attempt => simp [hslot, Slot.isDone] at hdone
  | calling attempt => simp [hslot, Slot.isDone] at hdone
  | finished outcome =>
      rw [hslot] at h
      obtain ⟨result, rfl, hor⟩ := h
      exact hor
  | cancelled =>
      rw [hslot] at h
      exact .inr ⟨by simp [failedResult], h⟩

theorem Pool.Pure.step (hw : Functional answer merge w)
    (hs : p.Sound requests)
    (hp : p.Pure answer policy requests)
    (h : Pool.Step w policy p p') :
    p'.Pure answer policy requests := by
  cases h with
  | work i job hjob hactive =>
      have hflag := hw.advance_flag policy job.request p.clock job.slot
      have hmem := hp.jobs job (List.mem_of_getElem? hjob)
      constructor
      · exact hp.stays
      · exact fun hset => hp.flag (hflag ▸ hset)
      · refine forall_mem_set ?_ ?_
        · intro j hj
          rw [hflag]
          exact hp.jobs j hj
        · rw [hflag]
          exact ⟨hmem.1, hw.advance hactive hmem.2⟩
      · intro e he
        rw [hflag]
        exact hp.byId e he
  | skip i job hjob hslot hfresh =>
      have hflag := hw.poll p.clock
      have hmem := hp.jobs job (List.mem_of_getElem? hjob)
      constructor
      · exact hp.stays
      · exact fun hset => hp.flag (hflag ▸ hset)
      · rw [hflag]
        exact forall_mem_set hp.jobs hmem
      · intro e he
        rw [hflag]
        exact hp.byId e he
  | collect i job hjob hdone hfresh hok =>
      have hflag := hw.poll p.clock
      obtain ⟨hrequest, hslot⟩ := hp.jobs job (List.mem_of_getElem? hjob)
      constructor
      · exact hp.stays
      · exact fun hset => hp.flag (hflag ▸ hset)
      · rw [hflag]
        exact forall_mem_set hp.jobs ⟨hrequest, hslot⟩
      · intro e he
        rw [hflag]
        rcases List.mem_cons.mp he with rfl | he
        · rcases hslot.result hdone with hsame | ⟨hbad, -⟩
          · exact .inr ⟨job.request, hrequest, rfl, hok, hsame⟩
          · exact absurd hok hbad
        · exact hp.byId e he
  | fail i job hjob hmain hdone hfresh hbad hor =>
      obtain ⟨hrequest, hslot⟩ := hp.jobs job (List.mem_of_getElem? hjob)
      constructor
      · exact fun reason rest hunwinds => by cases hunwinds
      · intro _
        rcases hslot.result hdone with hsame | ⟨-, hflag⟩
        · exact ⟨job.request, hrequest,
            NodeResult.state_of_untimed hsame ▸ hbad⟩
        · exact hp.flag hflag
      · exact forall_mem_set
          (fun j hj => ⟨(hp.jobs j hj).1, (hp.jobs j hj).2.flagged⟩)
          ⟨hrequest, hslot.flagged⟩
      · exact fun _ _ => .inl rfl
  | drop i rest hmain =>
      have hflag : p.clock.cancelled = true := hs.busy (by simp [hmain])
      constructor
      · exact fun reason rest hunwinds => by cases hunwinds
      · exact hp.flag
      · refine forall_mem_cancelAt hp.jobs ?_
        exact fun j _ hj => ⟨hj.1, hflag⟩
      · exact hp.byId
  | dropped hmain =>
      exact
        { stays := fun reason rest hunwinds => by cases hunwinds
          flag := hp.flag
          jobs := hp.jobs
          byId := hp.byId }
  | unwind reason i rest hmain =>
      exact absurd hmain (hp.stays reason (i :: rest))
  | interrupt reason hmain hreason =>
      rw [hw.calm] at hreason
      cases hreason

/-- In a pool, every schedule ends with what the nodes come to. -/
theorem Functional.parallel (hw : Functional answer merge w)
    (hnodup : (requests.map (·.node.id)).Nodup) {c : Clock}
    (hflag : c.cancelled = false) :
    ∃ results c', Work.parallel w policy requests c = .ok (results, c') ∧
      Settles answer policy requests results c' := by
  have hboth : (pooled w policy requests c).Sound requests ∧
      (pooled w policy requests c).Pure answer policy requests := by
    refine ⟨pooled_sound, ?_⟩
    refine (pooled_invariant (P := fun p => p.Sound requests ∧
      p.Pure answer policy requests) ?_ ?_).2
    · exact
        ⟨{ requests := by simp [Function.comp_def]
           own := by simp
           flagged := by simp
           busy := by simp
           named := by simp
           gathered := by simp },
          { stays := by simp
            flag := by simp [hflag]
            jobs := by simp [SlotPure]
            byId := by simp }⟩
    · exact fun p p' h hp => ⟨hp.1.step h, hp.2.step hw hp.1 h⟩
  obtain ⟨hsound, hpure⟩ := hboth
  rcases pooled_cases w policy requests c with ⟨reason, hmain⟩ | ⟨hmain, hyielded⟩
  · exact absurd hmain (hpure.stays reason [])
  · have hparallel : Work.parallel w policy requests c = .ok
        (requests.filterMap
          (fun r => (pooled w policy requests c).byId.lookup r.node.id),
          (pooled w policy requests c).clock) := by
      rw [Work.parallel, hmain]
    refine ⟨_, _, hparallel, ?_⟩
    have hanswers := (parallel_answers hparallel).2
    -- without the flag, the entry of a node is what the node comes to
    have hentry : (pooled w policy requests c).clock.cancelled = false →
        ∀ request ∈ requests, ∃ result,
          (pooled w policy requests c).byId.lookup request.node.id =
            some result ∧
          result.state = .ok ∧
          result.untimed = (settled answer policy request).untimed := by
      intro hunset request hrequest
      have hmem : request.node.id ∈ (requests.filterMap fun r =>
          (pooled w policy requests c).byId.lookup r.node.id).map (·.nodeId) := by
        rw [hanswers hunset]
        exact List.mem_map_of_mem hrequest
      obtain ⟨result, hresult, hid⟩ := List.mem_map.mp hmem
      obtain ⟨request', hrequest', hlookup⟩ := List.mem_filterMap.mp hresult
      have hown := hsound.named _ (mem_of_lookup hlookup)
      rcases hpure.byId _ (mem_of_lookup hlookup) with hset |
        ⟨other, hother, hotherId, hok, hsame⟩
      · simp [hunset] at hset
      · have hid₁ : other.node.id = request.node.id :=
          hotherId.trans (hown.symm.trans hid)
        obtain rfl : other = request :=
          List.inj_on_of_nodup_map hnodup hother hrequest hid₁
        exact ⟨result, hotherId ▸ hlookup, hok, hsame⟩
    constructor
    · refine ⟨hpure.flag, ?_⟩
      rintro ⟨request, hrequest, hbad⟩
      by_contra hset
      obtain ⟨result, -, hok, hsame⟩ := hentry (by simpa using hset) request hrequest
      exact hbad (NodeResult.state_of_untimed hsame ▸ hok)
    · intro hunset
      rw [List.map_filterMap, ← List.filterMap_eq_map']
      refine List.filterMap_congr ?_
      intro request hrequest
      obtain ⟨result, hlookup, -, hsame⟩ := hentry hunset request hrequest
      rw [hlookup, Option.map_some, hsame]

end Parallel

/-! ## Two runs side by side -/

/-- Dictionaries with the same results but for their durations. -/
def SameEntries (entries entries' : List (String × NodeResult)) : Prop :=
  ∀ i, (entries.lookup i).map (·.untimed) = (entries'.lookup i).map (·.untimed)

/-- Runs that agree on all that the report is asked for. -/
structure SameRun (run run' : Run) : Prop where
  flag : run.clock.cancelled = run'.clock.cancelled
  head : run.targetHead = run'.targetHead
  merges : run.merges = run'.merges
  conflicts : run.conflicts = run'.conflicts
  results : run.clock.cancelled = false →
    SameEntries run.results run'.results

theorem SameEntries.cases {entries entries' : List (String × NodeResult)}
    (h : SameEntries entries entries') (i : String) :
    (lookupResult entries i = .error (keyError i) ∧
        lookupResult entries' i = .error (keyError i)) ∨
      ∃ r r', lookupResult entries i = .ok r ∧ lookupResult entries' i = .ok r' ∧
        r.untimed = r'.untimed := by
  have hi := h i
  unfold lookupResult
  cases hr : entries.lookup i with
  | none =>
      cases hr' : entries'.lookup i with
      | none => exact .inl ⟨rfl, rfl⟩
      | some r' => simp [hr, hr'] at hi
  | some r =>
      cases hr' : entries'.lookup i with
      | none => simp [hr, hr'] at hi
      | some r' =>
          refine .inr ⟨r, r', rfl, rfl, ?_⟩
          simpa [hr, hr'] using hi

theorem SameEntries.enter {entries entries' : List (String × NodeResult)}
    {results results' : List NodeResult}
    (h : SameEntries entries entries')
    (hresults : results.map (·.untimed) = results'.map (·.untimed)) :
    SameEntries (results.foldl (fun d r => (r.nodeId, r) :: d) entries)
      (results'.foldl (fun d r => (r.nodeId, r) :: d) entries') := by
  induction results generalizing results' entries entries' with
  | nil =>
      rw [List.map_nil, eq_comm, List.map_eq_nil_iff] at hresults
      rw [hresults]
      exact h
  | cons r rest ih =>
      cases results' with
      | nil => simp at hresults
      | cons r' rest' =>
          rw [List.map_cons, List.map_cons, List.cons.injEq] at hresults
          rw [List.foldl_cons, List.foldl_cons]
          refine ih ?_ hresults.2
          intro i
          have hid : r.nodeId = r'.nodeId := by
            have hid := congrArg NodeResult.nodeId hresults.1
            exact hid
          rw [List.lookup_cons, List.lookup_cons, hid]
          cases i == r'.nodeId with
          | true => exact congrArg some hresults.1
          | false => exact h i

theorem NodeResult.head_of_untimed {r r' : NodeResult}
    (h : r.untimed = r'.untimed) : r.head = r'.head := by
  have hhead := congrArg NodeResult.head h
  exact hhead

theorem requestFor_same {call call' : Call} {run run' : Run}
    (hcell : call.cellId = call'.cellId)
    (hepoch : call.epoch = call'.epoch)
    (hhead : run.targetHead = run'.targetHead)
    (hentries : SameEntries run.results run'.results) :
    requestFor call run = requestFor call' run' := by
  funext node
  have hdependency : (fun d => do
      let result ← lookupResult run.results d
      return result.head) = (fun d => do
      let result ← lookupResult run'.results d
      return result.head : String → Except Raised String) := by
    funext d
    rcases hentries.cases d with ⟨hr, hr'⟩ | ⟨r, r', hr, hr', hsame⟩
    · rw [hr, hr']
    · rw [hr, hr']
      exact congrArg Except.ok (NodeResult.head_of_untimed hsame)
  rw [requestFor, requestFor, hdependency, hcell, hepoch, hhead]

theorem overlapConflicts_untimed (results : List NodeResult) :
    overlapConflicts (results.map (·.untimed)) = overlapConflicts results := by
  induction results with
  | nil =>
      rfl
  | cons r rest ih =>
      rw [List.map_cons, overlapConflicts, overlapConflicts, ih,
        List.filterMap_map]
      rfl

theorem premergeConflicts_untimed (policy : ExecutorPolicy)
    (nodes : List WorkNode) (results : List NodeResult) (expected : String) :
    premergeConflicts policy nodes (results.map (·.untimed)) expected =
      premergeConflicts policy nodes results expected := by
  rw [premergeConflicts, premergeConflicts, overlapConflicts_untimed,
    List.mapM_map]
  rfl

section Sides

variable {answer : NodeRequest → NodeResult}
variable {merge : NodeResult → String → Nat → Except Raised MergeReceipt}
variable {w w' : World} {policy : ExecutorPolicy} {call call' : Call}
variable {run run' : Run}

theorem SameRun.poll (hw : Functional answer merge w)
    (hw' : Functional answer merge w')
    (h : SameRun run run') :
    SameRun (run.poll w) (run'.poll w') where
  flag := (hw.poll run.clock).trans (h.flag.trans (hw'.poll run'.clock).symm)
  head := h.head
  merges := h.merges
  conflicts := h.conflicts
  results hflag := h.results ((hw.poll run.clock).symm.trans hflag)

theorem SameRun.cancel (h : SameRun run run') :
    SameRun run.cancel run'.cancel where
  flag := rfl
  head := h.head
  merges := h.merges
  conflicts := h.conflicts
  results hflag := by cases hflag

theorem validateMerge_of_untimed {receipt : MergeReceipt} {head : String}
    {r r' : NodeResult} (h : r.untimed = r'.untimed) :
    validateMerge receipt r head = validateMerge receipt r' head := by
  have hvalidate := congrArg (fun r => validateMerge receipt r head) h
  exact hvalidate

/-- The merge loops of two runs stay together. -/
theorem mergeAll_same (hw : Functional answer merge w)
    (hw' : Functional answer merge w')
    (htimeless : Timeless merge)
    (todo : List String)
    (h : SameRun run run')
    (hflag : run.clock.cancelled = false) :
    SameRun (mergeAll w todo run).1 (mergeAll w' todo run').1 ∧
      (mergeAll w todo run).2 = (mergeAll w' todo run').2 := by
  induction todo generalizing run run' with
  | nil =>
      exact ⟨h, rfl⟩
  | cons id rest ih =>
      have hpolled := h.poll hw hw'
      have hset : ¬ (run.poll w).clock.cancelled = true := by
        rw [Run.poll, hw.poll, hflag]
        simp
      have hset' : ¬ (run'.poll w').clock.cancelled = true := by
        rw [← hpolled.flag]
        exact hset
      rw [mergeAll, mergeAll, if_neg hset, if_neg hset']
      have hentries : SameEntries (run.poll w).results (run'.poll w').results :=
        h.results hflag
      rcases hentries.cases id with ⟨hr, hr'⟩ | ⟨r, r', hr, hr', hsame⟩
      · rw [hr, hr']
        exact ⟨hpolled, rfl⟩
      · have houtput : r.outputHead = r'.outputHead := by
          have houtput := congrArg NodeResult.outputHead hsame
          exact houtput
        have hmerge : ∀ tick tick' head index,
            w.merger tick r head index = w'.merger tick' r' head index := by
          intro tick tick' head index
          rw [hw.merger, hw'.merger, ← htimeless r 0, ← htimeless r' 0]
          exact congrArg (fun r => merge r head index) hsame
        simp only [hr, hr', houtput]
        split
        · exact ⟨hpolled.cancel, rfl⟩
        · rw [← hpolled.head, ← hpolled.merges,
            ← hmerge (run.poll w).clock.tick]
          split
          · exact ⟨hpolled, rfl⟩
          · next receipt hreceipt =>
              rw [← validateMerge_of_untimed hsame]
              split
              · exact ⟨hpolled, rfl⟩
              · refine ih ?_ (by simpa using hset)
                exact
                  { flag := hpolled.flag
                    head := rfl
                    merges := rfl
                    conflicts := hpolled.conflicts
                    results := fun _ => hentries }

/-- What is done with the results of a wave, side by side. -/
theorem fanIn_same (hw : Functional answer merge w)
    (hw' : Functional answer merge w')
    (htimeless : Timeless merge)
    (wave : WorkWave) {results results' : List NodeResult}
    (h : SameRun run run')
    (hresults : run.clock.cancelled = false →
      results.map (·.untimed) = results'.map (·.untimed)) :
    SameRun (fanIn w policy wave results run).1
        (fanIn w' policy wave results' run').1 ∧
      (fanIn w policy wave results run).2 =
        (fanIn w' policy wave results' run').2 := by
  have hentered : SameRun ((run.enter results).poll w)
      ((run'.enter results').poll w') := by
    refine SameRun.poll hw hw' ?_
    exact
      { flag := h.flag
        head := h.head
        merges := h.merges
        conflicts := h.conflicts
        results := fun hflag => (h.results hflag).enter (hresults hflag) }
  have hpoll : ((run.enter results).poll w).clock.cancelled =
      run.clock.cancelled := hw.poll run.clock
  rw [fanIn, fanIn, ← hentered.flag]
  cases hflag : ((run.enter results).poll w).clock.cancelled with
  | true =>
      simp only [Bool.true_or, if_true]
      exact ⟨hentered.cancel, trivial⟩
  | false =>
      have hsame := hresults (hpoll.symm.trans hflag)
      have hbad : (results.any fun r => decide (r.state ≠ .ok)) =
          results'.any fun r => decide (r.state ≠ .ok) := by
        have hany := congrArg
          (List.any · fun r : NodeResult => decide (r.state ≠ .ok)) hsame
        simpa [List.any_map, Function.comp_def, NodeResult.untimed] using hany
      have hids : results.map (·.nodeId) = results'.map (·.nodeId) := by
        have hids := congrArg (List.map (·.nodeId)) hsame
        simpa [Function.comp_def, NodeResult.untimed] using hids
      have hpremerge : premergeConflicts policy wave.nodes results
            ((run.enter results).poll w).targetHead =
          premergeConflicts policy wave.nodes results'
            ((run'.enter results').poll w').targetHead := by
        rw [← premergeConflicts_untimed, hsame, premergeConflicts_untimed,
          hentered.head]
      rw [hbad, hpremerge, hids]
      split
      · exact ⟨hentered.cancel, rfl⟩
      · split
        · exact ⟨hentered, rfl⟩
        · exact mergeAll_same hw hw' htimeless _ hentered hflag
        · next found hfound hne =>
            refine ⟨SameRun.cancel ?_, rfl⟩
            exact
              { flag := hentered.flag
                head := hentered.head
                merges := hentered.merges
                conflicts := congrArg (· ++ found) hentered.conflicts
                results := hentered.results }

/-- Either way of running the nodes of a wave settles them. -/
theorem Functional.answers (hw : Functional answer merge w)
    (policy : ExecutorPolicy)
    {requests : List NodeRequest}
    (hnodup : (requests.map (·.node.id)).Nodup) {c : Clock}
    (hflag : c.cancelled = false) (inParallel : Bool) :
    ∃ results c',
      (if inParallel && decide (1 < requests.length) then
        Work.parallel w policy requests c
      else
        Work.serial w policy requests c) = .ok (results, c') ∧
      Settles answer policy requests results c' := by
  split
  · exact hw.parallel hnodup hflag
  · exact hw.serial requests hflag

theorem runWave_same (policy : ExecutorPolicy) (hw : Functional answer merge w)
    (hw' : Functional answer merge w')
    (htimeless : Timeless merge)
    (hcell : call.cellId = call'.cellId)
    (hepoch : call.epoch = call'.epoch)
    {wave : WorkWave}
    (hnodup : wave.ids.Nodup)
    (inParallel inParallel' : Bool)
    (h : SameRun run run')
    (hflag : run.clock.cancelled = false) :
    SameRun (runWave w policy call inParallel wave run).1
        (runWave w' policy call' inParallel' wave run').1 ∧
      (runWave w policy call inParallel wave run).2 =
        (runWave w' policy call' inParallel' wave run').2 := by
  have hsame := requestFor_same hcell hepoch h.head (h.results hflag)
  rw [runWave, runWave, ← hsame]
  split
  · exact ⟨h, rfl⟩
  · next requests hrequests =>
      have hids : (requests.map (·.node.id)).Nodup := by
        rw [WorkWave.ids, ← requests_nodes hrequests, List.map_map] at hnodup
        exact hnodup
      have hflag' : run'.clock.cancelled = false := h.flag ▸ hflag
      obtain ⟨results, c, hanswers, hsettles⟩ :=
        hw.answers policy hids hflag inParallel
      obtain ⟨results', c', hanswers', hsettles'⟩ :=
        hw'.answers policy hids hflag' inParallel'
      have hboth : c.cancelled = c'.cancelled := by
        rw [Bool.eq_iff_iff, hsettles.flag, hsettles'.flag]
      simp only [hanswers, hanswers']
      refine fanIn_same hw hw' htimeless wave ?_ ?_
      · exact
          { flag := hboth
            head := h.head
            merges := h.merges
            conflicts := h.conflicts
            results := fun _ => h.results hflag }
      · intro hunset
        rw [hsettles.results hunset, hsettles'.results (hboth ▸ hunset)]

theorem runWaves_same (policy : ExecutorPolicy) (hw : Functional answer merge w)
    (hw' : Functional answer merge w')
    (htimeless : Timeless merge)
    (hcell : call.cellId = call'.cellId)
    (hepoch : call.epoch = call'.epoch)
    {done : List String} {ws : List WorkWave}
    (hlayer : Layered done ws)
    (inParallel inParallel' : Bool)
    (h : SameRun run run') :
    SameRun (runWaves w policy call inParallel ws run).1
        (runWaves w' policy call' inParallel' ws run').1 ∧
      (runWaves w policy call inParallel ws run).2 =
        (runWaves w' policy call' inParallel' ws run').2 := by
  induction ws generalizing done run run' with
  | nil =>
      exact ⟨h, rfl⟩
  | cons wave rest ih =>
      have hpolled := h.poll hw hw'
      rw [runWaves, runWaves, ← hpolled.flag]
      split
      · exact ⟨hpolled, rfl⟩
      · next hunset =>
          obtain ⟨hrun, hexit⟩ := runWave_same policy hw hw' htimeless
            hcell hepoch hlayer.2.1 inParallel inParallel' hpolled
            (by simpa using hunset)
          rcases hout : runWave w policy call inParallel wave (run.poll w) with
            ⟨out, exit⟩
          rcases hout' : runWave w' policy call' inParallel' wave
            (run'.poll w') with ⟨out', exit'⟩
          rw [hout, hout'] at hrun hexit
          dsimp only at hrun hexit
          subst hexit
          cases exit with
          | next => exact ih hlayer.2.2.2 hrun
          | stop => exact ⟨hrun, rfl⟩
          | raised e => exact ⟨hrun, rfl⟩

end Sides

/-- What the two ways of running a plan are compared by. -/
structure Observed where
  merges : List MergeReceipt
  finalHead : String
  conflicts : List ConflictReceipt
  cancelled : Bool
deriving DecidableEq, Repr

def ExecutionReport.observed (r : ExecutionReport) : Observed where
  merges := r.merges
  finalHead := r.finalHead
  conflicts := r.conflicts
  cancelled := r.cancelled

theorem fillSkipped_observed {answer : NodeRequest → NodeResult}
    {merge : NodeResult → String → Nat → Except Raised MergeReceipt} {w : World}
    (hw : Functional answer merge w) (call : Call) (nodes : List WorkNode)
    (run : Run) :
    (fillSkipped w call nodes run).merges = run.merges ∧
      (fillSkipped w call nodes run).targetHead = run.targetHead ∧
      (fillSkipped w call nodes run).conflicts = run.conflicts ∧
      (fillSkipped w call nodes run).clock.cancelled = run.clock.cancelled := by
  induction nodes generalizing run with
  | nil =>
      exact ⟨rfl, rfl, rfl, rfl⟩
  | cons node rest ih =>
      rw [fillSkipped]
      split
      · exact ih run
      · obtain ⟨hmerges, hhead, hconflicts, hflag⟩ := ih _
        exact ⟨hmerges, hhead, hconflicts, hflag.trans (hw.poll run.clock)⟩

theorem report_observed {answer : NodeRequest → NodeResult}
    {merge : NodeResult → String → Nat → Except Raised MergeReceipt} {w : World}
    (hw : Functional answer merge w) (policy : ExecutorPolicy) (call : Call)
    (run : Run) :
    (report w policy call run).observed =
      { merges := run.merges
        finalHead := run.targetHead
        conflicts := run.conflicts
        cancelled := run.clock.cancelled } := by
  obtain ⟨hmerges, hhead, hconflicts, hflag⟩ :=
    fillSkipped_observed hw call call.nodes run
  simp [report, ExecutionReport.observed, Run.poll, hw.poll, hmerges, hhead,
    hconflicts, hflag]

/--
**Parallel equals serial.**  Where the runner answers every request for its
logical node, the merger does not read durations and nobody cancels, a provider
that forks gives the same merges, final head, conflicts and flag as one that
does not, under every schedule; where the merger raises, both raise the same.
-/
theorem parallel_eq_serial
    {answer : NodeRequest → NodeResult}
    {merge : NodeResult → String → Nat → Except Raised MergeReceipt}
    {w w' : World}
    (hw : Functional answer merge w)
    (hw' : Functional answer merge w')
    (htimeless : Timeless merge)
    (policy : ExecutorPolicy) (call : Call) :
    (execute w policy { call with supportsFork := true }).map
        (·.observed) =
      (execute w' policy { call with supportsFork := false }).map
        (·.observed) := by
  have hstart : SameRun { targetHead := call.inputHead }
      { targetHead := call.inputHead } :=
    ⟨rfl, rfl, rfl, rfl, fun _ _ => rfl⟩
  rw [execute, execute]
  cases hws : waves call.nodes with
  | error e =>
      rfl
  | ok ws =>
      dsimp only
      have hsame : SameRun
            (executeWaves w policy { call with supportsFork := true } ws).1
            (executeWaves w' policy { call with supportsFork := false } ws).1 ∧
          (executeWaves w policy { call with supportsFork := true } ws).2 =
            (executeWaves w' policy { call with supportsFork := false } ws).2 := by
        unfold executeWaves
        refine runWaves_same policy hw hw' htimeless ?_ ?_ (waves_layered hws)
          _ _ hstart <;> rfl
      rcases hout : executeWaves w policy { call with supportsFork := true } ws
        with ⟨run, raised⟩
      rcases hout' : executeWaves w' policy { call with supportsFork := false } ws
        with ⟨run', raised'⟩
      rw [hout, hout'] at hsame
      obtain ⟨hrun, hraised⟩ := hsame
      dsimp only at hrun hraised
      subst hraised
      cases raised with
      | some e =>
          rfl
      | none =>
          refine congrArg Except.ok ?_
          dsimp only
          rw [report_observed hw, report_observed hw', hrun.merges, hrun.head,
            hrun.conflicts, hrun.flag]

/-- A runner whose node `b` needs a second attempt. -/
def flakyAnswer (r : NodeRequest) : NodeResult :=
  if r.node.id = "b" ∧ r.attempt = 1 then
    { smoothAnswer r with
      state := .failed
      detail := "retryable: sandbox lease expired" }
  else
    smoothAnswer r

def flakyWorld : World :=
  { smoothWorld with runner := fun _ r => .ok (flakyAnswer r) }

theorem functional_flakyWorld (schedule : Nat → Nat) (elapsed : Nat → Int) :
    Functional flakyAnswer smoothMerge
      { flakyWorld with schedule := schedule, elapsed := elapsed } where
  runner _ _ := rfl
  honest r := by
    unfold flakyAnswer
    split <;> exact ⟨rfl, rfl⟩
  merger _ _ _ _ := rfl
  quiet _ := rfl
  calm _ := rfl

theorem parallel_eq_serial_diamond :
    (execute { flakyWorld with schedule := fun tick => tick, elapsed := fun _ => 9 }
        {} { diamondCall with supportsFork := true }).map
          (fun r => (r.parallel, r.merges.map (·.nodeId))) =
        .ok (true, ["a", "b", "c"]) ∧
      (execute { flakyWorld with
          schedule := fun tick => tick, elapsed := fun _ => 9 }
        {} { diamondCall with supportsFork := true }).map (·.observed) =
      (execute { flakyWorld with schedule := fun _ => 0, elapsed := fun _ => 2 }
        {} { diamondCall with supportsFork := false }).map (·.observed) :=
  ⟨by decide +kernel,
    parallel_eq_serial (functional_flakyWorld (fun tick => tick) fun _ => 9)
      (functional_flakyWorld (fun _ => 0) fun _ => 2) (fun _ _ _ _ => rfl) {}
      diamondCall⟩

/-- A runner that answers for another logical node. -/
def strayWorld : World :=
  { smoothWorld with
    runner := fun _ r => .ok { smoothAnswer r with logicalId := "wn_other" } }

/-- A merger that names its target after the measured duration. -/
def timedWorld : World :=
  { smoothWorld with
    elapsed := fun tick => tick
    merger := fun _ result head index =>
      (smoothMerge result head index).map fun receipt =>
        { receipt with targetAfter := head ++ toString result.durationS } }

/--
The serial path raises on an answer for another node, the parallel one reports
the node as failed; and a merger that reads durations merges differently.
-/
theorem parallel_ne_serial_strayAnswer :
    conflictSet diamondCall.nodes = [] ∧
      diamondCall.nodes.all (·.parallelSafe) = true ∧
      (execute strayWorld {} { diamondCall with supportsFork := true }).map
          (·.cancelled) = .ok true ∧
      execute strayWorld {} { diamondCall with supportsFork := false } =
        .error (.raised wrongLogicalNode) ∧
      (execute timedWorld {} { diamondCall with supportsFork := true }).map
          (·.observed) ≠
        (execute timedWorld {} { diamondCall with supportsFork := false }).map
          (·.observed) := by
  decide +kernel

end Work
end SwFactory
