import SwFactory.Build.Survival
import SwFactory.Machine.Tables

/-!
# Whole lives of the build stage

The routines are put together: from any records that are `Journalled` the stage
survives, so the records are `Journalled` through any number of lives.
-/

namespace SwFactory
namespace Build

open Machine (Survives Prog)
open Work (WorkNode)

section Opening

variable {diff : Head → Head → List String} {plan : Plan} {cfg : Config}
variable {d : Durable} {p : Progress}

/-- A revert is finished from either of its ends. -/
theorem completeRevert_spec (h : Journalled diff plan cfg d)
    (hp : d.journal = some p) {r : Revert} (hrevert : p.revert = some r) :
    Survives (exec diff) (Journalled diff plan cfg)
      (Post fun q d' => Idle diff plan cfg q d' ∧
        q.repairs = p.repairs ∧ q.completed = p.completed)
      (completeRevert p r) d := by
  have hattempt : p.attempt = none := by
    by_contra hsome
    obtain ⟨a, ha⟩ := Option.ne_none_iff_exists'.mp hsome
    have hnone := ((h.exact p hp).underWay a ha).2.1
    rw [hrevert] at hnone
    cases hnone
  have hmoved : Journalled diff plan cfg { d with fence := r.target } :=
    { exact := h.exact
      fenced := by
        intro q hq hnone _
        cases hp.symm.trans hq
        rw [hrevert] at hnone
        cases hnone
      ends := by
        intro q r' hq hr'
        cases hp.symm.trans hq
        cases hrevert.symm.trans hr'
        exact .inr rfl
      once := h.once
      counter := h.counter }
  refine bind_post (R := fun _ d' => Same { d with fence := r.target } d')
    (restoreHead_spec h hmoved (fun _ hsame => Post.ok hsame)
      (fun _ _ _ => Post.error)) ?_
  intro _ d₁ hsame
  have hrecords := hmoved.same hsame
  have hcalls := hrecords.calls_le (hsame.1.trans hp)
  have hidle : ∀ q, q = { p with
        head := r.target
        revert := none
        verified := q.verified } →
      Idle diff plan cfg q { d₁ with journal := some q } := by
    intro q hq
    rw [hq]
    exact hrecords.idle ((h.exact p hp).reverted hrevert _) hattempt rfl
      hsame.2.1 hcalls
  exact store_spec (hidle _ rfl).records (Post.ok ⟨hidle _ rfl, rfl, rfl⟩)

theorem finishRevert_spec (h : Journalled diff plan cfg d) :
    Survives (exec diff) (Journalled diff plan cfg)
      (Post fun _ d' => Journalled diff plan cfg d') (finishRevert plan) d := by
  intro i
  refine ⟨h, ?_⟩
  simp only [exec]
  cases hp : d.journal with
  | none =>
      exact Post.ok h
  | some p =>
      dsimp only
      split
      · exact Post.ok h
      · split
        · exact Post.ok h
        · next r hrevert =>
            intro j
            refine ⟨h, ?_⟩
            change Survives _ _ _
              (if d.fence ≠ r.start ∧ d.fence ≠ r.target then _ else _) _
            split
            · exact Post.ok h
            · refine bind_post (R := fun _ d' => Same d d')
                (gitHead_spec h (fun _ _ hsame => Post.ok hsame)
                  (fun _ _ _ => Post.error)) ?_
              intro head d₁ hsame
              have h₁ := h.same hsame
              split
              · exact Post.ok h₁
              · refine bind_post
                  (completeRevert_spec h₁ (hsame.1.trans hp) hrevert) ?_
                rintro q d₂ ⟨hidle, -⟩
                exact Post.ok hidle.records

/-- The journal that the stage goes on with. -/
theorem loadProgress_spec (h : Journalled diff plan cfg d) :
    Survives (exec diff) (Journalled diff plan cfg)
      (Post fun q d' => d' = d ∧
        (Idle diff plan cfg q d ∨ ∃ a, Busy diff plan cfg q a d))
      (loadProgress plan d.fence) d := by
  intro i
  refine ⟨h, ?_⟩
  simp only [exec]
  cases hp : d.journal with
  | none =>
      refine Post.ok ⟨rfl, .inl ?_⟩
      exact
        { records := h
          current := .inl hp
          exact := Progress.Exact.fresh d.fence
          attempt := rfl
          revert := rfl
          fence := rfl
          counter := by
            intro c hc
            obtain ⟨p, hp', -⟩ := h.counter c hc
            cases hp.symm.trans hp' }
  | some p =>
      dsimp only
      split
      · exact Post.error
      · split
        · exact Post.error
        · next hrevert =>
            rw [not_not] at hrevert
            split
            · exact Post.error
            · split
              · exact Post.error
              · refine Post.ok ⟨rfl, ?_⟩
                cases hattempt : p.attempt with
                | some a =>
                    exact .inr ⟨a, h, hp, hattempt⟩
                | none =>
                    refine .inl ?_
                    exact
                      { records := h
                        current := .inr hp
                        exact := h.exact p hp
                        attempt := hattempt
                        revert := hrevert
                        fence := h.fenced p hp hrevert hattempt
                        counter := h.calls_le hp }

/-- The stage goes on with nothing under way. -/
theorem openProgress_spec (h : Journalled diff plan cfg d) :
    Survives (exec diff) (Journalled diff plan cfg)
      (Post (Idle diff plan cfg)) (openProgress plan) d := by
  refine bind_post (finishRevert_spec h) ?_
  intro _ d₁ h₁
  refine bind_post (R := fun current d' => current = d'.fence ∧
    Journalled diff plan cfg d')
    (assertWorkspaceHead_spec h₁
      (fun d' hsame => Post.ok ⟨hsame.2.1.symm, h₁.same hsame⟩)
      (fun _ _ _ => Post.error)) ?_
  rintro _ d₂ ⟨rfl, h₂⟩
  refine bind_post (loadProgress_spec h₂) ?_
  rintro q d₃ ⟨rfl, hidle | ⟨a, hbusy⟩⟩
  · rw [hidle.attempt]
    exact Post.ok hidle
  · rw [hbusy.attempt]
    dsimp only
    split
    · next hhead =>
        rw [hhead, ← (hbusy.exact.underWay a hbusy.attempt).1]
        exact abandon_spec hbusy
    · refine (settle_spec hbusy).mono ?_
      rintro _ d₄ hpost q rfl
      exact (hpost q rfl).1

end Opening

section Nodes

variable {diff : Head → Head → List String} {plan : Plan} {cfg : Config}
variable {d : Durable} {p : Progress}

/-- A node without a receipt may be attempted when its dependencies have one. -/
theorem Progress.Exact.due_node (h : p.Exact diff plan cfg)
    {node : WorkNode} (hnode : plan.node node.id = some node)
    (hnew : node.id ∉ p.completed)
    (hdeps : ∀ d ∈ node.dependsOn, d ∈ p.completed) (layer : Nat) :
    (AttemptKind.node node.id layer).due plan cfg p := by
  refine ⟨hnew, ?_, node, hnode, hdeps⟩
  by_contra hrepairs
  exact hnew (h.complete hrepairs node (Plan.node_some hnode).1)

theorem runNodes_spec (layer : Nat) {nodes : List WorkNode}
    (h : Idle diff plan cfg p d)
    (hids : (nodes.map (·.id)).Nodup)
    (hplan : ∀ node ∈ nodes, plan.node node.id = some node)
    (hnew : ∀ node ∈ nodes, node.id ∉ p.completed)
    (hdeps : ∀ node ∈ nodes, ∀ d ∈ node.dependsOn, d ∈ p.completed) :
    Survives (exec diff) (Journalled diff plan cfg)
      (Post fun q d' => Idle diff plan cfg q d' ∧
        q.completed = p.completed ++ nodes.map (·.id))
      (runNodes plan layer nodes p) d := by
  induction nodes generalizing p d with
  | nil =>
      exact Post.ok ⟨h, by simp⟩
  | cons node rest ih =>
      obtain ⟨hnode, hrest⟩ := List.forall_mem_cons.mp hplan
      obtain ⟨hfirst, hlater⟩ := List.nodup_cons.mp hids
      have hdue := h.exact.due_node hnode (hnew node List.mem_cons_self)
        (hdeps node List.mem_cons_self) layer
      refine bind_post (attempt_spec h "build" hdue) ?_
      rintro q d₁ ⟨hidle, hadded⟩
      have hcompleted := hadded.node node.id layer rfl
      refine (ih hidle hlater hrest ?_ ?_).mono ?_
      · intro other hother
        rw [hcompleted]
        simp only [List.mem_append, List.mem_singleton, not_or]
        refine ⟨hnew other (List.mem_cons_of_mem _ hother), ?_⟩
        intro heq
        exact hfirst (List.mem_map.mpr ⟨other, hother, heq⟩)
      · intro other hother x hx
        rw [hcompleted]
        exact List.mem_append_left _
          (hdeps other (List.mem_cons_of_mem _ hother) x hx)
      · rintro _ d₂ hpost q' rfl
        obtain ⟨hidle', hall⟩ := hpost q' rfl
        refine ⟨hidle', ?_⟩
        rw [hall, hcompleted]
        simp

theorem checkDependencies_spec {nodes : List WorkNode} :
    Survives (exec diff) (Journalled diff plan cfg)
      (Post fun _ d' => d' = d ∧
        ∀ node ∈ nodes, ∀ x ∈ node.dependsOn, x ∈ p.completed)
      (checkDependencies p nodes) d := by
  induction nodes with
  | nil =>
      exact Post.ok ⟨rfl, by simp⟩
  | cons node rest ih =>
      unfold checkDependencies
      split
      · exact Post.error
      · next hmissing =>
          refine ih.mono ?_
          rintro _ d₁ hpost u rfl
          obtain ⟨hd, hrest⟩ := hpost u rfl
          refine ⟨hd, List.forall_mem_cons.mpr ⟨?_, hrest⟩⟩
          rw [not_not, missingOf, Work.sortedSet_eq_nil,
            List.filter_eq_nil_iff] at hmissing
          intro x hx
          have hdone := hmissing x hx
          simpa using hdone

theorem mem_pendingNodes {nodes : List WorkNode} {node : WorkNode} :
    node ∈ pendingNodes p nodes ↔ node ∈ nodes ∧ node.id ∉ p.completed := by
  simp [pendingNodes]

theorem pendingNodes_nodup {nodes : List WorkNode}
    (h : (nodes.map (·.id)).Nodup) :
    ((pendingNodes p nodes).map (·.id)).Nodup := by
  have hsorted : ((nodes.insertionSort fun a b => a.id ≤ b.id).map (·.id)).Nodup :=
    ((List.perm_insertionSort _ nodes).map _).nodup_iff.mpr h
  exact (List.filter_sublist.map _).nodup hsorted

/-- Notes that no rule reads are stored beside the receipts. -/
theorem Idle.note (h : Idle diff plan cfg p d) (verified : Option Verified)
    (decisions : List WaveDecision) (best : Option Best) :
    Idle diff plan cfg
      { p with
        verified := verified
        waveDecisions := decisions
        best := best }
      { d with journal := some { p with
        verified := verified
        waveDecisions := decisions
        best := best } } :=
  h.records.idle (h.exact.note verified decisions best) h.attempt h.revert
    h.fence h.counter

theorem recordDecision_spec (h : Idle diff plan cfg p d) (layer : Nat)
    (pending : List WorkNode) :
    Survives (exec diff) (Journalled diff plan cfg)
      (Post fun q d' => Idle diff plan cfg q d' ∧ q.completed = p.completed)
      (recordDecision p layer pending) d := by
  have hidle := fun decisions => h.note p.verified decisions p.best
  exact store_spec (hidle _).records (Post.ok ⟨hidle _, rfl⟩)

/-- The waves that are run through have their receipts. -/
theorem runLayers_spec {ws : List Work.WorkWave}
    (h : Idle diff plan cfg p d)
    (hids : ∀ wave ∈ ws, wave.ids.Nodup)
    (hplan : ∀ wave ∈ ws, ∀ node ∈ wave.nodes, plan.node node.id = some node) :
    Survives (exec diff) (Journalled diff plan cfg)
      (Post fun q d' => Idle diff plan cfg q d' ∧
        (∀ i ∈ p.completed, i ∈ q.completed) ∧
        ∀ wave ∈ ws, ∀ i ∈ wave.ids, i ∈ q.completed)
      (runLayers plan ws p) d := by
  induction ws generalizing p d with
  | nil =>
      exact Post.ok ⟨h, fun _ hi => hi, by simp⟩
  | cons wave rest ih =>
      obtain ⟨hid, hids⟩ := List.forall_mem_cons.mp hids
      obtain ⟨hnodes, hplan⟩ := List.forall_mem_cons.mp hplan
      refine bind_post checkDependencies_spec ?_
      rintro _ d₁ ⟨rfl, hdeps⟩
      -- with the receipts of this wave the later waves are as before
      have hlater : ∀ q d₁, Idle diff plan cfg q d₁ →
          (∀ i ∈ p.completed, i ∈ q.completed) →
          (∀ i ∈ wave.ids, i ∈ q.completed) →
          Survives (exec diff) (Journalled diff plan cfg)
            (Post fun q d' => Idle diff plan cfg q d' ∧
              (∀ i ∈ p.completed, i ∈ q.completed) ∧
              ∀ w ∈ wave :: rest, ∀ i ∈ w.ids, i ∈ q.completed)
            (runLayers plan rest q) d₁ := by
        intro q d₁ hidle hkept hwave
        refine (ih hidle hids hplan).mono ?_
        rintro _ d₂ hpost q' rfl
        obtain ⟨hidle', hkept', hrest⟩ := hpost q' rfl
        refine ⟨hidle', fun i hi => hkept' i (hkept i hi), ?_⟩
        exact List.forall_mem_cons.mpr
          ⟨fun i hi => hkept' i (hwave i hi), hrest⟩
      split
      · next hpending =>
          refine hlater p d₁ h (fun _ hi => hi) ?_
          intro i hi
          obtain ⟨node, hnode, rfl⟩ := List.mem_map.mp hi
          by_contra hnew
          have hmem := mem_pendingNodes.mpr ⟨hnode, hnew⟩
          rw [hpending] at hmem
          cases hmem
      · refine bind_post (recordDecision_spec h _ _) ?_
        rintro q d₂ ⟨hidle, hcompleted⟩
        refine bind_post (runNodes_spec _ hidle (pendingNodes_nodup hid) ?_ ?_ ?_) ?_
        · intro node hnode
          exact hnodes node (mem_pendingNodes.mp hnode).1
        · intro node hnode
          rw [hcompleted]
          exact (mem_pendingNodes.mp hnode).2
        · rw [hcompleted]
          exact hdeps
        · rintro q' d₃ ⟨hidle', hall⟩
          rw [hcompleted] at hall
          refine hlater q' d₃ hidle' ?_ ?_
          · intro i hi
            rw [hall]
            exact List.mem_append_left _ hi
          · intro i hi
            obtain ⟨node, hnode, rfl⟩ := List.mem_map.mp hi
            rw [hall]
            by_cases hdone : node.id ∈ p.completed
            · exact List.mem_append_left _ hdone
            · exact List.mem_append_right _
                (List.mem_map_of_mem (mem_pendingNodes.mpr ⟨hnode, hdone⟩))

/-- Every node of the plan has its receipt when the nodes are executed. -/
theorem executeNodes_spec (h : Idle diff plan cfg p d) :
    Survives (exec diff) (Journalled diff plan cfg)
      (Post fun q d' => Idle diff plan cfg q d' ∧ q.allDone plan)
      (executeNodes plan p) d := by
  unfold executeNodes
  split
  · exact Post.error
  · next ws hws =>
      have hkeyed : Machine.Keyed WorkNode.id plan.work := Work.waves_nodup hws
      refine (runLayers_spec h (Work.waves_layered hws).nodup ?_).mono ?_
      · intro wave hwave node hnode
        have hmem := Work.waves_mem hws wave hwave node hnode
        exact hkeyed.lookup_eq hmem
      · rintro _ d₁ hpost q rfl
        obtain ⟨hidle, -, hall⟩ := hpost q rfl
        refine ⟨hidle, ?_⟩
        intro node hnode
        obtain ⟨wave, hwave, hi⟩ := Work.waves_covers hws node hnode
        exact hall wave hwave node.id hi

end Nodes

section Verifying

variable {diff : Head → Head → List String} {plan : Plan} {cfg : Config}
variable {d : Durable} {p : Progress}

/-- The journal is idle, with the nodes and as many repairs as before. -/
def Checked (diff : Head → Head → List String) (plan : Plan) (cfg : Config)
    (p : Progress) : Progress × Bool → Durable → Prop :=
  fun q d => Idle diff plan cfg q.1 d ∧
    q.1.repairs.length = p.repairs.length ∧ q.1.completed = p.completed

theorem seedBest_spec (h : Idle diff plan cfg p d) (tests : TestResult) :
    Survives (exec diff) (Journalled diff plan cfg)
      (Post (Checked diff plan cfg p)) (judge.seedBest p tests) d := by
  unfold judge.seedBest
  split
  · have hidle := h.note p.verified p.waveDecisions (some (bestRow p tests))
    exact store_spec hidle.records (Post.ok ⟨hidle, rfl, rfl⟩)
  · split
    · exact Post.error
    · exact Post.ok ⟨h, rfl, rfl⟩

/-- A verdict that reverts names the best candidate. -/
theorem judgement_best {best : Best} {tests : TestResult} :
    (judgement (some best) tests).best = some (best.head, best.iteration) :=
  rfl

/-- The verdict is journalled with the revert that it asks for. -/
theorem judge_spec (h : Idle diff plan cfg p d) (tests : TestResult) :
    Survives (exec diff) (Journalled diff plan cfg)
      (Post (Checked diff plan cfg p)) (judge p tests) d := by
  unfold judge
  split
  · next receipt hlast =>
      split
      · next hpending =>
          have hrepairs : p.repairs = p.repairs.dropLast ++ [receipt] :=
            (List.dropLast_append_getLast? _ hlast).symm
          have hlength : ∀ v, (p.judged p.repairs.dropLast receipt v).repairs.length =
              p.repairs.length := by
            intro v
            simp only [Progress.judged]
            rw [List.length_append, List.length_singleton]
            nth_rewrite 2 [hrepairs]
            simp
          dsimp only
          split
          · next best hkept hbest =>
              have hexact := h.exact.revert h.attempt hrepairs hkept
                (hbest ▸ judgement_best) receipt.repair
              have hstored := h.records.store hexact (by simp)
                (by rintro _ ⟨⟩; exact .inl h.fence) h.counter
              refine store_spec hstored ?_
              refine bind_post (completeRevert_spec hstored rfl rfl) ?_
              rintro q d₁ ⟨hidle, hsame, hcompleted⟩
              refine Post.ok ⟨hidle, ?_, hcompleted⟩
              rw [hsame]
              exact hlength _
          · next hcases =>
              have hkept : (judgement p.best tests).evidence.kept = true ∨
                  (judgement p.best tests).best = none := by
                cases hbest : p.best with
                | none =>
                    exact .inr rfl
                | some best =>
                    rw [hbest] at hcases
                    exact .inl (Bool.not_eq_false _ |>.mp fun hrev =>
                      hcases best hrev rfl)
              have hexact := h.exact.keep h.attempt h.revert hrepairs hpending hkept
              have hidle := h.records.idle
                (hexact.note p.verified p.waveDecisions
                  (some (bestRow (p.judged p.repairs.dropLast receipt
                    (judgement p.best tests)) tests)))
                h.attempt h.revert h.fence h.counter
              exact store_spec hidle.records (Post.ok ⟨hidle, hlength _, rfl⟩)
      · exact seedBest_spec h tests
  · exact seedBest_spec h tests

theorem verify_spec (h : Idle diff plan cfg p d) :
    Survives (exec diff) (Journalled diff plan cfg)
      (Post (Checked diff plan cfg p)) (verify p) d := by
  intro i
  have hidle := h.same (drift_same i d)
  refine ⟨hidle.records, ?_⟩
  refine bind_post (R := fun _ d' => Idle diff plan cfg p d')
    (answer_spec (Post.ok hidle) (fun _ => Post.error)) ?_
  intro tests d₁ h₁
  have hnoted := h₁.note (some { head := p.head, tests := tests })
    p.waveDecisions p.best
  refine store_spec hnoted.records ?_
  refine bind_post (judge_spec hnoted tests) ?_
  rintro ⟨q, kept⟩ d₂ hchecked j
  refine ⟨hchecked.1.records, ?_⟩
  refine bind_post (R := fun _ d' => Checked diff plan cfg p (q, kept) d')
    (answer_spec (Post.ok hchecked) (fun _ => Post.error)) ?_
  intro _ d₃ hchecked'
  exact Post.ok hchecked'

/-- The bound counts the receipts of the repairs, so that no life resets it. -/
theorem repairLoop_spec {fuel : Nat} (h : Idle diff plan cfg p d)
    (hdone : p.allDone plan) :
    Survives (exec diff) (Journalled diff plan cfg)
      (Post (Idle diff plan cfg)) (repairLoop cfg plan fuel p) d := by
  induction fuel generalizing p d with
  | zero =>
      exact Post.error
  | succ fuel ih =>
      unfold repairLoop
      split
      · next hbound =>
          have hdue : (AttemptKind.repair (p.repairs.length + 1)).due plan cfg p :=
            ⟨rfl, hbound, hdone⟩
          refine bind_post (attempt_spec h "fix" hdue) ?_
          rintro q d₁ ⟨hidle, hadded⟩
          refine bind_post (verify_spec hidle) ?_
          rintro ⟨q', green⟩ d₂ ⟨hidle', -, hcompleted⟩
          have hdone' : q'.allDone plan := by
            intro node hnode
            rw [show q'.completed = p.completed from
              hcompleted.trans (hadded.repair _ rfl).2]
            exact hdone node hnode
          dsimp only
          split
          · exact Post.ok hidle'
          · exact ih hidle' hdone'
      · exact Post.error

/-- One life of the stage keeps the records, wherever it is killed. -/
theorem buildAndTest_spec (h : Journalled diff plan cfg d) :
    Survives (exec diff) (Journalled diff plan cfg)
      (Post (Idle diff plan cfg)) (buildAndTest cfg plan) d := by
  refine bind_post (openProgress_spec h) ?_
  intro p d₁ hidle
  refine bind_post (executeNodes_spec hidle) ?_
  rintro p' d₂ ⟨hidle', hdone⟩
  refine bind_post (verify_spec hidle') ?_
  rintro ⟨q, green⟩ d₃ ⟨hchecked, -, hcompleted⟩
  dsimp only
  split
  · exact Post.ok hchecked
  · refine repairLoop_spec hchecked ?_
    intro node hnode
    rw [show q.completed = p'.completed from hcompleted]
    exact hdone node hnode

end Verifying

section Lives

variable (diff : Head → Head → List String) (plan : Plan) (cfg : Config)

/-- The records when the stage is started for the first time. -/
theorem Journalled.start (fence head : Head) :
    Journalled diff plan cfg { fence := fence, head := head } where
  exact := by simp
  fenced := by simp
  ends := by simp
  once := List.nodup_nil
  counter := by simp

theorem lives_journalled (fence head : Head) (sessions : List (List Input)) :
    Journalled diff plan cfg
      (Machine.lives (exec diff) (buildAndTest cfg plan)
        { fence := fence, head := head } sessions) :=
  Survives.sessions (fun _ h => buildAndTest_spec h)
    (Journalled.start diff plan cfg fence head) sessions

/--
**Exactly-once work.**  However often the stage is killed and started again,
and whatever the sandbox does, the journal that survives names each node at
most once, behind its dependencies and within its declared files; the receipts
are chained from checkpoint to checkpoint; no agent call is given a number
twice; and the repairs keep to their bound.
-/
theorem work_exactly_once (fence head : Head) (sessions : List (List Input)) :
    let d := Machine.lives (exec diff) (buildAndTest cfg plan)
      { fence := fence, head := head } sessions
    d.calls.Nodup ∧
    ∀ p, d.journal = some p →
      p.completed.Nodup ∧
      (∀ pre r post, p.nodes = pre ++ r :: post →
        ∃ node ∈ plan.work, node.id = r.nodeId ∧
          (∀ x ∈ node.dependsOn, x ∈ pre.map (·.nodeId)) ∧
          r.changedFiles = changedFiles diff r.inputHead r.outputHead ∧
          ∀ f ∈ r.changedFiles, f ∈ node.files) ∧
      (∃ fannedIn last,
        Machine.Linked NodeReceipt.inputHead NodeReceipt.outputHead p.inputHead
          p.nodes fannedIn ∧
        Machine.Linked RepairReceipt.inputHead RepairReceipt.checkpoint fannedIn
          p.repairs last ∧
        (p.revert = none → p.head = last)) ∧
      (p.callNumbers ++ p.attempt.toList.map (·.agentCall)).Nodup ∧
      (∀ c ∈ d.calls, c ≤ p.agentCalls) ∧
      p.repairs.length ≤ cfg.maxBuildIterations - 1 := by
  intro d
  have h : Journalled diff plan cfg d :=
    lives_journalled diff plan cfg fence head sessions
  refine ⟨h.once, ?_⟩
  intro p hp
  have hexact := h.exact p hp
  obtain ⟨fannedIn, last, hnodes, hrepairs, hhead, -⟩ := hexact.chained
  exact ⟨hexact.once, hexact.ordered, ⟨fannedIn, last, hnodes, hrepairs, hhead⟩,
    hexact.calls, h.calls_le hp, hexact.bounded⟩

end Lives

end Build
end SwFactory
