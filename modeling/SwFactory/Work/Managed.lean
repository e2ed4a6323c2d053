import SwFactory.Publication.Identity
import SwFactory.Work.Waves

/-!
# The managed lifecycle graph

The work graph of a plan is compiled into the graph of a whole job: its nodes are
namespaced and stand between the fixed nodes in front of the build and behind it.
The compiled graph has the waves of the plan, in the order of the plan, between waves
of its own.

Sources: `lifecycle.py` and `models.py` (`PlanTask`, `Plan`).
-/

namespace SwFactory
namespace Work

open Machine
open Publication (Text validateIdentifier Refusal)

/-! ## Plans -/

inductive AgentRole
  | issueMaker
  | groomer
  | planner
  | codeWriter
  | reviewer
  | improver
  | deliverer
deriving DecidableEq

/-- `^[a-z][a-z0-9...]{0,most}$`, with the characters `more` in the class. -/
def matchesSlug (more : List Char) (most : Nat) (id : String) : Bool :=
  match id.toList with
  | [] => false
  | c :: rest =>
      c.isLower && rest.all (fun c => c.isLower || c.isDigit || c ∈ more) && rest.length ≤ most

/-- `Field(min_length=1, max_length=240)` -/
def isTitle (title : String) : Bool :=
  1 ≤ title.length && title.length ≤ 240

/-- `PlanTask`; its role is always `code_writer`. -/
structure PlanTask where
  id : String
  title : String
  dependsOn : List String
  files : List String
  tests : List String
  parallelSafe : Bool
deriving DecidableEq

namespace PlanTask

/-- The fields of a task are within their bounds. -/
def valid (task : PlanTask) : Bool :=
  matchesSlug ['_', '-'] 62 task.id && isTitle task.title && task.dependsOn.length ≤ 32 &&
    task.dependsOn.all (· ≠ "") && decide task.dependsOn.Nodup && task.files.length ≤ 128 &&
    task.tests.length ≤ 128

/-- What `waves` reads of a task. -/
def node (task : PlanTask) : WorkNode where
  id := task.id
  dependsOn := task.dependsOn
  files := task.files
  parallelSafe := task.parallelSafe

end PlanTask

/-- The groups of ids that may run side by side, of more than one node. -/
def forkGroups (ws : List WorkWave) : List (List String) :=
  (ws.map (fun wave => (wave.nodes.filter WorkNode.parallelSafe).map (·.id))).filter
    (fun group => decide (1 < group.length))

/-- `Plan`, as it is accepted. -/
structure Plan where
  files : List String
  steps : List String
  tests : List String
  work : List PlanTask
  bounded : work.length ≤ 64
  tasks : ∀ task ∈ work, task.valid = true
  declared : ∀ task ∈ work, ∀ file ∈ task.files, file ∈ files
  layered : ∃ ws, waves (work.map PlanTask.node) = .ok ws

/-- `Plan.fork_candidates` -/
def Plan.forkCandidates (plan : Plan) : List (List String) :=
  match waves (plan.work.map PlanTask.node) with
  | .ok ws => forkGroups ws
  | .error _ => []

/-! ## The managed graph -/

inductive Stage
  | intent
  | spec
  | plan
  | buildAndTest
  | review
  | deliver
deriving DecidableEq

inductive Execution
  | external
  | airflowStage
  | insideStage
deriving DecidableEq

structure ManagedNode where
  id : String
  role : AgentRole
  title : String
  stage : Stage
  execution : Execution
  dependsOn : List String
  condition : Option String
  parallelSafe : Bool
deriving DecidableEq

namespace ManagedNode

def valid (node : ManagedNode) : Bool :=
  matchesSlug ['_', ':', '-'] 95 node.id && isTitle node.title

/-- What `waves` and `fork_candidates` read of a node. -/
def node (node : ManagedNode) : WorkNode where
  id := node.id
  dependsOn := node.dependsOn
  files := []
  parallelSafe := node.execution = .insideStage && node.parallelSafe

end ManagedNode

structure ManagedGraph where
  issueId : Text
  nodes : List ManagedNode
deriving DecidableEq

inductive LifecycleError
  | identifier (refusal : Refusal)
  | task
  | node (id : String)
  | size
  | graph (error : WorkGraphError)
deriving DecidableEq

/-- `ManagedGraph.fork_candidates` -/
def ManagedGraph.forkCandidates (graph : ManagedGraph) : List (List String) :=
  match waves (graph.nodes.map ManagedNode.node) with
  | .ok ws => forkGroups ws
  | .error _ => []

/-- `f"work:{id}"` -/
def workId (id : String) : String :=
  "work:" ++ id

/-- `_work_nodes` -/
def workNodes (plan : Plan) : Except LifecycleError (List PlanTask) :=
  if plan.work ≠ [] then .ok plan.work
  else
    let task : PlanTask :=
      { id := "change"
        title := plan.steps.head?.getD "Implement the approved plan"
        dependsOn := []
        files := plan.files
        tests := plan.tests
        parallelSafe := false }
    if task.valid then .ok [task] else .error .task

/-- `children[id]` -/
def children (work : List PlanTask) (id : String) : List String :=
  (work.filter (fun task => id ∈ task.dependsOn)).map PlanTask.id

def issueNode : ManagedNode where
  id := "issue"
  role := .issueMaker
  title := "GitHub work order"
  stage := .intent
  execution := .external
  dependsOn := []
  condition := none
  parallelSafe := false

def groomNode : ManagedNode where
  id := "groom"
  role := .groomer
  title := "Bound the specification"
  stage := .spec
  execution := .airflowStage
  dependsOn := ["issue"]
  condition := none
  parallelSafe := false

def planNode : ManagedNode where
  id := "plan"
  role := .planner
  title := "Validate the issue work graph"
  stage := .plan
  execution := .airflowStage
  dependsOn := ["groom"]
  condition := none
  parallelSafe := false

/-- The managed node of a task. -/
def taskNode (task : PlanTask) : ManagedNode where
  id := workId task.id
  role := .codeWriter
  title := task.title
  stage := .buildAndTest
  execution := .insideStage
  dependsOn := if task.dependsOn = [] then ["plan"] else task.dependsOn.map workId
  condition := none
  parallelSafe := task.parallelSafe

def reviewNode (terminals : List String) : ManagedNode where
  id := "review"
  role := .reviewer
  title := "Review code, tests and plan fidelity"
  stage := .review
  execution := .airflowStage
  dependsOn := terminals
  condition := none
  parallelSafe := false

def improveNode : ManagedNode where
  id := "improve"
  role := .improver
  title := "Repair blocking review findings"
  stage := .review
  execution := .insideStage
  dependsOn := ["review"]
  condition := some "review=request_changes"
  parallelSafe := false

def deliverNode : ManagedNode where
  id := "deliver"
  role := .deliverer
  title := "Publish evidence and pull request"
  stage := .deliver
  execution := .airflowStage
  dependsOn := ["review"]
  condition := some "review_stage=complete"
  parallelSafe := false

def terminals (work : List PlanTask) : List String :=
  (work.filter (fun task => children work task.id = [])).map (fun task => workId task.id)

def managedNodes (work : List PlanTask) : List ManagedNode :=
  [issueNode, groomNode, planNode] ++ work.map taskNode ++
    [reviewNode (terminals work), improveNode, deliverNode]

/-- The validators of `ManagedNode` and of `ManagedGraph`. -/
def ManagedGraph.build (issueId : Text) (nodes : List ManagedNode) :
    Except LifecycleError ManagedGraph := do
  nodes.forM (fun node => if node.valid then .ok () else .error (.node node.id))
  if nodes = [] ∨ 80 < nodes.length then .error .size
  else
    let _ ← (validateIdentifier issueId).mapError .identifier
    let _ ← (waves (nodes.map ManagedNode.node)).mapError .graph
    return ⟨issueId, nodes⟩

/-- `compile_graph` -/
def compileGraph (issueId : Text) (plan : Plan) : Except LifecycleError ManagedGraph := do
  let _ ← (validateIdentifier issueId).mapError .identifier
  let work ← workNodes plan
  ManagedGraph.build issueId (managedNodes work)

/-! ## Namespaced ids -/

theorem workId_injective : Function.Injective workId := by
  intro i j h
  have hlist := congrArg String.toList h
  simp only [workId, String.toList_append] at hlist
  exact String.toList_injective (List.append_cancel_left hlist)

/-- No fixed node is a node of the plan. -/
theorem workId_ne {fixed : String} (hfixed : ¬ "work:".toList <+: fixed.toList) (id : String) :
    workId id ≠ fixed := by
  rintro rfl
  exact hfixed ⟨id.toList, by simp [workId, String.toList_append]⟩

/-- A node of the plan among the managed ones. -/
def liftNode (node : WorkNode) : WorkNode where
  id := workId node.id
  dependsOn := if node.dependsOn = [] then ["plan"] else node.dependsOn.map workId
  files := []
  parallelSafe := node.parallelSafe

@[simp] theorem liftNode_id (node : WorkNode) : (liftNode node).id = workId node.id := rfl

@[simp] theorem node_taskNode (task : PlanTask) :
    (taskNode task).node = liftNode task.node := by
  by_cases h : task.dependsOn = [] <;>
    simp [ManagedNode.node, taskNode, liftNode, PlanTask.node, h]

/-- The three nodes in front of the plan, and the three behind it. -/
def frontNodes : List WorkNode :=
  [issueNode.node, groomNode.node, planNode.node]

def backNodes (terms : List String) : List WorkNode :=
  [(reviewNode terms).node, improveNode.node, deliverNode.node]

def managed (ordered : List WorkNode) (terms : List String) : List WorkNode :=
  frontNodes ++ ordered.map liftNode ++ backNodes terms

theorem node_managedNodes (work : List PlanTask) :
    (managedNodes work).map ManagedNode.node =
      managed (work.map PlanTask.node) (terminals work) := by
  simp [managedNodes, managed, frontNodes, backNodes, List.map_map, Function.comp_def]

/-! ## The waves of the managed graph -/

section ManagedWaves

variable {ordered : List WorkNode}
variable {terms : List String}

/-- The terms are the ids that no node depends on. -/
def Terminals (ordered : List WorkNode) (terms : List String) : Prop :=
  ∀ t, t ∈ terms ↔ ∃ node ∈ ordered, workId node.id = t ∧ ∀ m ∈ ordered, node.id ∉ m.dependsOn

/-- What is done, and what remains, when the front is done. -/
def doneIds (done : List String) : List String :=
  ["issue", "groom", "plan"] ++ done.map workId

def remainingIds (remaining : List String) : List String :=
  remaining.map workId ++ ["review", "improve", "deliver"]

theorem workId_mem_map {i : String} {ids : List String} :
    workId i ∈ ids.map workId ↔ i ∈ ids :=
  List.mem_map_of_injective workId_injective

theorem mem_map_workId_ne {fixed : String} (hfixed : ¬ "work:".toList <+: fixed.toList)
    (ids : List String) : fixed ∉ ids.map workId := by
  intro h
  obtain ⟨i, -, hi⟩ := List.mem_map.mp h
  exact workId_ne hfixed i hi

theorem workId_mem_doneIds {i : String} {done : List String} :
    workId i ∈ doneIds done ↔ i ∈ done := by
  have hne : workId i ∉ ["issue", "groom", "plan"] := by
    simp [workId_ne (by decide : ¬ "work:".toList <+: "issue".toList),
      workId_ne (by decide : ¬ "work:".toList <+: "groom".toList),
      workId_ne (by decide : ¬ "work:".toList <+: "plan".toList)]
  rw [doneIds, List.mem_append, workId_mem_map]
  exact or_iff_right hne

theorem workId_mem_remainingIds {i : String} {remaining : List String} :
    workId i ∈ remainingIds remaining ↔ i ∈ remaining := by
  have hne : workId i ∉ ["review", "improve", "deliver"] := by
    simp [workId_ne (by decide : ¬ "work:".toList <+: "review".toList),
      workId_ne (by decide : ¬ "work:".toList <+: "improve".toList),
      workId_ne (by decide : ¬ "work:".toList <+: "deliver".toList)]
  rw [remainingIds, List.mem_append, workId_mem_map]
  exact or_iff_left hne

/-- The dependencies of a lifted node are done when those of the node are. -/
theorem lift_dependsOn {node : WorkNode} {done : List String} :
    (∀ d ∈ (liftNode node).dependsOn, d ∈ doneIds done) ↔ ∀ d ∈ node.dependsOn, d ∈ done := by
  unfold liftNode
  dsimp only
  split
  · rename_i hnil
    simp [hnil, doneIds]
  · rw [List.forall_mem_map]
    exact forall₂_congr (fun d _ => workId_mem_doneIds)

/-- While a node remains, a terminal one does. -/
theorem exists_terminal
    {ws : List WorkWave}
    (hws : waves ordered = .ok ws)
    {done remaining : List String} {index : Nat}
    (h : Frontier ordered done remaining index)
    (hremaining : remaining ≠ []) :
    ∃ node ∈ ordered, node.id ∈ remaining ∧ ∀ m ∈ ordered, node.id ∉ m.dependsOn := by
  obtain ⟨first, hfirst⟩ := List.exists_mem_of_ne_nil remaining hremaining
  -- go to a dependent node as long as there is one; the chains are bounded by the waves
  have hclimb : ∀ room k i, ws.length - k = room → i ∈ remaining → index ≤ k →
      Descent (DependsOn ordered) i k →
        ∃ node ∈ ordered, node.id ∈ remaining ∧ ∀ m ∈ ordered, node.id ∉ m.dependsOn := by
    intro room
    induction room with
    | zero =>
        intro k i hroom hi _ hdescent
        obtain ⟨node, hnode, rfl⟩ := List.mem_map.mp (h.listed i hi)
        obtain ⟨j, wave, hj, hmem, -, -, hgreatest⟩ := exists_inPlace hws hnode
        have hle := (hgreatest node hmem).2 hdescent
        have hlt := (List.getElem?_eq_some_iff.mp hj).1
        omega
    | succ room ih =>
        intro k i hroom hi hindex hdescent
        by_cases hterminal : ∀ m ∈ ordered, i ∉ m.dependsOn
        · obtain ⟨node, hnode, rfl⟩ := List.mem_map.mp (h.listed i hi)
          exact ⟨node, hnode, hi, hterminal⟩
        · push Not at hterminal
          obtain ⟨m, hm, hdepends⟩ := hterminal
          have hnext : Descent (DependsOn ordered) m.id (k + 1) :=
            .step ⟨m, hm, rfl, hdepends⟩ hdescent
          have hnotDone : m.id ∉ done := fun hdone => by
            have := h.below m.id hdone (k + 1) hnext
            omega
          have hmRemaining := (h.split m.id (List.mem_map_of_mem hm)).mpr hnotDone
          exact ih (k + 1) m.id (by omega) hmRemaining (by omega) hnext
  exact hclimb _ index first rfl hfirst le_rfl (h.above first hfirst)

/-- The nodes of a plan that are ready are those of its parts. -/
theorem ready_append (xs ys : List WorkNode) (done remaining : List String) :
    ready (xs ++ ys) done remaining = ready xs done remaining ++ ready ys done remaining :=
  List.filter_append _ _

theorem ready_eq_nil {nodes : List WorkNode} {done remaining : List String} :
    ready nodes done remaining = [] ↔
      ∀ node ∈ nodes, node.id ∈ remaining → ∃ d ∈ node.dependsOn, d ∉ done := by
  simp [ready, List.filter_eq_nil_iff]

/-- No id of the front stands behind it. -/
theorem front_not_mem_remainingIds (remaining : List String) :
    ∀ fixed ∈ ["issue", "groom", "plan"], fixed ∉ remainingIds remaining := by
  simp only [List.forall_mem_cons, remainingIds, List.mem_append, not_or]
  exact ⟨⟨mem_map_workId_ne (by decide) _, by decide⟩,
    ⟨mem_map_workId_ne (by decide) _, by decide⟩,
    ⟨mem_map_workId_ne (by decide) _, by decide⟩, by simp⟩

theorem frontNodes_id {n : WorkNode} (hn : n ∈ frontNodes) :
    n.id ∈ ["issue", "groom", "plan"] :=
  (List.mem_map_of_mem hn : n.id ∈ frontNodes.map (·.id))

theorem review_not_mem_doneIds (done : List String) : "review" ∉ doneIds done := by
  rw [doneIds, List.mem_append, not_or]
  exact ⟨by decide, mem_map_workId_ne (by decide) _⟩

/-- As long as a terminal node and the review are not done, nothing behind the plan is ready. -/
theorem ready_back_eq_nil {done remaining : List String}
    (hwaits : ∃ t ∈ terms, t ∉ done) (hreview : "review" ∉ done) :
    ready (backNodes terms) done remaining = [] := by
  refine ready_eq_nil.mpr (fun n hn _ => ?_)
  simp only [backNodes, List.mem_cons, List.not_mem_nil, or_false] at hn
  rcases hn with rfl | rfl | rfl
  · exact hwaits
  · exact ⟨"review", List.mem_singleton_self _, hreview⟩
  · exact ⟨"review", List.mem_singleton_self _, hreview⟩

/-- **While a node of the plan remains**, the ready nodes are those of the plan. -/
theorem ready_managed
    (hterms : Terminals ordered terms)
    {done remaining : List String}
    (hwaits : ∃ node ∈ ordered, node.id ∉ done ∧ ∀ m ∈ ordered, node.id ∉ m.dependsOn) :
    ready (managed ordered terms) (doneIds done) (remainingIds remaining) =
      (ready ordered done remaining).map liftNode := by
  have hfront : ready frontNodes (doneIds done) (remainingIds remaining) = [] :=
    ready_eq_nil.mpr (fun n hn hid =>
      absurd hid (front_not_mem_remainingIds remaining _ (frontNodes_id hn)))
  have hback : ready (backNodes terms) (doneIds done) (remainingIds remaining) = [] := by
    obtain ⟨node, hnode, hnotDone, hterminal⟩ := hwaits
    exact ready_back_eq_nil
      ⟨_, (hterms _).mpr ⟨node, hnode, rfl, hterminal⟩, fun h => hnotDone (workId_mem_doneIds.mp h)⟩
      (review_not_mem_doneIds done)
  rw [managed, ready_append, ready_append, hfront, hback, List.nil_append, List.append_nil]
  unfold ready
  rw [List.filter_map]
  refine congrArg (List.map liftNode) (List.filter_congr (fun node _ => ?_))
  have hid : decide (workId node.id ∈ remainingIds remaining) = decide (node.id ∈ remaining) :=
    decide_eq_decide.mpr workId_mem_remainingIds
  have hdeps : ((liftNode node).dependsOn.all fun d => decide (d ∈ doneIds done)) =
      node.dependsOn.all fun d => decide (d ∈ done) := by
    rw [Bool.eq_iff_iff]
    simpa using lift_dependsOn
  exact congrArg₂ (· && ·) hid hdeps

/-- **One turn of the loop** that fills a wave. -/
theorem layers_turn {nodes : List WorkNode} {done remaining : List String} {fuel index : Nat}
    {rest : List WorkWave}
    (hready : ready ordered done remaining = nodes) (hnodes : nodes ≠ [])
    (hrest : layers ordered fuel (done ++ nodes.map (·.id))
      (remaining.filter fun i => decide (i ∉ nodes.map (·.id))) (index + 1) = .ok rest) :
    layers ordered (fuel + 1) done remaining index = .ok (⟨index, nodes⟩ :: rest) := by
  subst hready
  have hremaining : remaining ≠ [] := by
    rintro rfl
    exact hnodes (ready_eq_nil.mpr (fun _ _ hid => absurd hid List.not_mem_nil))
  rw [layers, if_neg hremaining]
  dsimp only
  rw [if_neg hnodes, hrest]
  rfl

/-- What `layers` did in a turn that filled a wave. -/
theorem layers_eq_ok {done remaining : List String} {fuel index : Nat} {ws : List WorkWave}
    (hremaining : remaining ≠ [])
    (hws : layers ordered (fuel + 1) done remaining index = .ok ws) :
    ready ordered done remaining ≠ [] ∧ ∃ rest,
      layers ordered fuel (done ++ readyIds ordered done remaining)
        (waiting ordered done remaining) (index + 1) = .ok rest ∧
      ws = ⟨index, ready ordered done remaining⟩ :: rest := by
  rw [layers, if_neg hremaining] at hws
  dsimp only at hws
  split at hws
  · cases hws
  · next hready =>
      obtain ⟨rest, hrest, hcons⟩ := bind_eq_ok hws
      cases hcons
      exact ⟨hready, rest, hrest, rfl⟩

/-! ### The waves behind the plan -/

/-- The waves behind the plan. -/
def backWaves (terms : List String) (index : Nat) : List WorkWave :=
  [⟨index, [(reviewNode terms).node]⟩, ⟨index + 1, [improveNode.node, deliverNode.node]⟩]

/-- With only fixed ids left, only the fixed nodes are ready. -/
theorem ready_fixed {done left : List String}
    (hleft : ∀ i ∈ left, i ∈ ["review", "improve", "deliver"]) :
    ready (managed ordered terms) done left = ready (backNodes terms) done left := by
  have hfront : ready frontNodes done left = [] := by
    refine ready_eq_nil.mpr (fun n hn hid =>
      absurd ?_ (front_not_mem_remainingIds [] _ (frontNodes_id hn)))
    simpa [remainingIds] using hleft n.id hid
  have hwork : ready (ordered.map liftNode) done left = [] := by
    refine ready_eq_nil.mpr (fun n hn hid => ?_)
    obtain ⟨node, -, rfl⟩ := List.mem_map.mp hn
    have hmem : workId node.id ∈ remainingIds [] := by
      simpa [remainingIds] using hleft _ hid
    exact absurd (workId_mem_remainingIds.mp hmem) List.not_mem_nil
  rw [managed, ready_append, ready_append, hfront, hwork, List.nil_append, List.nil_append]

/-- **When the plan is done**, the review goes first and the two behind it side by side. -/
theorem layers_back {done : List String} {index fuel : Nat}
    (hdone : ∀ t ∈ terms, t ∈ doneIds done) :
    layers (managed ordered terms) (fuel + 3) (doneIds done) (remainingIds []) index =
      .ok (backWaves terms index) := by
  have hreview := review_not_mem_doneIds done
  have hfirst : ready (managed ordered terms) (doneIds done) (remainingIds []) =
      [(reviewNode terms).node] := by
    rw [ready_fixed (by simp [remainingIds])]
    simpa [ready, backNodes, ManagedNode.node, reviewNode, improveNode, deliverNode,
      remainingIds, List.filter_cons, hreview] using hdone
  have hsecond : ready (managed ordered terms) (doneIds done ++ ["review"])
      ["improve", "deliver"] = [improveNode.node, deliverNode.node] := by
    rw [ready_fixed (by simp)]
    simp [ready, backNodes, ManagedNode.node, reviewNode, improveNode, deliverNode]
  refine layers_turn hfirst (List.cons_ne_nil _ _) ?_
  refine layers_turn (by simpa [remainingIds, ManagedNode.node, reviewNode] using hsecond)
    (List.cons_ne_nil _ _) ?_
  simp [layers, remainingIds, ManagedNode.node, reviewNode, improveNode, deliverNode]

/-! ### The waves of the plan -/

/-- A wave of the plan among the managed ones. -/
def liftWave (wave : WorkWave) : WorkWave :=
  ⟨wave.index + 3, wave.nodes.map liftNode⟩

theorem map_id_liftNode (nodes : List WorkNode) :
    (nodes.map liftNode).map (·.id) = (nodes.map (·.id)).map workId := by
  rw [List.map_map, List.map_map]
  rfl

/-- What waits of the plan waits among the managed nodes. -/
theorem filter_remainingIds (remaining ids : List String) :
    (remainingIds remaining).filter (fun i => decide (i ∉ ids.map workId)) =
      remainingIds (remaining.filter fun i => decide (i ∉ ids)) := by
  have hback : ∀ i ∈ ["review", "improve", "deliver"], i ∉ ids.map workId := by
    simp only [List.forall_mem_cons]
    exact ⟨mem_map_workId_ne (by decide) _, mem_map_workId_ne (by decide) _,
      mem_map_workId_ne (by decide) _, by simp⟩
  rw [remainingIds, remainingIds, List.filter_append, List.filter_map,
    List.filter_eq_self.mpr (fun i hi => decide_eq_true (hback i hi))]
  refine congrArg (List.map workId · ++ _) (List.filter_congr (fun i _ => ?_))
  exact decide_eq_decide.mpr (not_congr workId_mem_map)

/-- When nothing remains of the plan, its terminal nodes are done. -/
theorem Frontier.terms_done (hterms : Terminals ordered terms) {done : List String} {index : Nat}
    (h : Frontier ordered done [] index) : ∀ t ∈ terms, t ∈ doneIds done := by
  intro t ht
  obtain ⟨node, hnode, rfl, -⟩ := (hterms t).mp ht
  have hsplit := iff_not_comm.mp (h.split node.id (List.mem_map_of_mem hnode))
  exact workId_mem_doneIds.mpr (hsplit.mpr List.not_mem_nil)

/--
**The managed loop follows the loop of the plan**: from the same frontier it
fills the same waves, and then those behind the plan.
-/
theorem layers_managed
    (hterms : Terminals ordered terms)
    {all : List WorkWave}
    (hall : waves ordered = .ok all)
    {fuel : Nat} {done remaining : List String} {index : Nat}
    (hfuel : remaining.length ≤ fuel)
    (h : Frontier ordered done remaining index)
    {ws : List WorkWave}
    (hws : layers ordered fuel done remaining index = .ok ws) :
    layers (managed ordered terms) (fuel + 3) (doneIds done) (remainingIds remaining)
        (index + 3) =
      .ok (ws.map liftWave ++ backWaves terms (index + 3 + ws.length)) := by
  obtain ⟨hnodup, hlisted, -⟩ := waves_eq_ok hall
  induction fuel generalizing done remaining index ws with
  | zero =>
      obtain rfl : remaining = [] := List.length_eq_zero_iff.mp (by omega)
      cases hws
      exact layers_back (h.terms_done hterms)
  | succ fuel ih =>
      by_cases hremaining : remaining = []
      · subst hremaining
        rw [layers, if_pos rfl] at hws
        cases hws
        exact layers_back (h.terms_done hterms)
      · obtain ⟨hready, rest, hrest, rfl⟩ := layers_eq_ok hremaining hws
        have hwaits : ∃ node ∈ ordered, node.id ∉ done ∧ ∀ m ∈ ordered, node.id ∉ m.dependsOn := by
          obtain ⟨node, hnode, hmem, hterminal⟩ := exists_terminal hall h hremaining
          exact ⟨node, hnode, (h.split _ (List.mem_map_of_mem hnode)).mp hmem, hterminal⟩
        have hshorter : (waiting ordered done remaining).length < remaining.length :=
          waiting_length_lt hready
        have hnext := ih (Nat.le_of_lt_succ (lt_of_lt_of_le hshorter hfuel))
          (h.step hnodup hlisted) hrest
        have hwaves : layers (managed ordered terms) (fuel + 3)
            (doneIds done ++ ((ready ordered done remaining).map liftNode).map (·.id))
            ((remainingIds remaining).filter fun i =>
              decide (i ∉ ((ready ordered done remaining).map liftNode).map (·.id)))
            (index + 3 + 1) =
              .ok (rest.map liftWave ++ backWaves terms (index + 1 + 3 + rest.length)) := by
          rw [map_id_liftNode, filter_remainingIds, doneIds, List.append_assoc, ← List.map_append]
          exact hnext
        have hturn := layers_turn (ready_managed hterms hwaits)
          (mt List.map_eq_nil_iff.mp hready) hwaves
        rw [List.map_cons, List.cons_append, List.length_cons,
          show index + 3 + (rest.length + 1) = index + 1 + 3 + rest.length by omega]
        exact hturn

/-! ### The waves in front of the plan -/

/-- The waves in front of the plan. -/
def frontWaves : List WorkWave :=
  [⟨0, [issueNode.node]⟩, ⟨1, [groomNode.node]⟩, ⟨2, [planNode.node]⟩]

/-- Before the planner is done, only the front is ready. -/
theorem ready_front (hterms : Terminals ordered terms) (hne : terms ≠ []) {done : List String}
    (hdone : ∀ i ∈ done, i ∈ ["issue", "groom"]) (left : List String) :
    ready (managed ordered terms) done left = ready frontNodes done left := by
  have hplanned : ∀ i, workId i ∉ done := by
    intro i hi
    have hmem : workId i ∈ doneIds [] := by
      have := hdone _ hi
      simp only [doneIds, List.map_nil, List.append_nil]
      exact List.mem_append_left ["plan"] this
    exact absurd (workId_mem_doneIds.mp hmem) List.not_mem_nil
  have hwork : ready (ordered.map liftNode) done left = [] := by
    refine ready_eq_nil.mpr (fun n hn _ => ?_)
    obtain ⟨node, -, rfl⟩ := List.mem_map.mp hn
    unfold liftNode
    dsimp only
    split
    · exact ⟨"plan", List.mem_singleton_self _, fun h => by simpa using hdone _ h⟩
    · next hdeps =>
        obtain ⟨d, hd⟩ := List.exists_mem_of_ne_nil _ hdeps
        exact ⟨workId d, List.mem_map_of_mem hd, hplanned d⟩
  have hback : ready (backNodes terms) done left = [] := by
    obtain ⟨t, ht⟩ := List.exists_mem_of_ne_nil _ hne
    obtain ⟨node, -, rfl, -⟩ := (hterms t).mp ht
    exact ready_back_eq_nil ⟨_, ht, hplanned node.id⟩ (fun h => by simpa using hdone _ h)
  rw [managed, ready_append, ready_append, hwork, hback, List.append_nil, List.append_nil]

/-- The front takes the first three turns. -/
theorem layers_front (hterms : Terminals ordered terms) (hne : terms ≠ []) {fuel : Nat}
    {remaining : List String} {rest : List WorkWave}
    (hrest : layers (managed ordered terms) fuel (doneIds []) (remainingIds remaining) 3 =
      .ok rest) :
    layers (managed ordered terms) (fuel + 3) []
        (["issue", "groom", "plan"] ++ remainingIds remaining) 0 =
      .ok (frontWaves ++ rest) := by
  have hfront := front_not_mem_remainingIds remaining
  have hbehind : ∀ fixed ∈ ["issue", "groom", "plan"],
      (remainingIds remaining).filter (fun i => decide (i ∉ [fixed])) = remainingIds remaining := by
    intro fixed hfixed
    refine List.filter_eq_self.mpr (fun i hi => decide_eq_true (fun h => ?_))
    rw [List.mem_singleton.mp h] at hi
    exact hfront fixed hfixed hi
  have hissue : ready (managed ordered terms) []
      (["issue", "groom", "plan"] ++ remainingIds remaining) = [issueNode.node] := by
    rw [ready_front hterms hne (by simp)]
    simp [ready, frontNodes, ManagedNode.node, issueNode, groomNode, planNode]
  have hgroom : ready (managed ordered terms) ["issue"]
      (["groom", "plan"] ++ remainingIds remaining) = [groomNode.node] := by
    rw [ready_front hterms hne (by simp)]
    simp [ready, frontNodes, ManagedNode.node, issueNode, groomNode, planNode, hfront "issue"]
  have hplan : ready (managed ordered terms) ["issue", "groom"]
      (["plan"] ++ remainingIds remaining) = [planNode.node] := by
    rw [ready_front hterms hne (by simp)]
    simp [ready, frontNodes, ManagedNode.node, issueNode, groomNode, planNode, hfront "issue",
      hfront "groom"]
  refine layers_turn hissue (List.cons_ne_nil _ _) ?_
  rw [show [issueNode.node].map (·.id) = ["issue"] from rfl, List.filter_append,
    hbehind _ (by simp)]
  refine layers_turn hgroom (List.cons_ne_nil _ _) ?_
  rw [show [groomNode.node].map (·.id) = ["groom"] from rfl, List.filter_append,
    hbehind _ (by simp)]
  refine layers_turn hplan (List.cons_ne_nil _ _) ?_
  rw [show [planNode.node].map (·.id) = ["plan"] from rfl, List.filter_append,
    hbehind _ (by simp)]
  exact hrest

/-- The ids of the managed nodes. -/
theorem managed_ids :
    (managed ordered terms).map (·.id) =
      ["issue", "groom", "plan"] ++ remainingIds (ordered.map (·.id)) := by
  rw [managed, List.map_append, List.map_append, map_id_liftNode, remainingIds,
    ← List.append_assoc]
  rfl

theorem managed_nodup (hnodup : (ordered.map (·.id)).Nodup) :
    ((managed ordered terms).map (·.id)).Nodup := by
  rw [managed_ids]
  refine List.nodup_append'.mpr ⟨by decide, ?_, ?_⟩
  · refine List.nodup_append'.mpr ⟨hnodup.map workId_injective, by decide, ?_⟩
    intro i hi hback
    obtain ⟨j, -, rfl⟩ := List.mem_map.mp hi
    have hmem : workId j ∈ remainingIds [] := by simpa [remainingIds] using hback
    exact absurd (workId_mem_remainingIds.mp hmem) List.not_mem_nil
  · exact front_not_mem_remainingIds _

/-- The managed nodes pass the checks that `waves` makes of each one. -/
theorem checkNode_managed (hterms : Terminals ordered terms) (hwell : WellFormed ordered) :
    ∀ n ∈ managed ordered terms, checkNode ((managed ordered terms).map (·.id)) n = .ok () := by
  intro n hn
  refine checkNode_eq_ok.mpr ?_
  rw [managed_ids]
  rcases List.mem_append.mp hn with hn | hn
  · rcases List.mem_append.mp hn with hn | hn
    · simp only [frontNodes, List.mem_cons, List.not_mem_nil, or_false] at hn
      rcases hn with rfl | rfl | rfl <;>
        simp [ManagedNode.node, issueNode, groomNode, planNode]
    · obtain ⟨node, hnode, rfl⟩ := List.mem_map.mp hn
      refine ⟨fun d hd => ?_, fun hself => ?_⟩
      · unfold liftNode at hd
        dsimp only at hd
        split at hd
        · obtain rfl := List.mem_singleton.mp hd
          simp
        · obtain ⟨i, hi, rfl⟩ := List.mem_map.mp hd
          exact List.mem_append_right _
            (workId_mem_remainingIds.mpr (hwell.listed node hnode i hi))
      · unfold liftNode at hself
        dsimp only at hself
        split at hself
        · exact workId_ne (by decide) _ (List.mem_singleton.mp hself)
        · exact hwell.acyclic node.id
            (.single ⟨node, hnode, rfl, workId_mem_map.mp hself⟩)
  · simp only [backNodes, List.mem_cons, List.not_mem_nil, or_false] at hn
    have hterm : ∀ t ∈ terms, ∃ node ∈ ordered, workId node.id = t := by
      intro t ht
      obtain ⟨node, hnode, hid, -⟩ := (hterms t).mp ht
      exact ⟨node, hnode, hid⟩
    rcases hn with rfl | rfl | rfl
    · refine ⟨fun t ht => ?_, fun hself => ?_⟩
      · obtain ⟨node, hnode, rfl⟩ := hterm t ht
        exact List.mem_append_right _
          (workId_mem_remainingIds.mpr (List.mem_map_of_mem hnode))
      · obtain ⟨node, -, hid⟩ := hterm _ hself
        exact workId_ne (by decide : ¬ "work:".toList <+: "review".toList) _ hid
    · simp [ManagedNode.node, improveNode, remainingIds]
    · simp [ManagedNode.node, deliverNode, remainingIds]

/-- **The managed graph has the waves of the plan** between waves of its own. -/
theorem waves_managed (hterms : Terminals ordered terms) (hne : ordered ≠ [])
    {ws : List WorkWave} (hws : waves ordered = .ok ws) :
    waves (managed ordered terms) =
      .ok (frontWaves ++ (ws.map liftWave ++ backWaves terms (3 + ws.length))) := by
  obtain ⟨hnodup, -, hlayers⟩ := waves_eq_ok hws
  have hterm : terms ≠ [] := by
    obtain ⟨node, hnode, -, hterminal⟩ :=
      exists_terminal hws Frontier.initial (mt List.map_eq_nil_iff.mp hne)
    exact List.ne_nil_of_mem ((hterms _).mpr ⟨node, hnode, rfl, hterminal⟩)
  have hwork := layers_managed hterms hws (List.length_map _).le Frontier.initial hlayers
  have hfront := layers_front hterms hterm hwork
  have hchecks : (managed ordered terms).forM
      (checkNode ((managed ordered terms).map (·.id))) = .ok ⟨⟩ :=
    forM_eq_ok.mpr (checkNode_managed hterms (wellFormed_of_waves hws))
  have hfuel : (managed ordered terms).length = ordered.length + 3 + 3 := by
    simp [managed, frontNodes, backNodes]
  rw [waves, if_neg (not_not.mpr (managed_nodup hnodup)), hchecks, hfuel, managed_ids]
  rw [Nat.zero_add] at hfront
  exact hfront

end ManagedWaves

/-! ## The compiled graph -/

theorem terminals_spec (work : List PlanTask) :
    Terminals (work.map PlanTask.node) (terminals work) := by
  intro t
  have hchildren : ∀ id, children work id = [] ↔ ∀ m ∈ work.map PlanTask.node, id ∉ m.dependsOn := by
    intro id
    rw [children, List.map_eq_nil_iff, List.filter_eq_nil_iff, List.forall_mem_map]
    exact forall₂_congr (fun m _ => by simp [PlanTask.node])
  constructor
  · intro ht
    obtain ⟨task, htask, rfl⟩ := List.mem_map.mp ht
    obtain ⟨hmem, hterminal⟩ := List.mem_filter.mp htask
    exact ⟨task.node, List.mem_map_of_mem hmem, rfl,
      (hchildren task.id).mp (of_decide_eq_true hterminal)⟩
  · rintro ⟨node, hnode, rfl, hterminal⟩
    obtain ⟨task, hmem, rfl⟩ := List.mem_map.mp hnode
    exact List.mem_map_of_mem
      (List.mem_filter.mpr ⟨hmem, decide_eq_true ((hchildren task.id).mpr hterminal)⟩)

/-- The id of a task stays within the bounds of a node's id. -/
theorem matchesSlug_workId {id : String} (h : matchesSlug ['_', '-'] 62 id = true) :
    matchesSlug ['_', ':', '-'] 95 (workId id) = true := by
  have htext : (workId id).toList = 'w' :: 'o' :: 'r' :: 'k' :: ':' :: id.toList := by
    rw [workId, String.toList_append]
    rfl
  unfold matchesSlug at h ⊢
  rw [htext]
  cases hid : id.toList with
  | nil => simp [hid] at h
  | cons c rest =>
      simp only [hid, Bool.and_eq_true, decide_eq_true_eq, List.all_eq_true] at h
      obtain ⟨⟨hc, hrest⟩, hlength⟩ := h
      have hmore : ∀ x ∈ rest,
          (x.isLower || x.isDigit || decide (x ∈ ['_', ':', '-'])) = true := by
        intro x hx
        have := hrest x hx
        simp only [Bool.or_eq_true, decide_eq_true_eq, List.mem_cons] at this ⊢
        tauto
      simp only [List.all_cons, hc, Bool.true_or, Bool.true_and, Bool.and_eq_true,
        List.all_eq_true.mpr hmore, List.length_cons, decide_eq_true_eq]
      exact ⟨by decide, by omega⟩

theorem PlanTask.valid_taskNode {task : PlanTask} (h : task.valid = true) :
    (taskNode task).valid = true := by
  simp only [PlanTask.valid, Bool.and_eq_true] at h
  simp only [ManagedNode.valid, taskNode, Bool.and_eq_true]
  exact ⟨matchesSlug_workId h.1.1.1.1.1.1, h.1.1.1.1.1.2⟩

theorem managedNodes_valid {work : List PlanTask} (h : ∀ task ∈ work, task.valid = true) :
    ∀ n ∈ managedNodes work, n.valid = true := by
  intro n hn
  simp only [managedNodes, List.mem_append, List.mem_cons, List.not_mem_nil, or_false,
    List.mem_map] at hn
  rcases hn with ((rfl | rfl | rfl) | ⟨task, htask, rfl⟩) | rfl | rfl | rfl
  · decide
  · decide
  · decide
  · exact PlanTask.valid_taskNode (h task htask)
  · exact (by decide : (reviewNode []).valid = true)
  · decide
  · decide

/-- What `_work_nodes` promises. -/
structure Worked (plan : Plan) (work : List PlanTask) (ws : List WorkWave) : Prop where
  some : work ≠ []
  bounded : work.length ≤ 64
  tasks : ∀ task ∈ work, task.valid = true
  layered : waves (work.map PlanTask.node) = .ok ws
  forks : forkGroups ws = plan.forkCandidates

theorem workNodes_eq_ok {plan : Plan} {work : List PlanTask} (h : workNodes plan = .ok work) :
    ∃ ws, Worked plan work ws := by
  unfold workNodes at h
  split at h
  · next hne =>
      cases h
      obtain ⟨ws, hws⟩ := plan.layered
      exact ⟨ws, hne, plan.bounded, plan.tasks, hws, by rw [Plan.forkCandidates, hws]⟩
  · next hnone =>
      dsimp only at h
      split at h
      · next hvalid =>
          cases h
          refine ⟨_, List.cons_ne_nil _ _, by simp, by simpa using hvalid, rfl, ?_⟩
          rw [Plan.forkCandidates, not_not.mp hnone]
          rfl
      · cases h

/-- When `_work_nodes` finds tasks. -/
theorem workNodes_isOk (plan : Plan) :
    (∃ work, workNodes plan = .ok work) ↔
      (plan.work = [] →
        isTitle (plan.steps.head?.getD "Implement the approved plan") = true ∧
          plan.files.length ≤ 128 ∧ plan.tests.length ≤ 128) := by
  unfold workNodes
  split
  · next hne => exact ⟨fun _ hnil => absurd hnil hne, fun _ => ⟨_, rfl⟩⟩
  · next hnone =>
      have hid : matchesSlug ['_', '-'] 62 "change" = true := by decide
      dsimp only
      split
      · next hvalid =>
          simp only [PlanTask.valid, Bool.and_eq_true, decide_eq_true_eq] at hvalid
          exact ⟨fun _ _ => ⟨hvalid.1.1.1.1.1.2, hvalid.1.2, hvalid.2⟩, fun _ => ⟨_, rfl⟩⟩
      · next hvalid =>
          refine ⟨(by rintro ⟨work, ⟨⟩⟩), fun h => absurd ?_ hvalid⟩
          obtain ⟨htitle, hfiles, htests⟩ := h (not_not.mp hnone)
          simp [PlanTask.valid, hid, htitle, hfiles, htests]

/-- The groups that may fork are namespaced with the waves. -/
theorem forkGroups_managed (ws : List WorkWave) (terms : List String) (index : Nat) :
    forkGroups (frontWaves ++ (ws.map liftWave ++ backWaves terms index)) =
      (forkGroups ws).map (fun group => group.map workId) := by
  have hfront : forkGroups frontWaves = [] := by decide
  have hback : forkGroups (backWaves terms index) = [] := rfl
  have happend : ∀ xs ys, forkGroups (xs ++ ys) = forkGroups xs ++ forkGroups ys := by
    intro xs ys
    rw [forkGroups, List.map_append, List.filter_append]
    rfl
  rw [happend, happend, hfront, hback, List.nil_append, List.append_nil]
  have hgroup : ∀ wave : WorkWave,
      ((liftWave wave).nodes.filter WorkNode.parallelSafe).map (·.id) =
        ((wave.nodes.filter WorkNode.parallelSafe).map (·.id)).map workId := by
    intro wave
    rw [liftWave, List.filter_map, map_id_liftNode]
    rfl
  have hgroups : (ws.map liftWave).map
        (fun wave => (wave.nodes.filter WorkNode.parallelSafe).map (·.id)) =
      (ws.map (fun wave => (wave.nodes.filter WorkNode.parallelSafe).map (·.id))).map
        (fun group => group.map workId) := by
    rw [List.map_map, List.map_map]
    exact List.map_congr_left (fun wave _ => hgroup wave)
  rw [forkGroups, hgroups, List.filter_map]
  refine congrArg (List.map _) (List.filter_congr (fun group _ => ?_))
  simp only [Function.comp_apply, List.length_map]

/-- The validators let a graph through that is in bounds and has waves. -/
theorem ManagedGraph.build_eq_ok {issueId : Text} {nodes : List ManagedNode}
    (hissue : validateIdentifier issueId = .ok issueId)
    (hvalid : ∀ n ∈ nodes, n.valid = true)
    (hsome : nodes ≠ []) (hsize : nodes.length ≤ 80)
    {ws : List WorkWave}
    (hws : waves (nodes.map ManagedNode.node) = .ok ws) :
    ManagedGraph.build issueId nodes = .ok ⟨issueId, nodes⟩ := by
  have hnodes : nodes.forM (fun node =>
      if node.valid then Except.ok () else .error (LifecycleError.node node.id)) = .ok ⟨⟩ :=
    forM_eq_ok.mpr (fun n hn => if_pos (hvalid n hn))
  have hbounds : ¬ (nodes = [] ∨ 80 < nodes.length) := by
    rintro (h | h)
    · exact hsome h
    · omega
  unfold ManagedGraph.build
  rw [hnodes, ok_bind, if_neg hbounds, mapError_eq_ok.mpr hissue, ok_bind,
    mapError_eq_ok.mpr hws]
  rfl

theorem validateIdentifier_id {value x : Text} (h : validateIdentifier value = .ok x) :
    x = value := by
  unfold validateIdentifier at h
  split at h
  · cases h
  · cases h
    rfl

/-- The tasks of a plan compile. -/
theorem build_managedNodes {issueId : Text} {plan : Plan} {work : List PlanTask}
    {ws : List WorkWave}
    (hissue : validateIdentifier issueId = .ok issueId)
    (h : Worked plan work ws) :
    ManagedGraph.build issueId (managedNodes work) = .ok ⟨issueId, managedNodes work⟩ ∧
      waves ((managedNodes work).map ManagedNode.node) =
        .ok (frontWaves ++ (ws.map liftWave ++ backWaves (terminals work) (3 + ws.length))) := by
  have hwaves : waves ((managedNodes work).map ManagedNode.node) =
      .ok (frontWaves ++ (ws.map liftWave ++ backWaves (terminals work) (3 + ws.length))) := by
    rw [node_managedNodes]
    exact waves_managed (terminals_spec work) (mt List.map_eq_nil_iff.mp h.some) h.layered
  refine ⟨ManagedGraph.build_eq_ok hissue (managedNodes_valid h.tasks) ?_ ?_ hwaves, hwaves⟩
  · simp [managedNodes]
  · have := h.bounded
    simp only [managedNodes, List.length_append, List.length_map, List.length_cons,
      List.length_nil]
    omega

/--
`compile_graph` takes every plan with work, and one without work whose first step,
files and tests fit one task.  The managed graph then has the waves of the plan, in
order and with namespaced ids, behind the issue, the groomer and the planner and in
front of the review, with the improver and the deliverer side by side after it; and
the nodes it offers to fork are those the plan offers.
-/
theorem compileGraph_keeps_waves
    (issueId : Text)
    (plan : Plan) :
    ((∃ graph, compileGraph issueId plan = .ok graph) ↔
      (∃ id, validateIdentifier issueId = .ok id) ∧
        (plan.work = [] →
          isTitle (plan.steps.head?.getD "Implement the approved plan") = true ∧
            plan.files.length ≤ 128 ∧ plan.tests.length ≤ 128)) ∧
    ∀ graph, compileGraph issueId plan = .ok graph →
      graph.issueId = issueId ∧
      (∃ work ws, workNodes plan = .ok work ∧ waves (work.map PlanTask.node) = .ok ws ∧
        graph.nodes = managedNodes work ∧
        waves (graph.nodes.map ManagedNode.node) =
          .ok (frontWaves ++ (ws.map liftWave ++ backWaves (terminals work) (3 + ws.length)))) ∧
      graph.forkCandidates = plan.forkCandidates.map (fun group => group.map workId) := by
  refine ⟨⟨?_, ?_⟩, ?_⟩
  · rintro ⟨graph, h⟩
    obtain ⟨id, hid, h⟩ := bind_eq_ok h
    obtain ⟨work, hwork, -⟩ := bind_eq_ok h
    exact ⟨⟨id, mapError_eq_ok.mp hid⟩, (workNodes_isOk plan).mp ⟨work, hwork⟩⟩
  · rintro ⟨⟨id, hid⟩, hfits⟩
    obtain rfl := validateIdentifier_id hid
    obtain ⟨work, hwork⟩ := (workNodes_isOk plan).mpr hfits
    obtain ⟨ws, hworked⟩ := workNodes_eq_ok hwork
    refine ⟨⟨id, managedNodes work⟩, ?_⟩
    rw [compileGraph, mapError_eq_ok.mpr hid, ok_bind, hwork, ok_bind]
    exact (build_managedNodes hid hworked).1
  · intro graph h
    obtain ⟨id, hid, h⟩ := bind_eq_ok h
    obtain ⟨work, hwork, hbuild⟩ := bind_eq_ok h
    obtain ⟨ws, hworked⟩ := workNodes_eq_ok hwork
    have hissue := mapError_eq_ok.mp hid
    obtain rfl := validateIdentifier_id hissue
    obtain ⟨hbuilt, hwaves⟩ := build_managedNodes hissue hworked
    cases hbuilt.symm.trans hbuild
    refine ⟨rfl, ⟨work, ws, hwork, hworked.layered, rfl, hwaves⟩, ?_⟩
    rw [ManagedGraph.forkCandidates, hwaves, ← hworked.forks]
    exact forkGroups_managed ws _ _

/-- Two tasks that may go side by side, and one behind them. -/
def forkedPlan : Plan where
  files := ["a.py", "b.py"]
  steps := []
  tests := []
  work :=
    [ { id := "a", title := "A", dependsOn := [], files := ["a.py"], tests := [],
        parallelSafe := true },
      { id := "b", title := "B", dependsOn := [], files := ["b.py"], tests := [],
        parallelSafe := true },
      { id := "c", title := "C", dependsOn := ["a", "b"], files := [], tests := [],
        parallelSafe := true } ]
  bounded := by decide
  tasks := by decide
  declared := by decide
  layered := ⟨_, rfl⟩

theorem compileGraph_keeps_waves_forked :
    ∃ graph, compileGraph "issue-7".toList forkedPlan = .ok graph ∧
      graph.forkCandidates = [["work:a", "work:b"]] := by
  obtain ⟨hok, hkeeps⟩ := compileGraph_keeps_waves "issue-7".toList forkedPlan
  obtain ⟨graph, hgraph⟩ := hok.mpr ⟨⟨_, rfl⟩, fun h => absurd h (List.cons_ne_nil _ _)⟩
  refine ⟨graph, hgraph, ?_⟩
  rw [(hkeeps graph hgraph).2.2]
  decide

end Work
end SwFactory
