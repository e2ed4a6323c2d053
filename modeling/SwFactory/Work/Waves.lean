import SwFactory.Machine.Chains
import SwFactory.Machine.Fallible
import SwFactory.Work.Graph
import Mathlib.Order.Bounds.Basic

/-!
# Topological waves

`waves` accepts a plan exactly when its ids are unique, its dependencies are
listed and its dependency graph has no cycle.  The wave of a node is then as
far down as its longest chain of dependencies is long.
-/

namespace SwFactory
namespace Work

open Machine

/-- The node with the first id names the second one as a dependency. -/
def DependsOn (ordered : List WorkNode) (i d : String) : Prop :=
  ∃ node ∈ ordered, node.id = i ∧ d ∈ node.dependsOn

/-- Every dependency names a listed node. -/
def Listed (ordered : List WorkNode) : Prop :=
  ∀ node ∈ ordered, ∀ d ∈ node.dependsOn, d ∈ ordered.map (·.id)

section Layers

variable {ordered : List WorkNode}

theorem DependsOn.mem (hlisted : Listed ordered) {i d : String}
    (h : DependsOn ordered i d) : d ∈ ordered.map (·.id) := by
  obtain ⟨node, hnode, -, hd⟩ := h
  exact hlisted node hnode d hd

/-- In a plan with unique ids, a node has the dependencies of its id. -/
theorem DependsOn.of_node (hnodup : (ordered.map (·.id)).Nodup) {node : WorkNode} {d : String}
    (hnode : node ∈ ordered) (h : DependsOn ordered node.id d) : d ∈ node.dependsOn := by
  obtain ⟨node', hnode', hid, hd⟩ := h
  rwa [← List.inj_on_of_nodup_map hnodup hnode' hnode hid]

/--
What the loop knows before the turn that fills the wave `index`: the ids that
are done have no chain as long as the index, and the others have one.
-/
structure Frontier (ordered : List WorkNode) (done remaining : List String)
    (index : Nat) : Prop where
  listed : ∀ i ∈ remaining, i ∈ ordered.map (·.id)
  split : ∀ i ∈ ordered.map (·.id), i ∈ remaining ↔ i ∉ done
  below : ∀ i ∈ done, ∀ k, Descent (DependsOn ordered) i k → k < index
  above : ∀ i ∈ remaining, Descent (DependsOn ordered) i index

/-- At the start nothing is done. -/
theorem Frontier.initial : Frontier ordered [] (ordered.map (·.id)) 0 where
  listed := fun _ hi => hi
  split := fun _ hi => ⟨fun _ => List.not_mem_nil, fun _ => hi⟩
  below := fun _ hi => absurd hi List.not_mem_nil
  above := fun i _ => .here i

variable {done remaining : List String} {index : Nat}

/-- The ids of the ready nodes, and what is left without them. -/
abbrev readyIds (ordered : List WorkNode) (done remaining : List String) : List String :=
  (ready ordered done remaining).map (·.id)

abbrev waiting (ordered : List WorkNode) (done remaining : List String) : List String :=
  remaining.filter fun i => decide (i ∉ readyIds ordered done remaining)

/-- A ready node has no chain longer than the index. -/
theorem Frontier.ready_le (hnodup : (ordered.map (·.id)).Nodup)
    (h : Frontier ordered done remaining index)
    {node : WorkNode} (hnode : node ∈ ready ordered done remaining)
    {k : Nat} (hk : Descent (DependsOn ordered) node.id k) : k ≤ index := by
  obtain ⟨hmem, -, hdone⟩ := mem_ready.mp hnode
  cases hk with
  | here => exact Nat.zero_le _
  | step hd hrest => exact h.below _ (hdone _ (hd.of_node hnodup hmem)) _ hrest

/-- A node that is not ready waits for one that remains. -/
theorem Frontier.waits (hlisted : Listed ordered)
    (h : Frontier ordered done remaining index)
    {i : String} (hi : i ∈ waiting ordered done remaining) :
    ∃ d ∈ remaining, DependsOn ordered i d := by
  simp only [List.mem_filter, decide_eq_true_eq] at hi
  obtain ⟨hremaining, hnot⟩ := hi
  obtain ⟨node, hnode, rfl⟩ := List.mem_map.mp (h.listed i hremaining)
  have hexists : ∃ d ∈ node.dependsOn, d ∉ done := by
    by_contra hall
    push Not at hall
    exact hnot (List.mem_map_of_mem (mem_ready.mpr ⟨hnode, hremaining, hall⟩))
  obtain ⟨d, hd, hdone⟩ := hexists
  exact ⟨d, (h.split d (hlisted node hnode d hd)).mpr hdone, node, hnode, rfl, hd⟩

/-- **One turn of the loop.** -/
theorem Frontier.step (hnodup : (ordered.map (·.id)).Nodup) (hlisted : Listed ordered)
    (h : Frontier ordered done remaining index) :
    Frontier ordered (done ++ readyIds ordered done remaining)
      (waiting ordered done remaining) (index + 1) where
  listed := fun i hi => h.listed i (List.mem_of_mem_filter hi)
  split := by
    intro i hi
    simp only [List.mem_filter, decide_eq_true_eq, List.mem_append, not_or, h.split i hi]
  below := by
    intro i hi k hk
    rcases List.mem_append.mp hi with hi | hi
    · exact Nat.lt_succ_of_lt (h.below i hi k hk)
    · obtain ⟨node, hnode, rfl⟩ := List.mem_map.mp hi
      exact Nat.lt_succ_of_le (h.ready_le hnodup hnode hk)
  above := by
    intro i hi
    obtain ⟨d, hd, hdepends⟩ := h.waits hlisted hi
    exact .step hdepends (h.above d hd)

/-- A turn leaves fewer ids than it finds, if a node is ready. -/
theorem waiting_length_lt (hready : ready ordered done remaining ≠ []) :
    (waiting ordered done remaining).length < remaining.length := by
  obtain ⟨node, hnode⟩ := List.exists_mem_of_ne_nil _ hready
  have hid : node.id ∈ readyIds ordered done remaining := List.mem_map_of_mem hnode
  exact List.length_filter_lt_length_iff_exists.mpr
    ⟨node.id, (mem_ready.mp hnode).2.1, by simpa using hid⟩

/-- Where no node is ready, chains of every length start at what remains. -/
theorem Frontier.stuck (hlisted : Listed ordered)
    (h : Frontier ordered done remaining index)
    (hready : ready ordered done remaining = [])
    {i : String} (hi : i ∈ remaining) (k : Nat) :
    Descent (DependsOn ordered) i k := by
  induction k generalizing i with
  | zero => exact .here i
  | succ k ih =>
      obtain ⟨d, hd, hdepends⟩ := h.waits hlisted (i := i) (by simp [hready, hi])
      exact .step hdepends (ih hd)

/-- Without a cycle, a node is ready as long as an id remains. -/
theorem Frontier.ready_ne_nil (hlisted : Listed ordered)
    (hacyclic : Acyclic (DependsOn ordered))
    (h : Frontier ordered done remaining index) (hremaining : remaining ≠ []) :
    ready ordered done remaining ≠ [] := by
  intro hready
  obtain ⟨i, hi⟩ := List.exists_mem_of_ne_nil _ hremaining
  have hlong := (h.stuck hlisted hready hi (ordered.length + 1)).length_le hacyclic
    (l := ordered.map (·.id)) (fun _ _ hd => hd.mem hlisted)
  rw [List.length_map] at hlong
  omega

/-- With fuel for what remains, the loop ends well. -/
theorem Frontier.layers_ok (hnodup : (ordered.map (·.id)).Nodup) (hlisted : Listed ordered)
    (hacyclic : Acyclic (DependsOn ordered))
    {fuel : Nat}
    (hfuel : remaining.length ≤ fuel)
    (h : Frontier ordered done remaining index) :
    ∃ ws, layers ordered fuel done remaining index = .ok ws := by
  induction fuel generalizing done remaining index with
  | zero => exact ⟨[], rfl⟩
  | succ fuel ih =>
      rw [layers]
      split
      · exact ⟨[], rfl⟩
      · next hremaining =>
          have hready := h.ready_ne_nil hlisted hacyclic hremaining
          have hshorter := waiting_length_lt hready
          obtain ⟨rest, hrest⟩ := ih (by omega) (h.step hnodup hlisted)
          refine ⟨⟨index, ready ordered done remaining⟩ :: rest, ?_⟩
          rw [if_neg hready]
          exact congrArg (· >>= _) hrest

/-- The wave carries its place, and its nodes have chains exactly that long. -/
def InPlace (ordered : List WorkNode) (index : Nat) (wave : WorkWave) : Prop :=
  wave.index = index ∧ wave.nodes.Sublist ordered ∧
    ∀ node ∈ wave.nodes, IsGreatest {k | Descent (DependsOn ordered) node.id k} index

/-- **Every turn of the loop** fills a wave with nodes that belong there. -/
theorem Frontier.layers_inPlace (hnodup : (ordered.map (·.id)).Nodup)
    (hlisted : Listed ordered)
    {fuel : Nat}
    (h : Frontier ordered done remaining index)
    {ws : List WorkWave}
    (hws : layers ordered fuel done remaining index = .ok ws)
    {j : Nat} {wave : WorkWave}
    (hwave : ws[j]? = some wave) :
    InPlace ordered (index + j) wave := by
  induction fuel generalizing done remaining index ws j with
  | zero =>
      cases hws
      cases hwave
  | succ fuel ih =>
      rw [layers] at hws
      split at hws
      · cases hws
        cases hwave
      · dsimp only at hws
        split at hws
        · cases hws
        · obtain ⟨rest, hrest, hcons⟩ := bind_eq_ok hws
          cases hcons
          cases j with
          | zero =>
              cases hwave
              refine ⟨rfl, List.filter_sublist, fun node hnode => ⟨?_, fun k hk => ?_⟩⟩
              · exact h.above _ (mem_ready.mp hnode).2.1
              · exact h.ready_le hnodup hnode hk
          | succ j =>
              have := ih (h.step hnodup hlisted) hrest hwave
              rwa [show index + 1 + j = index + (j + 1) by omega] at this

/-- In a plan with unique ids, a node is ready when its id is. -/
theorem mem_readyIds (hnodup : (ordered.map (·.id)).Nodup) {node : WorkNode}
    (hnode : node ∈ ordered) :
    node.id ∈ readyIds ordered done remaining ↔ node ∈ ready ordered done remaining := by
  refine ⟨fun h => ?_, List.mem_map_of_mem⟩
  obtain ⟨node', hnode', hid⟩ := List.mem_map.mp h
  rwa [← List.inj_on_of_nodup_map hnodup (mem_ready.mp hnode').1 hnode hid]

/-- The remaining nodes are the ready ones and those that wait. -/
theorem ready_append_waiting (hnodup : (ordered.map (·.id)).Nodup) :
    (ready ordered done remaining ++
      ordered.filter fun n => decide (n.id ∈ waiting ordered done remaining)).Perm
      (ordered.filter fun n => decide (n.id ∈ remaining)) := by
  let left : WorkNode → Bool := fun n => decide (n.id ∈ remaining)
  let met : WorkNode → Bool := fun n => n.dependsOn.all fun d => decide (d ∈ done)
  have hready : ready ordered done remaining = (ordered.filter left).filter met := by
    rw [List.filter_filter]
    exact List.filter_congr fun n _ => Bool.and_comm _ _
  have hwaiting : (ordered.filter fun n => decide (n.id ∈ waiting ordered done remaining)) =
      (ordered.filter left).filter (fun n => !met n) := by
    rw [List.filter_filter]
    refine List.filter_congr fun n hn => ?_
    rw [Bool.eq_iff_iff]
    simp only [decide_eq_true_eq, List.mem_filter, mem_readyIds hnodup hn, mem_ready, hn,
      true_and, Bool.and_eq_true, Bool.not_eq_true', left, met, List.all_eq_false,
      not_and, not_forall]
    constructor
    · rintro ⟨hleft, hnot⟩
      obtain ⟨d, hd, hdone⟩ := hnot hleft
      exact ⟨⟨d, hd, hdone⟩, hleft⟩
    · rintro ⟨⟨d, hd, hdone⟩, hleft⟩
      exact ⟨hleft, fun _ => ⟨d, hd, hdone⟩⟩
  rw [hready, hwaiting]
  exact List.filter_append_perm met _

/-- The waves share the remaining nodes out. -/
theorem layers_perm (hnodup : (ordered.map (·.id)).Nodup)
    {fuel : Nat} (hfuel : remaining.length ≤ fuel)
    {ws : List WorkWave}
    (hws : layers ordered fuel done remaining index = .ok ws) :
    (ws.flatMap WorkWave.nodes).Perm
      (ordered.filter fun n => decide (n.id ∈ remaining)) := by
  induction fuel generalizing done remaining index ws with
  | zero =>
      obtain rfl : remaining = [] := List.length_eq_zero_iff.mp (by omega)
      cases hws
      simp
  | succ fuel ih =>
      rw [layers] at hws
      split at hws
      · next hremaining =>
          cases hws
          simp [hremaining]
      · dsimp only at hws
        split at hws
        · cases hws
        · next hready =>
            obtain ⟨rest, hrest, hcons⟩ := bind_eq_ok hws
            cases hcons
            have hshorter : (waiting ordered done remaining).length < remaining.length :=
              waiting_length_lt hready
            have hperm := ih (Nat.le_of_lt_succ (lt_of_lt_of_le hshorter hfuel)) hrest
            rw [List.flatMap_cons]
            exact (hperm.append_left _).trans (ready_append_waiting hnodup)

end Layers

/-! ## The checks -/

theorem checkNode_eq_ok {ids : List String} {node : WorkNode} :
    checkNode ids node = .ok () ↔
      (∀ d ∈ node.dependsOn, d ∈ ids) ∧ node.id ∉ node.dependsOn := by
  have hmissing : node.dependsOn.filter (fun d => decide (d ∉ ids)) = [] ↔
      ∀ d ∈ node.dependsOn, d ∈ ids := by
    simp [List.filter_eq_nil_iff]
  unfold checkNode
  dsimp only
  split
  · next h =>
      exact ⟨(by rintro ⟨⟩), fun hok => absurd (hmissing.mpr hok.1) h⟩
  · next h =>
      have hall := hmissing.mp (not_not.mp h)
      split
      · next hself => exact ⟨(by rintro ⟨⟩), fun hok => absurd hself hok.2⟩
      · next hself => exact ⟨fun _ => ⟨hall, hself⟩, fun _ => rfl⟩

/-- What `waves` asks of a plan. -/
structure WellFormed (ordered : List WorkNode) : Prop where
  unique : (ordered.map (·.id)).Nodup
  listed : Listed ordered
  acyclic : Acyclic (DependsOn ordered)

theorem WellFormed.waves_ok {ordered : List WorkNode} (h : WellFormed ordered) :
    ∃ ws, waves ordered = .ok ws := by
  have hchecks : ordered.forM (checkNode (ordered.map (·.id))) = .ok ⟨⟩ := by
    refine forM_eq_ok.mpr fun node hnode => checkNode_eq_ok.mpr ⟨h.listed node hnode, ?_⟩
    exact fun hself => h.acyclic node.id (.single ⟨node, hnode, rfl, hself⟩)
  obtain ⟨ws, hws⟩ := Frontier.initial.layers_ok h.unique h.listed h.acyclic
    (List.length_map _).le
  refine ⟨ws, ?_⟩
  rw [waves]
  simp only [not_not.mpr h.unique, if_false]
  rw [hchecks]
  exact hws

/-- What an accepted plan went through. -/
theorem waves_eq_ok {ordered : List WorkNode} {ws : List WorkWave}
    (h : waves ordered = .ok ws) :
    (ordered.map (·.id)).Nodup ∧ Listed ordered ∧
      layers ordered ordered.length [] (ordered.map (·.id)) 0 = .ok ws := by
  have hnodup := waves_nodup h
  rw [waves, if_neg (not_not.mpr hnodup)] at h
  obtain ⟨u, hchecks, hlayers⟩ := bind_eq_ok h
  exact ⟨hnodup, fun node hnode => (checkNode_eq_ok.mp (forM_eq_ok.mp hchecks node hnode)).1,
    hlayers⟩

/-- The node that carries an id of the plan stands in a wave. -/
theorem exists_inPlace {ordered : List WorkNode} {ws : List WorkWave}
    (h : waves ordered = .ok ws) {node : WorkNode} (hnode : node ∈ ordered) :
    ∃ j wave, ws[j]? = some wave ∧ node ∈ wave.nodes ∧ InPlace ordered j wave := by
  obtain ⟨hnodup, hlisted, hlayers⟩ := waves_eq_ok h
  obtain ⟨wave, hwave, hid⟩ := waves_covers h node hnode
  obtain ⟨node', hnode', heq⟩ := List.mem_map.mp hid
  have hsame := List.inj_on_of_nodup_map hnodup (waves_mem h wave hwave node' hnode') hnode heq
  obtain ⟨j, hj⟩ := List.getElem?_of_mem hwave
  have hplace := Frontier.initial.layers_inPlace hnodup hlisted hlayers hj
  rw [Nat.zero_add] at hplace
  exact ⟨j, wave, hj, hsame ▸ hnode', hplace⟩

theorem wellFormed_of_waves {ordered : List WorkNode} {ws : List WorkWave}
    (h : waves ordered = .ok ws) : WellFormed ordered := by
  obtain ⟨hnodup, hlisted, -⟩ := waves_eq_ok h
  refine ⟨hnodup, hlisted, fun i hcycle => ?_⟩
  -- the first step of the cycle leaves a node of the plan, whose chains are bounded
  obtain ⟨d, ⟨node, hnode, rfl, -⟩, -⟩ := Relation.TransGen.head'_iff.mp hcycle
  obtain ⟨j, wave, -, hmem, -, -, hgreatest⟩ := exists_inPlace h hnode
  have := (hgreatest node hmem).2 (Descent.of_cycle hcycle (j + 1))
  omega

/-! ## The law of the waves -/

/-- A dependency starts a chain that is shorter by one. -/
theorem isGreatest_dependency {ordered : List WorkNode} {node : WorkNode} {d : String}
    {i j : Nat} (hnode : node ∈ ordered) (hd : d ∈ node.dependsOn)
    (hi : IsGreatest {k | Descent (DependsOn ordered) node.id k} i)
    (hj : IsGreatest {k | Descent (DependsOn ordered) d k} j) : j < i := by
  have hstep : Descent (DependsOn ordered) node.id (j + 1) :=
    .step ⟨node, hnode, rfl, hd⟩ hj.1
  exact hi.2 hstep

/-- A chain takes as many steps of every order of execution. -/
theorem Descent.le_schedule {ordered : List WorkNode} {schedule : String → Nat}
    (hschedule : ∀ i d, DependsOn ordered i d → schedule d < schedule i)
    {i : String} {k : Nat} (h : Descent (DependsOn ordered) i k) : k ≤ schedule i := by
  induction h with
  | here => exact Nat.zero_le _
  | step hd _ ih =>
      have := hschedule _ _ hd
      omega

/--
`waves` accepts a plan exactly when its ids are unique, its dependencies are
listed and its dependency graph has no cycle.  The waves of an accepted plan
share its nodes out, each in the order of the plan; a node stands in the wave
whose index is the length of its longest dependency chain, so behind all its
dependencies and as early as any order of execution allows.
-/
theorem waves_topological
    (ordered : List WorkNode) :
    ((∃ ws, waves ordered = .ok ws) ↔
      (ordered.map (·.id)).Nodup ∧
        (∀ node ∈ ordered, ∀ d ∈ node.dependsOn, d ∈ ordered.map (·.id)) ∧
        Acyclic (DependsOn ordered)) ∧
    ∀ ws, waves ordered = .ok ws →
      (ws.flatMap WorkWave.nodes).Perm ordered ∧
      (∀ wave ∈ ws, wave.nodes.Sublist ordered) ∧
      ∀ i wave, ws[i]? = some wave → wave.index = i ∧
        ∀ node ∈ wave.nodes,
          IsGreatest {k | Descent (DependsOn ordered) node.id k} i ∧
          (∀ d ∈ node.dependsOn, ∃ j < i, ∃ wave', ws[j]? = some wave' ∧ d ∈ wave'.ids) ∧
          ∀ schedule : String → Nat,
            (∀ x d, DependsOn ordered x d → schedule d < schedule x) →
              i ≤ schedule node.id := by
  refine ⟨⟨?_, ?_⟩, ?_⟩
  · rintro ⟨ws, h⟩
    have hwell := wellFormed_of_waves h
    exact ⟨hwell.unique, hwell.listed, hwell.acyclic⟩
  · rintro ⟨hunique, hlisted, hacyclic⟩
    exact WellFormed.waves_ok ⟨hunique, hlisted, hacyclic⟩
  intro ws h
  obtain ⟨hnodup, hlisted, hlayers⟩ := waves_eq_ok h
  have hplace : ∀ {i wave}, ws[i]? = some wave → InPlace ordered i wave := by
    intro i wave hi
    have := Frontier.initial.layers_inPlace hnodup hlisted hlayers hi
    rwa [Nat.zero_add] at this
  refine ⟨?_, ?_, ?_⟩
  · have hperm := layers_perm hnodup (by simp) hlayers
    rwa [List.filter_eq_self.mpr fun n hn => decide_eq_true (List.mem_map_of_mem hn)] at hperm
  · intro wave hwave
    obtain ⟨i, hi⟩ := List.getElem?_of_mem hwave
    exact (hplace hi).2.1
  · intro i wave hi
    obtain ⟨hindex, hsublist, hgreatest⟩ := hplace hi
    refine ⟨hindex, fun node hnode => ⟨hgreatest node hnode, fun d hd => ?_, ?_⟩⟩
    · have hmem := hsublist.subset hnode
      obtain ⟨target, htarget, rfl⟩ := List.mem_map.mp (hlisted node hmem d hd)
      obtain ⟨j, wave', hj, hin, -, -, hgreatest'⟩ := exists_inPlace h htarget
      exact ⟨j, isGreatest_dependency hmem hd (hgreatest node hnode) (hgreatest' target hin),
        wave', hj, List.mem_map_of_mem hin⟩
    · exact fun schedule hschedule =>
        Descent.le_schedule hschedule (hgreatest node hnode).1

end Work
end SwFactory
