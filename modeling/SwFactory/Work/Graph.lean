import SwFactory.Machine.Fallible
import Mathlib.Data.List.Dedup
import Mathlib.Data.List.Sort
import Mathlib.Data.String.Basic

/-!
# The work graph

A plan is a list of work nodes with their dependencies and the files each one
declares.  `waves` cuts the list into layers: the nodes of a wave depend on
earlier waves only.

Source: `workgraph.py`.
-/

namespace SwFactory
namespace Work

structure WorkNode where
  id : String
  dependsOn : List String
  files : List String
  parallelSafe : Bool
deriving DecidableEq, Repr

structure WorkWave where
  index : Nat
  nodes : List WorkNode
deriving DecidableEq, Repr

/-- The ids of the nodes of a wave, in the order of the plan. -/
def WorkWave.ids (wave : WorkWave) : List String :=
  wave.nodes.map (·.id)

/-- `WorkGraphError`, with what its message names. -/
inductive WorkGraphError
  | duplicateId
  | unknownDependencies (node : String) (missing : List String)
  | selfDependency (node : String)
  | cycle
deriving DecidableEq, Repr

/-- `sorted(set(xs))`: strings compare by their code points. -/
def sortedSet (xs : List String) : List String :=
  xs.dedup.insertionSort (· ≤ ·)

@[simp] theorem mem_sortedSet {x : String} {xs : List String} :
    x ∈ sortedSet xs ↔ x ∈ xs := by
  rw [sortedSet, (List.perm_insertionSort _ _).mem_iff, List.mem_dedup]

theorem nodup_sortedSet (xs : List String) : (sortedSet xs).Nodup :=
  (List.perm_insertionSort _ _).nodup_iff.mpr (List.nodup_dedup xs)

theorem sortedSet_eq_nil {xs : List String} :
    sortedSet xs = [] ↔ xs = [] := by
  simp only [List.eq_nil_iff_forall_not_mem, mem_sortedSet]

/-- `set(xs).intersection(ys)`, sorted. -/
def overlap (xs ys : List String) : List String :=
  sortedSet (xs.filter fun x => decide (x ∈ ys))

theorem overlap_eq_nil {xs ys : List String} :
    overlap xs ys = [] ↔ ∀ x ∈ xs, x ∉ ys := by
  simp [overlap, sortedSet_eq_nil, List.filter_eq_nil_iff]

/-- The checks `waves` makes of each node before it layers the graph. -/
def checkNode (ids : List String) (node : WorkNode) :
    Except WorkGraphError Unit :=
  let missing := node.dependsOn.filter fun d => decide (d ∉ ids)
  if missing ≠ [] then
    .error (.unknownDependencies node.id (sortedSet missing))
  else if node.id ∈ node.dependsOn then
    .error (.selfDependency node.id)
  else
    .ok ()

/-- The remaining nodes all of whose dependencies are done. -/
def ready (ordered : List WorkNode) (done remaining : List String) :
    List WorkNode :=
  ordered.filter fun n =>
    decide (n.id ∈ remaining) && n.dependsOn.all fun d => decide (d ∈ done)

/--
The `while remaining` loop of `waves`.  Each turn takes a node from `remaining`,
so its length is fuel enough.
-/
def layers (ordered : List WorkNode) :
    Nat → List String → List String → Nat →
      Except WorkGraphError (List WorkWave)
  | 0, _, _, _ => .ok []
  | fuel + 1, done, remaining, index =>
      if remaining = [] then
        .ok []
      else
        let nodes := ready ordered done remaining
        let ids := nodes.map (·.id)
        if nodes = [] then
          .error .cycle
        else do
          let rest ← layers ordered fuel (done ++ ids)
            (remaining.filter fun i => decide (i ∉ ids)) (index + 1)
          return ⟨index, nodes⟩ :: rest

/-- `waves`. -/
def waves (ordered : List WorkNode) : Except WorkGraphError (List WorkWave) :=
  let ids := ordered.map (·.id)
  if ¬ ids.Nodup then
    .error .duplicateId
  else do
    ordered.forM (checkNode ids)
    layers ordered ordered.length [] ids 0

/-- `conflict_set`. -/
def conflictSet : List WorkNode → List (String × String × List String)
  | [] => []
  | left :: rest =>
      (rest.filterMap fun right =>
        let files := overlap left.files right.files
        if files = [] then none else some (left.id, right.id, files)) ++
      conflictSet rest

/-- `deterministic_merge_order`. -/
def deterministicMergeOrder (completed : List String) : List String :=
  sortedSet completed

/--
The waves stand in layers over `done`: the dependencies of a node are done
before its wave, and no wave holds a node that is done.
-/
def Layered (done : List String) : List WorkWave → Prop
  | [] => True
  | wave :: rest =>
      (∀ node ∈ wave.nodes, ∀ d ∈ node.dependsOn, d ∈ done) ∧
      wave.ids.Nodup ∧
      (∀ i ∈ wave.ids, i ∉ done) ∧
      Layered (done ++ wave.ids) rest

theorem mem_ready {ordered : List WorkNode} {done remaining : List String}
    {node : WorkNode} :
    node ∈ ready ordered done remaining ↔
      node ∈ ordered ∧ node.id ∈ remaining ∧
        ∀ d ∈ node.dependsOn, d ∈ done := by
  simp [ready]

theorem layers_layered
    {ordered : List WorkNode}
    (hordered : (ordered.map (·.id)).Nodup)
    {fuel index : Nat}
    {done remaining : List String}
    (hapart : ∀ i ∈ remaining, i ∉ done)
    {ws : List WorkWave}
    (h : layers ordered fuel done remaining index = .ok ws) :
    Layered done ws := by
  induction fuel generalizing done remaining index ws with
  | zero =>
      cases h
      trivial
  | succ fuel ih =>
      rw [layers] at h
      split at h
      · cases h
        trivial
      · dsimp only at h
        split at h
        · cases h
        · obtain ⟨rest, hrest, hws⟩ := Machine.bind_eq_ok h
          cases hws
          refine ⟨?_, ?_, ?_, ?_⟩
          · intro node hnode
            exact (mem_ready.mp hnode).2.2
          · exact (List.filter_sublist.map _).nodup hordered
          · intro i hi
            obtain ⟨node, hnode, rfl⟩ := List.mem_map.mp hi
            exact hapart _ (mem_ready.mp hnode).2.1
          · refine ih ?_ hrest
            intro i hi
            simp only [List.mem_filter, decide_eq_true_eq] at hi
            simp only [List.mem_append, not_or]
            exact ⟨hapart i hi.1, hi.2⟩

theorem waves_layered
    {ordered : List WorkNode}
    {ws : List WorkWave}
    (h : waves ordered = .ok ws) :
    Layered [] ws := by
  rw [waves] at h
  split at h
  · cases h
  · next hnodup =>
      obtain ⟨-, -, h⟩ := Machine.bind_eq_ok h
      exact layers_layered (not_not.mp hnodup) (by simp) h

/-- The ids of an accepted plan are distinct. -/
theorem waves_nodup
    {ordered : List WorkNode}
    {ws : List WorkWave}
    (h : waves ordered = .ok ws) :
    (ordered.map (·.id)).Nodup := by
  rw [waves] at h
  split at h
  · cases h
  · next hnodup =>
      exact not_not.mp hnodup

theorem Layered.nodup
    {done : List String}
    {ws : List WorkWave}
    (h : Layered done ws) :
    ∀ wave ∈ ws, wave.ids.Nodup := by
  induction ws generalizing done with
  | nil =>
      simp
  | cons wave rest ih =>
      obtain ⟨-, hids, -, hrest⟩ := h
      exact List.forall_mem_cons.mpr ⟨hids, ih hrest⟩

/-- The waves hold nodes of the plan only. -/
theorem layers_mem
    {ordered : List WorkNode}
    {fuel index : Nat}
    {done remaining : List String}
    {ws : List WorkWave}
    (h : layers ordered fuel done remaining index = .ok ws) :
    ∀ wave ∈ ws, ∀ node ∈ wave.nodes, node ∈ ordered := by
  induction fuel generalizing done remaining index ws with
  | zero =>
      cases h
      simp
  | succ fuel ih =>
      rw [layers] at h
      split at h
      · cases h
        simp
      · dsimp only at h
        split at h
        · cases h
        · obtain ⟨rest, hrest, hws⟩ := Machine.bind_eq_ok h
          cases hws
          intro wave hwave node hnode
          rcases List.mem_cons.mp hwave with rfl | hwave
          · exact (mem_ready.mp hnode).1
          · exact ih hrest wave hwave node hnode

theorem waves_mem
    {ordered : List WorkNode}
    {ws : List WorkWave}
    (h : waves ordered = .ok ws) :
    ∀ wave ∈ ws, ∀ node ∈ wave.nodes, node ∈ ordered := by
  rw [waves] at h
  split at h
  · cases h
  · obtain ⟨-, -, h⟩ := Machine.bind_eq_ok h
    exact layers_mem h

/-- The fuel suffices: every remaining id comes to stand in a wave. -/
theorem layers_covers
    {ordered : List WorkNode}
    {fuel index : Nat}
    {done remaining : List String}
    (hfuel : remaining.length ≤ fuel)
    {ws : List WorkWave}
    (h : layers ordered fuel done remaining index = .ok ws) :
    ∀ i ∈ remaining, ∃ wave ∈ ws, i ∈ wave.ids := by
  induction fuel generalizing done remaining index ws with
  | zero =>
      intro i hi
      have := List.length_pos_of_mem hi
      omega
  | succ fuel ih =>
      intro i hi
      rw [layers] at h
      split at h
      · next hempty =>
          simp [hempty] at hi
      · dsimp only at h
        split at h
        · cases h
        · next hready =>
            obtain ⟨rest, hrest, hws⟩ := Machine.bind_eq_ok h
            cases hws
            by_cases hi' : i ∈ (ready ordered done remaining).map (·.id)
            · exact ⟨_, List.mem_cons_self, hi'⟩
            · -- a ready node leaves `remaining`, so the fuel still suffices
              obtain ⟨node, hnode⟩ := List.exists_mem_of_ne_nil _ hready
              have hid : node.id ∈ (ready ordered done remaining).map (·.id) :=
                List.mem_map_of_mem hnode
              have hshorter : (remaining.filter fun i =>
                  decide (i ∉ (ready ordered done remaining).map (·.id))).length <
                    remaining.length :=
                List.length_filter_lt_length_iff_exists.mpr
                  ⟨node.id, (mem_ready.mp hnode).2.1, by simpa using hid⟩
              obtain ⟨wave, hwave, hmem⟩ :=
                ih (by omega) hrest i (by simpa [hi] using hi')
              exact ⟨wave, List.mem_cons_of_mem _ hwave, hmem⟩

/-- An accepted plan has every node in a wave. -/
theorem waves_covers
    {ordered : List WorkNode}
    {ws : List WorkWave}
    (h : waves ordered = .ok ws) :
    ∀ node ∈ ordered, ∃ wave ∈ ws, node.id ∈ wave.ids := by
  intro node hnode
  rw [waves] at h
  split at h
  · cases h
  · obtain ⟨-, -, h⟩ := Machine.bind_eq_ok h
    exact layers_covers (by simp) h node.id (List.mem_map_of_mem hnode)

end Work
end SwFactory
