import SwFactory.Machine.Chains
import SwFactory.Work.Executor
import SwFactory.Work.Gathering
import Mathlib.Data.List.Pairwise

/-!
# Fan-in is a dependency-closed chain

The merges of a run form a chain from the input head.  A node is merged once,
after everything it depends on, and only with a result that was checked against
the head its wave started from, its plan, the protected paths and the other
nodes of its wave.  This holds of every run, at whatever moment it is cut.
-/

namespace SwFactory
namespace Work

/-- The receipts lead from one head to another. -/
def Linked (start : String) (merges : List MergeReceipt) (last : String) : Prop :=
  Machine.Linked MergeReceipt.targetBefore MergeReceipt.targetAfter start merges
    last

theorem Linked.append {start middle : String} {ms : List MergeReceipt}
    {m : MergeReceipt}
    (h : Linked start ms middle)
    (hm : m.targetBefore = middle) :
    Linked start (ms ++ [m]) m.targetAfter :=
  Machine.linked_concat.mpr ⟨hm ▸ h, rfl⟩

/-- The ids of the nodes of some waves. -/
def nodeIds (ws : List WorkWave) : List String :=
  ws.flatMap WorkWave.ids

/-- Two results touch no file in common. -/
def Apart (left right : NodeResult) : Prop :=
  ∀ f ∈ left.touchedFiles, f ∉ right.touchedFiles

instance : Std.Symm Apart where
  symm _ _ h f hright hleft := h f hleft hright

/-- A result of a wave that started from `head`, fit to be merged. -/
structure Mergeable (policy : ExecutorPolicy)
    (resultOf : String → Option NodeResult) (wave : WorkWave) (head : String)
    (node : WorkNode) (result : NodeResult) : Prop where
  ok : result.state = .ok
  base : result.inputHead = head
  declared : ∀ f ∈ result.touchedFiles, f ∈ node.files
  unguarded : ∀ f ∈ result.touchedFiles, f ∉ policy.protectedPaths
  apart : ∀ other ∈ wave.nodes, other.id ≠ node.id →
    ∃ result', resultOf other.id = some result' ∧ Apart result result'

/--
The merge `m` was sound when the merges `pre` stood before it: they are those of
all earlier waves, which led to the head the wave of `m` started from, and of
other nodes of that wave.
-/
def Sanctioned (policy : ExecutorPolicy) (ws : List WorkWave)
    (inputHead : String) (resultOf : String → Option NodeResult)
    (pre : List MergeReceipt) (m : MergeReceipt) : Prop :=
  ∃ before wave after base inWave head node result,
    ws = before ++ wave :: after ∧
    pre = base ++ inWave ∧
    (∀ i, i ∈ base.map (·.nodeId) ↔ i ∈ nodeIds before) ∧
    (∀ x ∈ inWave, x.nodeId ∈ wave.ids) ∧
    Linked inputHead base head ∧
    node ∈ wave.nodes ∧
    node.id = m.nodeId ∧
    (∀ d ∈ node.dependsOn, d ∈ pre.map (·.nodeId)) ∧
    resultOf node.id = some result ∧
    Mergeable policy resultOf wave head node result

/-- The merges are a chain, dependency-closed, of results that were checked. -/
structure FanInClosed (policy : ExecutorPolicy) (ws : List WorkWave)
    (inputHead : String) (resultOf : String → Option NodeResult)
    (merges : List MergeReceipt) (finalHead : String) : Prop where
  chain : Linked inputHead merges finalHead
  once : (merges.map (·.nodeId)).Nodup
  sanctioned : ∀ pre m post, merges = pre ++ m :: post →
    Sanctioned policy ws inputHead resultOf pre m

section Closed

variable {policy : ExecutorPolicy} {ws : List WorkWave} {inputHead : String}
variable {resultOf resultOf' : String → Option NodeResult}

theorem Mergeable.mono
    {wave : WorkWave} {head : String} {node : WorkNode} {result : NodeResult}
    (hmono : ∀ i r, resultOf i = some r → resultOf' i = some r)
    (h : Mergeable policy resultOf wave head node result) :
    Mergeable policy resultOf' wave head node result where
  ok := h.ok
  base := h.base
  declared := h.declared
  unguarded := h.unguarded
  apart other hother hne := by
    obtain ⟨result', hresult', hapart⟩ := h.apart other hother hne
    exact ⟨result', hmono _ _ hresult', hapart⟩

/-- Further results leave the merges sound. -/
theorem FanInClosed.mono
    {merges : List MergeReceipt} {finalHead : String}
    (hmono : ∀ i r, resultOf i = some r → resultOf' i = some r)
    (h : FanInClosed policy ws inputHead resultOf merges finalHead) :
    FanInClosed policy ws inputHead resultOf' merges finalHead where
  chain := h.chain
  once := h.once
  sanctioned pre m post hsplit := by
    obtain ⟨before, wave, after, base, inWave, head, node, result, hws, hpre,
      hbase, hin, hlinked, hnode, hid, hdeps, hresult, hfit⟩ :=
      h.sanctioned pre m post hsplit
    exact ⟨before, wave, after, base, inWave, head, node, result, hws, hpre,
      hbase, hin, hlinked, hnode, hid, hdeps, hmono _ _ hresult,
      hfit.mono hmono⟩

/-- A sound merge of a node that was not merged yet extends the chain. -/
theorem FanInClosed.append
    {merges : List MergeReceipt} {head : String} {m : MergeReceipt}
    (h : FanInClosed policy ws inputHead resultOf merges head)
    (hbefore : m.targetBefore = head)
    (hnew : m.nodeId ∉ merges.map (·.nodeId))
    (hm : Sanctioned policy ws inputHead resultOf merges m) :
    FanInClosed policy ws inputHead resultOf (merges ++ [m]) m.targetAfter where
  chain := h.chain.append hbefore
  once := by
    rw [List.map_append, List.map_singleton, ← List.concat_eq_append]
    exact List.Nodup.concat hnew h.once
  sanctioned pre x post hsplit := by
    rcases List.eq_nil_or_concat post with rfl | ⟨post', last, rfl⟩
    · obtain ⟨rfl, hlast⟩ := List.append_inj' hsplit rfl
      cases hlast
      exact hm
    · have hsplit' : merges ++ [m] = (pre ++ x :: post') ++ [last] := by
        simpa using hsplit
      obtain ⟨hmerges, -⟩ := List.append_inj' hsplit' rfl
      exact h.sanctioned pre x post' hmerges

end Closed

/-! ## The checks before the merges of a wave -/

theorem candidateConflicts_eq_nil
    {policy : ExecutorPolicy} {expected : String}
    {node : WorkNode} {result : NodeResult}
    (h : candidateConflicts policy expected node result = []) :
    result.inputHead = expected ∧
      (∀ f ∈ result.touchedFiles, f ∈ node.files) ∧
      (∀ f ∈ result.touchedFiles, f ∉ policy.protectedPaths) := by
  simp only [candidateConflicts, List.append_eq_nil_iff] at h
  obtain ⟨⟨hbase, hplan⟩, hpolicy⟩ := h
  refine ⟨?_, ?_, ?_⟩
  · by_contra hne
    simp [hne] at hbase
  · by_contra hne
    have hfiles : sortedSet
        (result.touchedFiles.filter fun f => decide (f ∉ node.files)) ≠ [] := by
      simpa [sortedSet_eq_nil, List.filter_eq_nil_iff] using hne
    rw [if_pos hfiles] at hplan
    cases hplan
  · by_contra hne
    have hfiles : overlap result.touchedFiles policy.protectedPaths ≠ [] :=
      fun hnil => hne (overlap_eq_nil.mp hnil)
    simp [hfiles] at hpolicy

theorem overlapConflicts_eq_nil
    {results : List NodeResult}
    (h : overlapConflicts results = []) :
    results.Pairwise Apart := by
  induction results with
  | nil =>
      exact List.Pairwise.nil
  | cons left rest ih =>
      rw [overlapConflicts, List.append_eq_nil_iff] at h
      refine List.Pairwise.cons ?_ (ih h.2)
      intro right hright
      have hnone := List.filterMap_eq_nil_iff.mp h.1 right hright
      by_contra hne
      have hfiles : overlap left.touchedFiles right.touchedFiles ≠ [] :=
        fun hnil => hne (overlap_eq_nil.mp hnil)
      simp [hfiles] at hnone

/-- A wave without conflicts has a mergeable result for each of its nodes. -/
theorem mergeable_of_premerge
    {policy : ExecutorPolicy} {wave : WorkWave} {results : List NodeResult}
    {expected : String} (resultOf : String → Option NodeResult)
    (hids : results.map (·.nodeId) = wave.ids)
    (hnodup : wave.ids.Nodup)
    (hok : ∀ r ∈ results, r.state = .ok)
    (hof : ∀ r ∈ results, resultOf r.nodeId = some r)
    (h : premergeConflicts policy wave.nodes results expected = .ok []) :
    ∀ node ∈ wave.nodes, ∃ result, resultOf node.id = some result ∧
      Mergeable policy resultOf wave expected node result := by
  have hresult : ∀ node ∈ wave.nodes, ∃ r ∈ results, r.nodeId = node.id := by
    intro node hnode
    have hmem : node.id ∈ results.map (·.nodeId) := by
      rw [hids]
      exact List.mem_map_of_mem hnode
    exact List.mem_map.mp hmem
  obtain ⟨found, hfound, hnil⟩ := Machine.bind_eq_ok h
  obtain ⟨hflat, hoverlap⟩ := List.append_eq_nil_iff.mp (Except.ok.inj hnil)
  intro node hnode
  obtain ⟨r, hr, hid⟩ := hresult node hnode
  obtain ⟨receipts, hreceipts, hcandidate⟩ :=
    Machine.exists_of_mapM_eq_ok hfound hr
  obtain rfl : receipts = [] := List.flatten_eq_nil_iff.mp hflat _ hreceipts
  split at hcandidate
  · next node' hfind =>
      -- ids are distinct, so the node that was looked up is this one
      have hid' : node'.id = r.nodeId := by
        simpa using List.find?_some hfind
      obtain rfl : node' = node :=
        List.inj_on_of_nodup_map hnodup (List.mem_of_find?_eq_some hfind) hnode
          (hid'.trans hid)
      obtain ⟨hbase, hdeclared, hunguarded⟩ :=
        candidateConflicts_eq_nil (Except.ok.inj hcandidate)
      refine ⟨r, hid ▸ hof r hr, hok r hr, hbase, hdeclared, hunguarded, ?_⟩
      intro other hother hne
      obtain ⟨r', hr', hid''⟩ := hresult other hother
      refine ⟨r', hid'' ▸ hof r' hr', ?_⟩
      refine (overlapConflicts_eq_nil hoverlap).forall hr hr' ?_
      rintro rfl
      exact hne (hid''.symm.trans hid)
  · cases hcandidate

/-! ## The merges of a wave -/

/-- What the run is, and what it has merged, while a wave is merged. -/
structure InWave (policy : ExecutorPolicy) (ws : List WorkWave)
    (inputHead : String) (before : List WorkWave) (wave : WorkWave)
    (base : List MergeReceipt) (head : String) (run : Run) : Prop where
  split : ∃ after, ws = before ++ wave :: after
  layer : ∀ node ∈ wave.nodes, ∀ d ∈ node.dependsOn, d ∈ nodeIds before
  apart : ∀ i ∈ wave.ids, i ∉ nodeIds before
  based : ∀ i, i ∈ base.map (·.nodeId) ↔ i ∈ nodeIds before
  linked : Linked inputHead base head
  keyed : ∀ e ∈ run.results, e.2.nodeId = e.1
  fit : ∀ node ∈ wave.nodes, ∃ result,
    run.results.lookup node.id = some result ∧
      Mergeable policy (fun i => run.results.lookup i) wave head node result
  closed : FanInClosed policy ws inputHead (fun i => run.results.lookup i)
    run.merges run.targetHead
  inWave : ∃ rest, run.merges = base ++ rest ∧ ∀ x ∈ rest, x.nodeId ∈ wave.ids

theorem validateMerge_eq_ok
    {receipt : MergeReceipt} {result : NodeResult} {targetHead : String}
    (h : validateMerge receipt result targetHead = .ok ()) :
    receipt.nodeId = result.nodeId ∧ receipt.targetBefore = targetHead := by
  unfold validateMerge at h
  split at h
  · cases h
  · next hmatch =>
      split at h
      · cases h
      · next hbefore =>
          exact ⟨not_not.mp (not_or.mp hmatch).1, not_not.mp hbefore⟩

section InWave

variable {policy : ExecutorPolicy} {ws : List WorkWave} {inputHead : String}
variable {before : List WorkWave} {wave : WorkWave}
variable {base : List MergeReceipt} {head : String} {run : Run}

theorem InWave.clock (h : InWave policy ws inputHead before wave base head run)
    (c : Clock) :
    InWave policy ws inputHead before wave base head { run with clock := c } :=
  { h with }

/-- One validated merge of a node of the wave. -/
theorem InWave.merge
    (h : InWave policy ws inputHead before wave base head run)
    {id : String} {result : NodeResult} {receipt : MergeReceipt}
    (hid : id ∈ wave.ids)
    (hnew : id ∉ run.merges.map (·.nodeId))
    (hresult : run.results.lookup id = some result)
    (hvalid : validateMerge receipt result run.targetHead = .ok ()) (c : Clock) :
    receipt.nodeId = id ∧
      InWave policy ws inputHead before wave base head
        { run with
          clock := c
          merges := run.merges ++ [receipt]
          targetHead := receipt.targetAfter } := by
  obtain ⟨hnode, hbefore⟩ := validateMerge_eq_ok hvalid
  have hkey : receipt.nodeId = id :=
    hnode.trans (h.keyed _ (mem_of_lookup hresult))
  obtain ⟨node, hmem, rfl⟩ := List.mem_map.mp hid
  obtain ⟨after, hsplit⟩ := h.split
  obtain ⟨rest, hmerges, hrest⟩ := h.inWave
  obtain ⟨result', hlookup, hfit⟩ := h.fit node hmem
  have hsanctioned : Sanctioned policy ws inputHead
      (fun i => run.results.lookup i) run.merges receipt := by
    refine ⟨before, wave, after, base, rest, head, node, result', hsplit, hmerges,
      h.based, hrest, h.linked, hmem, hkey.symm, ?_, hlookup, hfit⟩
    intro d hd
    rw [hmerges, List.map_append]
    exact List.mem_append_left _ ((h.based d).mpr (h.layer node hmem d hd))
  refine ⟨hkey, { h with closed := ?_, inWave := ?_ }⟩
  · exact h.closed.append hbefore (hkey ▸ hnew) hsanctioned
  · refine ⟨rest ++ [receipt], by simp [hmerges], ?_⟩
    intro x hx
    rcases List.mem_append.mp hx with hx | hx
    · exact hrest x hx
    · rw [List.mem_singleton.mp hx, hkey]
      exact hid

/-- The merge loop keeps the chain closed wherever it is cut. -/
theorem mergeAll_spec (w : World)
    (h : InWave policy ws inputHead before wave base head run)
    {todo : List String}
    (hnodup : todo.Nodup)
    (hsub : ∀ i ∈ todo, i ∈ wave.ids)
    (hnew : ∀ i ∈ todo, i ∉ run.merges.map (·.nodeId)) :
    InWave policy ws inputHead before wave base head (mergeAll w todo run).1 ∧
      (∀ m ∈ run.merges, m ∈ (mergeAll w todo run).1.merges) ∧
      (mergeAll w todo run).1.results = run.results ∧
      ((mergeAll w todo run).2 = .next →
        (mergeAll w todo run).1.clock.cancelled = false →
        ∀ i ∈ todo, i ∈ (mergeAll w todo run).1.merges.map (·.nodeId)) := by
  induction todo generalizing run with
  | nil =>
      exact ⟨h, fun m hm => hm, rfl, by simp⟩
  | cons id rest ih =>
      have hpolled := h.clock (w.poll run.clock)
      rw [mergeAll]
      split
      · next hflag =>
          refine ⟨hpolled, fun m hm => hm, rfl, fun _ hfalse => ?_⟩
          rw [hflag] at hfalse
          cases hfalse
      · split
        · exact ⟨hpolled, fun m hm => hm, rfl, by simp⟩
        · next result hlookup =>
            have hresult : run.results.lookup id = some result := by
              unfold lookupResult at hlookup
              split at hlookup
              · next found hfound =>
                  cases hlookup
                  exact hfound
              · cases hlookup
            split
            · exact ⟨h.clock _, fun m hm => hm, rfl, by simp [Run.cancel]⟩
            · split
              · exact ⟨hpolled, fun m hm => hm, rfl, by simp⟩
              · next receipt hreceipt =>
                  split
                  · exact ⟨hpolled, fun m hm => hm, rfl, by simp⟩
                  · next hvalid =>
                      obtain ⟨hid, hmerged⟩ := h.merge
                        (hsub id List.mem_cons_self) (hnew id List.mem_cons_self)
                        hresult hvalid (w.poll run.clock).next
                      obtain ⟨hid', hnodup'⟩ := List.nodup_cons.mp hnodup
                      obtain ⟨hout, hkept, hsame, hall⟩ := ih hmerged hnodup'
                        (fun i hi => hsub i (List.mem_cons_of_mem _ hi))
                        (by
                          intro i hi hmem
                          simp only [List.map_append, List.map_singleton,
                            List.mem_append, List.mem_singleton] at hmem
                          rcases hmem with hmem | rfl
                          · exact hnew i (List.mem_cons_of_mem _ hi) hmem
                          · exact hid' (hid ▸ hi))
                      refine ⟨hout, ?_, hsame, ?_⟩
                      · exact fun m hm => hkept m (List.mem_append_left _ hm)
                      · intro hexit hflag i hi
                        rcases List.mem_cons.mp hi with rfl | hi
                        · exact List.mem_map.mpr ⟨receipt,
                            hkept receipt (by simp), hid⟩
                        · exact hall hexit hflag i hi

end InWave

/-! ## The results of a wave in the dictionary -/

theorem lookup_enter_of_not_mem
    {run : Run} {results : List NodeResult} {i : String}
    (h : i ∉ results.map (·.nodeId)) :
    (run.enter results).results.lookup i = run.results.lookup i := by
  simp only [Run.enter]
  generalize run.results = entries
  induction results generalizing entries with
  | nil =>
      rfl
  | cons r rest ih =>
      simp only [List.map_cons, List.mem_cons, not_or] at h
      have hkey : (i == r.nodeId) = false := by simpa using h.1
      rw [List.foldl_cons, ih h.2, List.lookup_cons, hkey]

theorem lookup_enter_of_mem
    {run : Run} {results : List NodeResult} {r : NodeResult}
    (hnodup : (results.map (·.nodeId)).Nodup)
    (hr : r ∈ results) :
    (run.enter results).results.lookup r.nodeId = some r := by
  induction results generalizing run with
  | nil =>
      cases hr
  | cons first rest ih =>
      obtain ⟨hfirst, hnodup⟩ := List.nodup_cons.mp hnodup
      rcases List.mem_cons.mp hr with rfl | hr
      · have hlookup : ((run.enter [r]).enter rest).results.lookup r.nodeId =
            (run.enter [r]).results.lookup r.nodeId :=
          lookup_enter_of_not_mem hfirst
        refine hlookup.trans ?_
        simp [Run.enter]
      · have hlookup :
            ((run.enter [first]).enter rest).results.lookup r.nodeId = some r :=
          ih hnodup hr
        exact hlookup

theorem mem_enter
    {run : Run} {results : List NodeResult} {e : String × NodeResult} :
    e ∈ (run.enter results).results ↔
      e ∈ run.results ∨ ∃ r ∈ results, e = (r.nodeId, r) := by
  simp only [Run.enter]
  generalize run.results = entries
  induction results generalizing entries with
  | nil =>
      simp
  | cons r rest ih =>
      rw [List.foldl_cons, ih]
      simp only [List.mem_cons, exists_eq_or_imp]
      tauto

/-! ## From wave to wave -/

/-- What holds of the run between two waves, `before` being behind it. -/
structure BetweenWaves (policy : ExecutorPolicy) (ws : List WorkWave)
    (inputHead : String) (before : List WorkWave) (run : Run) : Prop where
  closed : FanInClosed policy ws inputHead (fun i => run.results.lookup i)
    run.merges run.targetHead
  keyed : ∀ e ∈ run.results, e.2.nodeId = e.1 ∧ e.1 ∈ nodeIds before
  merged : ∀ m ∈ run.merges, m.nodeId ∈ nodeIds before
  complete : run.clock.cancelled = false →
    ∀ i ∈ nodeIds before, i ∈ run.merges.map (·.nodeId)

/-- What holds of the run wherever it is cut. -/
structure Halted (policy : ExecutorPolicy) (ws : List WorkWave)
    (inputHead : String) (run : Run) : Prop where
  closed : FanInClosed policy ws inputHead (fun i => run.results.lookup i)
    run.merges run.targetHead
  keyed : ∀ e ∈ run.results, e.2.nodeId = e.1 ∧ e.1 ∈ nodeIds ws

theorem nodeIds_append (before : List WorkWave) (wave : WorkWave) :
    nodeIds (before ++ [wave]) = nodeIds before ++ wave.ids := by
  simp [nodeIds]

section BetweenWaves

variable {w : World} {policy : ExecutorPolicy} {call : Call}
variable {ws : List WorkWave} {inputHead : String}
variable {before after : List WorkWave} {wave : WorkWave} {run : Run}

theorem BetweenWaves.halted
    (h : BetweenWaves policy ws inputHead before run)
    (hsplit : ws = before ++ after) :
    Halted policy ws inputHead run where
  closed := h.closed
  keyed e he := by
    obtain ⟨hown, hkey⟩ := h.keyed e he
    rw [hsplit, nodeIds, List.flatMap_append]
    exact ⟨hown, List.mem_append_left _ hkey⟩

theorem fanIn_spec
    (h : BetweenWaves policy ws inputHead before run)
    (hcomplete : ∀ i ∈ nodeIds before, i ∈ run.merges.map (·.nodeId))
    (hsplit : ws = before ++ wave :: after)
    (hlayer : Layered (nodeIds before) (wave :: after))
    {results : List NodeResult}
    (hresults : ∀ r ∈ results, r.nodeId ∈ wave.ids)
    (hall : run.clock.cancelled = false →
      results.map (·.nodeId) = wave.ids) :
    Halted policy ws inputHead (fanIn w policy wave results run).1 ∧
      ((fanIn w policy wave results run).2 = .next →
        BetweenWaves policy ws inputHead (before ++ [wave])
          (fanIn w policy wave results run).1) := by
  obtain ⟨hdeps, hnodup, hapart, -⟩ := hlayer
  have hclosed : FanInClosed policy ws inputHead
      (fun i => (run.enter results).results.lookup i) run.merges run.targetHead := by
    refine h.closed.mono ?_
    intro i r hr
    refine (lookup_enter_of_not_mem ?_).trans hr
    intro hi
    obtain ⟨r', hr', rfl⟩ := List.mem_map.mp hi
    exact hapart _ (hresults r' hr') (h.keyed _ (mem_of_lookup hr)).2
  have hkeyed : ∀ e ∈ (run.enter results).results,
      e.2.nodeId = e.1 ∧ e.1 ∈ nodeIds (before ++ [wave]) := by
    intro e he
    rw [nodeIds_append, List.mem_append]
    rcases mem_enter.mp he with he | ⟨r, hr, rfl⟩
    · exact ⟨(h.keyed e he).1, .inl (h.keyed e he).2⟩
    · exact ⟨rfl, .inr (hresults r hr)⟩
  have hkeyed' : ∀ e ∈ (run.enter results).results,
      e.2.nodeId = e.1 ∧ e.1 ∈ nodeIds ws := by
    intro e he
    obtain ⟨hown, hkey⟩ := hkeyed e he
    rw [hsplit, nodeIds, List.append_cons, List.flatMap_append]
    exact ⟨hown, List.mem_append_left _ hkey⟩
  rw [fanIn]
  split
  · exact ⟨⟨hclosed, hkeyed'⟩, by simp⟩
  · next hgood =>
      simp only [Bool.or_eq_true, List.any_eq_true, decide_eq_true_eq,
        not_or, not_exists, not_and, not_not] at hgood
      obtain ⟨hflag, hok⟩ := hgood
      have hflag' : run.clock.cancelled = false := by
        by_contra hset
        have hset' : run.clock.cancelled = true := by simpa using hset
        exact hflag (World.poll_of_cancelled hset')
      have hids := hall hflag'
      have hdistinct : (results.map (·.nodeId)).Nodup := hids ▸ hnodup
      split
      · exact ⟨⟨hclosed, hkeyed'⟩, by simp⟩
      · next hpremerge =>
          have hfit : ∀ node ∈ wave.nodes, ∃ result,
              (run.enter results).results.lookup node.id = some result ∧
                Mergeable policy (fun i => (run.enter results).results.lookup i)
                  wave run.targetHead node result :=
            mergeable_of_premerge (fun i => (run.enter results).results.lookup i)
              hids hnodup hok
              (fun r hr => lookup_enter_of_mem hdistinct hr) hpremerge
          have hwave : InWave policy ws inputHead before wave run.merges
              run.targetHead ((run.enter results).poll w) :=
            { split := ⟨after, hsplit⟩
              layer := hdeps
              apart := hapart
              based := fun i => ⟨fun hi => by
                obtain ⟨m, hm, rfl⟩ := List.mem_map.mp hi
                exact h.merged m hm, hcomplete i⟩
              linked := h.closed.chain
              keyed := fun e he => (hkeyed e he).1
              fit := hfit
              closed := hclosed
              inWave := ⟨[], by simp [Run.poll, Run.enter], by simp⟩ }
          have htodo : ∀ i ∈ deterministicMergeOrder (results.map (·.nodeId)),
              i ∈ wave.ids :=
            fun i hi => hids ▸ mem_sortedSet.mp hi
          have hsorted :
              (deterministicMergeOrder (results.map (·.nodeId))).Nodup :=
            nodup_sortedSet _
          obtain ⟨hout, hkept, hsame, hmerged⟩ := mergeAll_spec w hwave
            hsorted htodo (fun i hi hmem => by
              obtain ⟨m, hm, rfl⟩ := List.mem_map.mp hmem
              exact hapart _ (htodo _ hi) (h.merged m hm))
          refine ⟨⟨hout.closed, fun e he => ?_⟩, fun hexit => ?_⟩
          · rw [hsame] at he
            exact hkeyed' e he
          obtain ⟨rest, hrest, hinWave⟩ := hout.inWave
          constructor
          · exact hout.closed
          · intro e he
            rw [hsame] at he
            exact hkeyed e he
          · intro m hm
            rw [hrest] at hm
            rw [nodeIds_append, List.mem_append]
            rcases List.mem_append.mp hm with hm | hm
            · exact .inl (h.merged m hm)
            · exact .inr (hinWave m hm)
          · intro hfalse i hi
            rw [nodeIds_append, List.mem_append] at hi
            rcases hi with hi | hi
            · rw [hrest, List.map_append]
              exact List.mem_append_left _ (hcomplete i hi)
            · exact hmerged hexit hfalse i (mem_sortedSet.mpr (hids ▸ hi))
      · exact ⟨⟨hclosed, hkeyed'⟩, by simp⟩

theorem requests_nodes
    {nodes : List WorkNode} {requests : List NodeRequest}
    (h : nodes.mapM (requestFor call run) = .ok requests) :
    requests.map (·.node) = nodes := by
  have hall := Machine.mapM_eq_ok h
  clear h
  induction hall with
  | nil =>
      rfl
  | cons hrequest _ ih =>
      obtain ⟨dependencies, -, hrequest⟩ := Machine.bind_eq_ok hrequest
      cases hrequest
      simp [ih]

theorem runWave_spec (w : World) (call : Call)
    (h : BetweenWaves policy ws inputHead before run)
    (hcomplete : ∀ i ∈ nodeIds before, i ∈ run.merges.map (·.nodeId))
    (hsplit : ws = before ++ wave :: after)
    (hlayer : Layered (nodeIds before) (wave :: after))
    (inParallel : Bool) :
    Halted policy ws inputHead (runWave w policy call inParallel wave run).1 ∧
      ((runWave w policy call inParallel wave run).2 = .next →
        BetweenWaves policy ws inputHead (before ++ [wave])
          (runWave w policy call inParallel wave run).1) := by
  rw [runWave]
  split
  · exact ⟨h.halted hsplit, by simp⟩
  · next requests hrequests =>
      have hids : requests.map (·.node.id) = wave.ids := by
        rw [WorkWave.ids, ← requests_nodes hrequests]
        simp
      dsimp only
      split
      · exact ⟨h.halted hsplit, by simp⟩
      · next results c hanswers =>
          have hanswered : Answers requests results c := by
            split at hanswers
            · exact parallel_answers hanswers
            · exact serial_answers hanswers
          have hbetween : BetweenWaves policy ws inputHead before
              { run with clock := c } :=
            { h with complete := fun _ => hcomplete }
          refine fanIn_spec hbetween hcomplete hsplit hlayer ?_ ?_
          · intro r hr
            obtain ⟨request, hrequest, hid⟩ := hanswered.1 r hr
            rw [hid, ← hids]
            exact List.mem_map_of_mem hrequest
          · intro hflag
            exact (hanswered.2 hflag).trans hids

/-- However the loop over the waves ends, what it merged is closed. -/
theorem runWaves_halted
    {rest : List WorkWave}
    (h : BetweenWaves policy ws inputHead before run)
    (hsplit : ws = before ++ rest)
    (hlayer : Layered (nodeIds before) rest)
    (inParallel : Bool) :
    Halted policy ws inputHead
      (runWaves w policy call inParallel rest run).1 := by
  induction rest generalizing before run with
  | nil =>
      exact h.halted hsplit
  | cons wave rest ih =>
      have hpolled : BetweenWaves policy ws inputHead before (run.poll w) :=
        { h with
          complete := fun hflag => h.complete (by
            by_contra hset
            have hset' : run.clock.cancelled = true := by simpa using hset
            have hseen : (w.poll run.clock).cancelled = true :=
              World.poll_of_cancelled hset'
            have hunseen : (w.poll run.clock).cancelled = false := hflag
            simp [hseen] at hunseen) }
      rw [runWaves]
      split
      · exact hpolled.halted hsplit
      · next hflag =>
          have hcomplete := hpolled.complete (by simpa using hflag)
          obtain ⟨hclosed, hnext⟩ := runWave_spec w call
            hpolled hcomplete hsplit hlayer inParallel
          split
          · next run' hwave =>
              rw [hwave] at hnext
              refine ih (hnext rfl) (by simpa using hsplit) ?_
              rw [nodeIds_append]
              exact hlayer.2.2.2
          · next run' hwave =>
              rw [hwave] at hclosed
              exact hclosed
          · next run' e hwave =>
              rw [hwave] at hclosed
              exact hclosed

end BetweenWaves

/-! ## The report -/

/-- The result of a node in the report. -/
def ExecutionReport.resultOf (r : ExecutionReport) (id : String) :
    Option NodeResult :=
  r.results.find? fun result => result.nodeId == id

/-- Entries for nodes that were not started change nothing else. -/
theorem fillSkipped_spec (w : World) (call : Call) (nodes : List WorkNode)
    {run : Run}
    (hkeyed : ∀ e ∈ run.results, e.2.nodeId = e.1) :
    (fillSkipped w call nodes run).merges = run.merges ∧
      (fillSkipped w call nodes run).targetHead = run.targetHead ∧
      (∀ e ∈ (fillSkipped w call nodes run).results, e.2.nodeId = e.1) ∧
      ∀ i r, run.results.lookup i = some r →
        (fillSkipped w call nodes run).results.lookup i = some r := by
  induction nodes generalizing run with
  | nil =>
      exact ⟨rfl, rfl, hkeyed, fun i r h => h⟩
  | cons node rest ih =>
      rw [fillSkipped]
      split
      · exact ih hkeyed
      · next hnone =>
          dsimp only
          refine (ih ?_).imp id (And.imp id (And.imp id ?_))
          · intro e he
            rcases mem_enter.mp he with he | ⟨r, -, rfl⟩
            · exact hkeyed e he
            · rfl
          · intro hlater i r hr
            refine hlater i r ((lookup_enter_of_not_mem ?_).trans hr)
            rintro hi
            obtain rfl : i = node.id := by simpa using hi
            simp [hnone] at hr

theorem report_resultOf {w : World} {policy : ExecutorPolicy} {call : Call}
    {run : Run} {i : String} {r : NodeResult}
    (hkeyed : ∀ e ∈ run.results, e.2.nodeId = e.1)
    (hi : ∃ node ∈ call.nodes, node.id = i)
    (hr : run.results.lookup i = some r) :
    (report w policy call run).resultOf i = some r := by
  obtain ⟨-, -, hown, hlater⟩ := fillSkipped_spec w call call.nodes hkeyed
  obtain ⟨node, hnode, rfl⟩ := hi
  have hmem : r ∈ (report w policy call run).results :=
    List.mem_filterMap.mpr ⟨node, hnode, hlater _ _ hr⟩
  have hid : r.nodeId = node.id := hkeyed _ (mem_of_lookup hr)
  have hfound : ((report w policy call run).resultOf node.id).isSome :=
    List.find?_isSome.mpr ⟨r, hmem, by simpa using hid⟩
  obtain ⟨r', hr'⟩ := Option.isSome_iff_exists.mp hfound
  -- a result that is found is the entry of its own node
  have hid' : r'.nodeId = node.id := by
    simpa using List.find?_some hr'
  obtain ⟨node', -, hlookup⟩ :=
    List.mem_filterMap.mp (List.mem_of_find?_eq_some hr')
  have hkey : r'.nodeId = node'.id := hown _ (mem_of_lookup hlookup)
  have hsame := hlater _ _ hr
  rw [← hid', hkey] at hsame
  rw [hr', ← hlookup, ← hsame]
  rfl

/--
**Fan-in is a dependency-closed chain.**  For every accepted plan and whatever
the runner, the merger, the schedule and the operator do, the merges of the run
are closed, also when an exception ends it; the report has these merges.
-/
theorem fan_in_closed (w : World) (policy : ExecutorPolicy) (call : Call)
    {ws : List WorkWave}
    (hws : waves call.nodes = .ok ws) :
    FanInClosed policy ws call.inputHead
        (fun i => (executeWaves w policy call ws).1.results.lookup i)
        (executeWaves w policy call ws).1.merges
        (executeWaves w policy call ws).1.targetHead ∧
      ∀ rep, execute w policy call = .ok rep →
        FanInClosed policy ws call.inputHead rep.resultOf rep.merges
          rep.finalHead := by
  have hstart : BetweenWaves policy ws call.inputHead []
      { targetHead := call.inputHead } :=
    { closed :=
        { chain := rfl
          once := List.nodup_nil
          sanctioned := by simp }
      keyed := by simp
      merged := by simp
      complete := by simp [nodeIds] }
  have hhalted : Halted policy ws call.inputHead (executeWaves w policy call ws).1 :=
    runWaves_halted hstart rfl (waves_layered hws) _
  refine ⟨hhalted.closed, fun rep hrep => ?_⟩
  rw [execute, hws] at hrep
  dsimp only at hrep
  split at hrep
  · cases hrep
  · next run hrun =>
      cases hrep
      rw [hrun] at hhalted
      have hown : ∀ e ∈ run.results, e.2.nodeId = e.1 :=
        fun e he => (hhalted.keyed e he).1
      obtain ⟨hmerges, hhead, -⟩ := fillSkipped_spec w call call.nodes hown
      have hmono : ∀ i r, run.results.lookup i = some r →
          (report w policy call run).resultOf i = some r := by
        intro i r hr
        refine report_resultOf hown ?_ hr
        have hkey := (hhalted.keyed _ (mem_of_lookup hr)).2
        obtain ⟨wave, hwave, hi⟩ := List.mem_flatMap.mp hkey
        obtain ⟨node, hnode, rfl⟩ := List.mem_map.mp hi
        exact ⟨node, waves_mem hws wave hwave node hnode, rfl⟩
      have hclosed := hhalted.closed.mono hmono
      rw [← hmerges, ← hhead] at hclosed
      exact hclosed

/-- A runner that does what it is asked for. -/
def smoothAnswer (r : NodeRequest) : NodeResult where
  logicalId := r.logicalId fun raw => raw
  nodeId := r.node.id
  state := .ok
  inputHead := r.inputHead
  outputHead := some (r.inputHead ++ "/" ++ r.node.id)
  touchedFiles := r.node.files

/-- A merger that fast-forwards. -/
def smoothMerge (result : NodeResult) (head : String) (index : Nat) :
    Except Raised MergeReceipt :=
  .ok
    { index := index
      nodeId := result.nodeId
      sourceHead := result.head
      targetBefore := head
      targetAfter := head ++ "+" ++ result.nodeId
      transform := "fast_forward"
      requiresReverify := false }

/-- Surroundings in which every node goes well and every merge fast-forwards. -/
def smoothWorld : World where
  digest raw := raw
  runner _ r := .ok (smoothAnswer r)
  merger _ := smoothMerge
  cancels _ := false
  elapsed _ := 1
  schedule tick := tick
  interrupts _ := none

/-- Two nodes side by side and one that waits for both. -/
def diamondCall : Call where
  cellId := "cell"
  epoch := 1
  inputHead := "h"
  nodes :=
    [ ⟨"c", ["a", "b"], ["c.py"], true⟩,
      ⟨"b", [], ["b.py"], true⟩,
      ⟨"a", [], ["a.py"], true⟩ ]
  supportsFork := true

theorem fan_in_closed_diamond :
    ∃ ws, waves diamondCall.nodes = .ok ws ∧
      (executeWaves smoothWorld {} diamondCall ws).1.merges.map (·.nodeId) =
        ["a", "b", "c"] ∧
      FanInClosed {} ws "h"
        (fun i => (executeWaves smoothWorld {} diamondCall ws).1.results.lookup i)
        (executeWaves smoothWorld {} diamondCall ws).1.merges
        (executeWaves smoothWorld {} diamondCall ws).1.targetHead :=
  have hws : waves diamondCall.nodes = .ok
      [ ⟨0, [⟨"b", [], ["b.py"], true⟩, ⟨"a", [], ["a.py"], true⟩]⟩,
        ⟨1, [⟨"c", ["a", "b"], ["c.py"], true⟩]⟩ ] := by
    decide +kernel
  ⟨_, hws, by decide +kernel, (fan_in_closed smoothWorld {} diamondCall hws).1⟩

end Work
end SwFactory
