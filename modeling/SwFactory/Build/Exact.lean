import SwFactory.Build.Stage
import SwFactory.Machine.Chains

/-!
# Journals that record exactly-once work

`Progress.Exact` is what a journal of the build stage says at all times: which
nodes have a receipt, how the receipts are chained, which calls were paid for
and how many repairs there are.  Each way the stage changes the journal keeps
it; the lemmas below are about the journal alone.
-/

namespace SwFactory
namespace Build

open Work (WorkNode sortedSet)

/-- What `changed_paths` prints of two commits. -/
def changedFiles (diff : Head → Head → List String) (before after : Head) :
    List String :=
  sortedSet (((diff before after).map Text.strip).filter fun line =>
    decide (line ≠ ""))

/-- A repair that the ratchet reverted, with the head it went back to. -/
def RepairReceipt.revertedTo (r : RepairReceipt) : Option Head :=
  match r.ratchet with
  | none => none
  | some v => if v.evidence.kept then none else v.best.map (·.1)

/-- The checkpoint that a repair leaves. -/
def RepairReceipt.checkpoint (r : RepairReceipt) : Head :=
  r.revertedTo.getD r.outputHead

/-- The numbers of the calls that have a receipt. -/
def Progress.callNumbers (p : Progress) : List Nat :=
  p.nodes.map (·.agentCall) ++ p.repairs.map (·.agentCall)

/-- Every node of the plan has a receipt. -/
def Progress.allDone (plan : Plan) (p : Progress) : Prop :=
  ∀ node ∈ plan.work, node.id ∈ p.completed

/-- What an attempt that is under way may count on. -/
def AttemptKind.due (plan : Plan) (cfg : Config) (p : Progress) :
    AttemptKind → Prop
  | .node id _ =>
      id ∉ p.completed ∧ p.repairs = [] ∧
      ∃ node, plan.node id = some node ∧ ∀ d ∈ node.dependsOn, d ∈ p.completed
  | .repair number =>
      number = p.repairs.length + 1 ∧
      p.repairs.length < cfg.maxBuildIterations - 1 ∧ p.allDone plan

section Exact

variable (diff : Head → Head → List String) (plan : Plan) (cfg : Config)

/--
Each node has at most one receipt, behind those of its dependencies and within
its declared files; the receipts are chained; a number is given to one call;
the repairs are bounded.
-/
structure Progress.Exact (p : Progress) : Prop where
  digest : p.planDigest = plan.digest
  once : p.completed.Nodup
  ordered : ∀ pre r post, p.nodes = pre ++ r :: post →
    ∃ node ∈ plan.work, node.id = r.nodeId ∧
      (∀ d ∈ node.dependsOn, d ∈ pre.map (·.nodeId)) ∧
      r.changedFiles = changedFiles diff r.inputHead r.outputHead ∧
      ∀ f ∈ r.changedFiles, f ∈ node.files
  chained : ∃ fannedIn last,
    Machine.Linked NodeReceipt.inputHead NodeReceipt.outputHead p.inputHead
      p.nodes fannedIn ∧
    Machine.Linked RepairReceipt.inputHead RepairReceipt.checkpoint fannedIn
      p.repairs last ∧
    (p.revert = none → p.head = last) ∧
    ∀ r, p.revert = some r → p.head = r.start ∧ last = r.target
  calls : (p.callNumbers ++ p.attempt.toList.map (·.agentCall)).Nodup
  counter : ∀ c ∈ p.callNumbers ++ p.attempt.toList.map (·.agentCall),
    c ≤ p.agentCalls
  counted : p.nodes.length + p.repairs.length + p.attempt.toList.length ≤
    p.agentCalls
  bounded : p.repairs.length ≤ cfg.maxBuildIterations - 1
  complete : p.repairs ≠ [] → p.allDone plan
  underWay : ∀ a, p.attempt = some a →
    a.inputHead = p.head ∧ p.revert = none ∧ a.kind.due plan cfg p

end Exact

section Updates

variable {diff : Head → Head → List String} {plan : Plan} {cfg : Config}
variable {p : Progress}

theorem Progress.Exact.fresh (head : Head) :
    Progress.Exact diff plan cfg
      { planDigest := plan.digest, inputHead := head, head := head } where
  digest := rfl
  once := List.nodup_nil
  ordered := by simp
  chained := ⟨head, head, rfl, rfl, fun _ => rfl, by simp⟩
  calls := by simp [Progress.callNumbers]
  counter := by simp [Progress.callNumbers]
  counted := by simp
  bounded := Nat.zero_le _
  complete := by simp
  underWay := by simp

/-- A journalled attempt takes a number that no call had before. -/
theorem Progress.Exact.begin (h : p.Exact diff plan cfg)
    (hidle : p.attempt = none) (hrevert : p.revert = none)
    {kind : AttemptKind} (hdue : kind.due plan cfg p) :
    (p.begin kind p.head).Exact diff plan cfg := by
  have hcounter : ∀ c ∈ p.callNumbers, c ≤ p.agentCalls := by
    intro c hc
    exact h.counter c (List.mem_append_left _ hc)
  have hcalls : p.callNumbers.Nodup := by
    have hcalls := h.calls
    rw [hidle] at hcalls
    simpa using hcalls
  have hcounted := h.counted
  rw [hidle] at hcounted
  exact
    { digest := h.digest
      once := h.once
      ordered := h.ordered
      chained := h.chained
      calls := by
        change (p.callNumbers ++ [p.agentCalls + 1]).Nodup
        rw [← List.concat_eq_append]
        refine List.Nodup.concat ?_ hcalls
        intro hmem
        have := hcounter _ hmem
        omega
      counter := by
        intro c hc
        change c ∈ p.callNumbers ++ [p.agentCalls + 1] at hc
        change c ≤ p.agentCalls + 1
        rcases List.mem_append.mp hc with hc | hc
        · exact Nat.le_succ_of_le (hcounter c hc)
        · exact (List.mem_singleton.mp hc).le
      counted := by
        change p.nodes.length + p.repairs.length + 1 ≤ p.agentCalls + 1
        simp only [Option.toList_none, List.length_nil] at hcounted
        omega
      bounded := h.bounded
      complete := h.complete
      underWay := by
        intro a ha
        change some _ = some a at ha
        cases ha
        refine ⟨rfl, hrevert, ?_⟩
        cases kind with
        | node id layer => exact hdue
        | repair number => exact hdue }

/-- A struck attempt keeps its number. -/
theorem Progress.Exact.strike (h : p.Exact diff plan cfg) :
    Progress.Exact diff plan cfg { p with attempt := none } where
  digest := h.digest
  once := h.once
  ordered := h.ordered
  chained := h.chained
  calls := by
    have hcalls := (List.nodup_append.mp h.calls).1
    simpa [Progress.callNumbers] using hcalls
  counter := by
    intro c hc
    refine h.counter c (List.mem_append_left _ ?_)
    simpa [Progress.callNumbers] using hc
  counted := by
    have := h.counted
    simp only [Option.toList_none, List.length_nil]
    omega
  bounded := h.bounded
  complete := h.complete
  underWay := by simp

theorem Plan.node_some {id : String} {node : WorkNode}
    (h : plan.node id = some node) : node ∈ plan.work ∧ node.id = id :=
  ⟨List.mem_of_find?_eq_some h, by simpa using List.find?_some h⟩

/-- A receipt for the node whose attempt is under way. -/
theorem Progress.Exact.addNode (h : p.Exact diff plan cfg)
    {a : Attempt} (hattempt : p.attempt = some a)
    {id : String} {layer : Nat} (hkind : a.kind = .node id layer)
    {node : WorkNode} (hnode : plan.node id = some node) (after : Head)
    (hfiles : ∀ f ∈ changedFiles diff a.inputHead after, f ∈ node.files) :
    Progress.Exact diff plan cfg
      { p with
        nodes := p.nodes ++ [nodeReceipt node layer a after
          (changedFiles diff a.inputHead after)]
        head := after
        attempt := none } := by
  obtain ⟨hinput, hrevert, hdue⟩ := h.underWay a hattempt
  rw [hkind] at hdue
  obtain ⟨hnew, hrepairs, node', hnode', hdeps⟩ := hdue
  obtain rfl : node = node' := Option.some.inj (hnode.symm.trans hnode')
  obtain ⟨hmem, hid⟩ := Plan.node_some hnode
  obtain ⟨fannedIn, last, hnodes, hlinked, hhead, -⟩ := h.chained
  -- no repair was made yet, so the chain ends with the nodes
  have hfanned : fannedIn = a.inputHead := by
    rw [hrepairs] at hlinked
    obtain rfl : last = fannedIn := hlinked
    rw [hinput, hhead hrevert]
  rw [hfanned] at hnodes
  have hcalls := h.calls
  have hcounter := h.counter
  have hcounted := h.counted
  simp only [Progress.callNumbers, hrepairs, hattempt, Option.toList_some,
    List.map_nil, List.append_nil, List.map_cons, List.length_nil,
    List.length_cons] at hcalls hcounter hcounted
  exact
    { digest := h.digest
      once := by
        simp only [Progress.completed, List.map_append, List.map_singleton]
        rw [← List.concat_eq_append]
        refine List.Nodup.concat ?_ h.once
        subst hid
        exact hnew
      ordered := by
        intro pre r post hsplit
        rcases List.eq_nil_or_concat post with rfl | ⟨post', x, rfl⟩
        · obtain ⟨rfl, hr⟩ := List.append_inj' hsplit rfl
          cases hr
          exact ⟨node, hmem, rfl, hdeps, rfl, hfiles⟩
        · have hsplit' : p.nodes ++ [nodeReceipt node layer a after
              (changedFiles diff a.inputHead after)] =
              (pre ++ r :: post') ++ [x] := by
            simpa using hsplit
          obtain ⟨hold, -⟩ := List.append_inj' hsplit' rfl
          exact h.ordered pre r post' hold
      chained := by
        refine ⟨after, after, ?_, ?_, fun _ => rfl, by simp [hrevert]⟩
        · exact Machine.linked_concat.mpr ⟨hnodes, rfl⟩
        · rw [hrepairs]
          rfl
      calls := by
        simpa [Progress.callNumbers, hrepairs, nodeReceipt] using hcalls
      counter := by
        simpa [Progress.callNumbers, hrepairs, nodeReceipt] using hcounter
      counted := by
        simp only [List.length_append, List.length_singleton, hrepairs,
          List.length_nil, Option.toList_none]
        omega
      bounded := h.bounded
      complete := by simp [hrepairs]
      underWay := by simp }

/-- A receipt for the repair whose attempt is under way. -/
theorem Progress.Exact.addRepair (h : p.Exact diff plan cfg)
    {a : Attempt} (hattempt : p.attempt = some a)
    {number : Nat} (hkind : a.kind = .repair number) (after : Head) :
    Progress.Exact diff plan cfg
      { p with
        repairs := p.repairs ++
          [{ repair := number
             agentCall := a.agentCall
             inputHead := a.inputHead
             outputHead := after }]
        head := after
        attempt := none } := by
  obtain ⟨hinput, hrevert, hdue⟩ := h.underWay a hattempt
  rw [hkind] at hdue
  obtain ⟨-, hbound, hdone⟩ := hdue
  obtain ⟨fannedIn, last, hnodes, hlinked, hhead, -⟩ := h.chained
  have hcalls := h.calls
  have hcounter := h.counter
  have hcounted := h.counted
  simp only [Progress.callNumbers, hattempt, Option.toList_some, List.map_cons,
    List.map_nil, List.append_assoc, List.length_cons, List.length_nil]
    at hcalls hcounter hcounted
  exact
    { digest := h.digest
      once := h.once
      ordered := h.ordered
      chained := by
        refine ⟨fannedIn, after, hnodes, ?_, fun _ => rfl, by simp [hrevert]⟩
        refine Machine.linked_concat.mpr ⟨?_, rfl⟩
        rw [hinput, hhead hrevert]
        exact hlinked
      calls := by
        simpa [Progress.callNumbers] using hcalls
      counter := by
        simpa [Progress.callNumbers] using hcounter
      counted := by
        simp only [List.length_append, List.length_singleton, Option.toList_none,
          List.length_nil]
        omega
      bounded := by
        simp only [List.length_append, List.length_singleton]
        omega
      complete := fun _ => hdone
      underWay := by simp }

/-- Notes that no rule reads. -/
theorem Progress.Exact.note (h : p.Exact diff plan cfg)
    (verified : Option Verified) (decisions : List WaveDecision)
    (best : Option Best) :
    Progress.Exact diff plan cfg
      { p with
        verified := verified
        waveDecisions := decisions
        best := best } :=
  { h with }

/-- A verdict on the newest receipt that keeps the candidate. -/
theorem Progress.Exact.keep (h : p.Exact diff plan cfg)
    (hidle : p.attempt = none) (hrevert : p.revert = none)
    {receipts : List RepairReceipt} {receipt : RepairReceipt}
    (hrepairs : p.repairs = receipts ++ [receipt])
    (hpending : receipt.ratchet = none)
    {v : Ratcheted} (hkept : v.evidence.kept = true ∨ v.best = none) :
    (p.judged receipts receipt v).Exact diff plan cfg := by
  obtain ⟨fannedIn, last, hnodes, hlinked, hhead, -⟩ := h.chained
  rw [hrepairs, Machine.linked_concat] at hlinked
  have hlength : (p.judged receipts receipt v).repairs.length =
      p.repairs.length := by
    simp [Progress.judged, hrepairs]
  have hnumbers : (p.judged receipts receipt v).callNumbers = p.callNumbers := by
    simp [Progress.callNumbers, Progress.judged, hrepairs]
  have hsame : { receipt with ratchet := some v : RepairReceipt }.checkpoint =
      receipt.checkpoint := by
    rcases hkept with hkept | hbest
    · simp [RepairReceipt.checkpoint, RepairReceipt.revertedTo, hpending, hkept]
    · simp [RepairReceipt.checkpoint, RepairReceipt.revertedTo, hpending, hbest]
  exact
    { digest := h.digest
      once := h.once
      ordered := h.ordered
      chained := by
        refine ⟨fannedIn, last, hnodes, ?_, hhead, ?_⟩
        · exact Machine.linked_concat.mpr ⟨hlinked.1, hlinked.2.trans hsame.symm⟩
        · intro r hr
          rw [show (p.judged receipts receipt v).revert = p.revert from rfl,
            hrevert] at hr
          cases hr
      calls := by
        rw [hnumbers]
        exact h.calls
      counter := by
        rw [hnumbers]
        exact h.counter
      counted := by
        rw [hlength]
        exact h.counted
      bounded := by
        rw [hlength]
        exact h.bounded
      complete := fun _ => h.complete (by simp [hrepairs])
      underWay := by
        intro a ha
        rw [show (p.judged receipts receipt v).attempt = p.attempt from rfl,
          hidle] at ha
        cases ha }

/-- A verdict that reverts the candidate, journalled with the revert. -/
theorem Progress.Exact.revert (h : p.Exact diff plan cfg)
    (hidle : p.attempt = none)
    {receipts : List RepairReceipt} {receipt : RepairReceipt}
    (hrepairs : p.repairs = receipts ++ [receipt])
    {v : Ratcheted} {best : Head × Nat} (hkept : v.evidence.kept = false)
    (hbest : v.best = some best) (number : Nat) :
    Progress.Exact diff plan cfg
      { p.judged receipts receipt v with
        revert := some
          { start := p.head, target := best.1, repair := number } } := by
  obtain ⟨fannedIn, last, hnodes, hlinked, hhead, -⟩ := h.chained
  rw [hrepairs, Machine.linked_concat] at hlinked
  have hlength : (p.judged receipts receipt v).repairs.length =
      p.repairs.length := by
    simp [Progress.judged, hrepairs]
  have hnumbers : (p.judged receipts receipt v).callNumbers = p.callNumbers := by
    simp [Progress.callNumbers, Progress.judged, hrepairs]
  exact
    { digest := h.digest
      once := h.once
      ordered := h.ordered
      chained := by
        refine ⟨fannedIn, best.1, hnodes, ?_, by simp, ?_⟩
        · refine Machine.linked_concat.mpr ⟨hlinked.1, ?_⟩
          simp [RepairReceipt.checkpoint, RepairReceipt.revertedTo, hkept, hbest]
        · intro r hr
          cases hr
          exact ⟨rfl, rfl⟩
      calls := by
        have hcalls := h.calls
        rw [← hnumbers] at hcalls
        exact hcalls
      counter := by
        have hcounter := h.counter
        rw [← hnumbers] at hcounter
        exact hcounter
      counted := by
        have hcounted := h.counted
        rw [← hlength] at hcounted
        exact hcounted
      bounded := by
        have hbounded := h.bounded
        rw [← hlength] at hbounded
        exact hbounded
      complete := fun _ => h.complete (by simp [hrepairs])
      underWay := by
        intro a ha
        change p.attempt = some a at ha
        rw [hidle] at ha
        cases ha }

/-- A finished revert moves the checkpoint to its target. -/
theorem Progress.Exact.reverted (h : p.Exact diff plan cfg)
    {r : Revert} (hrevert : p.revert = some r) (verified : Option Verified) :
    Progress.Exact diff plan cfg
      { p with head := r.target, revert := none, verified := verified } := by
  obtain ⟨fannedIn, last, hnodes, hlinked, -, hends⟩ := h.chained
  exact
    { digest := h.digest
      once := h.once
      ordered := h.ordered
      chained := ⟨fannedIn, last, hnodes, hlinked,
        fun _ => (hends r hrevert).2.symm, by simp⟩
      calls := h.calls
      counter := h.counter
      counted := h.counted
      bounded := h.bounded
      complete := h.complete
      underWay := by
        intro a ha
        have hnone := (h.underWay a ha).2.1
        rw [hrevert] at hnone
        cases hnone }

end Updates

end Build
end SwFactory
