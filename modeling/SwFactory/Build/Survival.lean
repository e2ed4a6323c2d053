import SwFactory.Build.Exact

/-!
# The build stage survives being killed

`Journalled` holds of the durable records after every statement of the stage,
whatever the sandbox does: the journal is exact, and the fence stands where the
journal expects it.  Each routine of the stage has one lemma that says what it
keeps and where it leaves the records.
-/

namespace SwFactory
namespace Build

open Machine (Survives Prog)
open Work (WorkNode sortedSet)

section Records

variable (diff : Head → Head → List String) (plan : Plan) (cfg : Config)

/-- The records after any statement of the stage. -/
structure Journalled (d : Durable) : Prop where
  exact : ∀ p, d.journal = some p → p.Exact diff plan cfg
  fenced : ∀ p, d.journal = some p → p.revert = none → p.attempt = none →
    d.fence = p.head
  ends : ∀ p r, d.journal = some p → p.revert = some r →
    d.fence = r.start ∨ d.fence = r.target
  once : d.calls.Nodup
  counter : ∀ c ∈ d.calls, ∃ p, d.journal = some p ∧ c ≤ p.agentCalls

/-- The journal in memory is the stored one, with nothing under way. -/
structure Idle (p : Progress) (d : Durable) : Prop where
  records : Journalled diff plan cfg d
  current : d.journal = none ∨ d.journal = some p
  exact : p.Exact diff plan cfg
  attempt : p.attempt = none
  revert : p.revert = none
  fence : d.fence = p.head
  counter : ∀ c ∈ d.calls, c ≤ p.agentCalls

/-- An attempt is journalled and under way. -/
structure Busy (p : Progress) (a : Attempt) (d : Durable) : Prop where
  records : Journalled diff plan cfg d
  current : d.journal = some p
  attempt : p.attempt = some a

end Records

/-- The records that belong to the host are the same. -/
def Same (d d' : Durable) : Prop :=
  d'.journal = d.journal ∧ d'.fence = d.fence ∧ d'.calls = d.calls

section Specs

variable {diff : Head → Head → List String} {plan : Plan} {cfg : Config}
variable {d d' : Durable} {p : Progress}

theorem Same.refl (d : Durable) : Same d d :=
  ⟨rfl, rfl, rfl⟩

theorem Same.trans {d'' : Durable} (h : Same d d') (h' : Same d' d'') :
    Same d d'' :=
  ⟨h'.1.trans h.1, h'.2.1.trans h.2.1, h'.2.2.trans h.2.2⟩

theorem Journalled.same (h : Journalled diff plan cfg d) (hsame : Same d d') :
    Journalled diff plan cfg d' := by
  obtain ⟨hjournal, hfence, hcalls⟩ := hsame
  constructor
  · rw [hjournal]
    exact h.exact
  · rw [hjournal, hfence]
    exact h.fenced
  · rw [hjournal, hfence]
    exact h.ends
  · rw [hcalls]
    exact h.once
  · rw [hcalls, hjournal]
    exact h.counter

theorem Idle.same (h : Idle diff plan cfg p d) (hsame : Same d d') :
    Idle diff plan cfg p d' where
  records := h.records.same hsame
  current := by rw [hsame.1]; exact h.current
  exact := h.exact
  attempt := h.attempt
  revert := h.revert
  fence := by rw [hsame.2.1]; exact h.fence
  counter := by rw [hsame.2.2]; exact h.counter

/-- A journal that is stored. -/
theorem Journalled.store (h : Journalled diff plan cfg d) {q : Progress}
    (hexact : q.Exact diff plan cfg)
    (hfenced : q.revert = none → q.attempt = none → d.fence = q.head)
    (hends : ∀ r, q.revert = some r → d.fence = r.start ∨ d.fence = r.target)
    (hcounter : ∀ c ∈ d.calls, c ≤ q.agentCalls) :
    Journalled diff plan cfg { d with journal := some q } where
  exact p hp := by cases hp; exact hexact
  fenced p hp := by cases hp; exact hfenced
  ends p r hp := by cases hp; exact hends r
  once := h.once
  counter c hc := ⟨q, rfl, hcounter c hc⟩

/-- The calls that were made are counted in the stored journal. -/
theorem Journalled.calls_le (h : Journalled diff plan cfg d)
    (hp : d.journal = some p) : ∀ c ∈ d.calls, c ≤ p.agentCalls := by
  intro c hc
  obtain ⟨p', hp', hle⟩ := h.counter c hc
  cases hp.symm.trans hp'
  exact hle

theorem answer_spec {α : Type} {I : Durable → Prop}
    {Q : Except StageError α → Durable → Prop} {i : Input} {a : α}
    (hok : Q (.ok a) d) (herr : ∀ e, Q (.error e) d) :
    Survives (exec diff) I Q (Prog.ofExcept (i.answer a)) d := by
  unfold Input.answer
  cases i.fails with
  | none => exact hok
  | some text => exact herr _

theorem drift_same (i : Input) (d : Durable) : Same d (d.drift i) :=
  ⟨rfl, rfl, rfl⟩

theorem gitHead_spec {Q : Except StageError Head → Durable → Prop}
    (h : Journalled diff plan cfg d)
    (hok : ∀ head d', Same d d' → Q (.ok head) d')
    (herr : ∀ e d', Same d d' → Q (.error e) d') :
    Survives (exec diff) (Journalled diff plan cfg) Q gitHead d := by
  intro i
  have hsame := drift_same i d
  exact ⟨h.same hsame,
    answer_spec (hok _ _ hsame) (fun e => herr e _ hsame)⟩

theorem assertWorkspaceHead_spec {Q : Except StageError Head → Durable → Prop}
    (h : Journalled diff plan cfg d)
    (hok : ∀ d', Same d d' → Q (.ok d.fence) d')
    (herr : ∀ e d', Same d d' → Q (.error e) d') :
    Survives (exec diff) (Journalled diff plan cfg) Q assertWorkspaceHead d := by
  intro i
  refine ⟨h, ?_⟩
  refine Survives.bind (Q := fun _ => Same d)
    (gitHead_spec h (fun _ _ hsame => hsame) (fun _ _ hsame => hsame)) ?_ herr
  intro head d' hsame
  change Survives _ _ _ (if head ≠ d.fence then _ else _) _
  split
  · exact herr _ d' hsame
  · next heq =>
      rw [not_not.mp heq]
      exact hok d' hsame

/-- The fence moves last, so that only its new place has to be allowed. -/
theorem restoreHead_spec {Q : Except StageError Unit → Durable → Prop}
    {head : Head}
    (h : Journalled diff plan cfg d)
    (hmoved : Journalled diff plan cfg { d with fence := head })
    (hok : ∀ d', Same { d with fence := head } d' → Q (.ok ()) d')
    (herr : ∀ e d', Same d d' → Q (.error e) d') :
    Survives (exec diff) (Journalled diff plan cfg) Q (restoreHead head) d := by
  intro i
  simp only [exec]
  cases i.fails with
  | some text =>
      exact ⟨h.same (drift_same i d), herr _ _ (drift_same i d)⟩
  | none =>
      refine ⟨h.same ⟨rfl, rfl, rfl⟩, fun j => ⟨h.same ⟨rfl, rfl, rfl⟩, fun _ => ?_⟩⟩
      have hsame : Same { d with fence := head }
          { ({ d with head := head } : Durable).drift j with fence := head } :=
        ⟨rfl, rfl, rfl⟩
      exact ⟨hmoved.same hsame, hok _ hsame⟩

/-- What holds where a program returns; it may raise at any place. -/
def Post {α : Type} (R : α → Durable → Prop) :
    Except StageError α → Durable → Prop :=
  fun r d => ∀ a, r = .ok a → R a d

theorem Post.ok {α : Type} {R : α → Durable → Prop} {a : α} (h : R a d) :
    Post R (.ok a) d := by
  rintro _ ⟨⟩
  exact h

theorem Post.error {α : Type} {R : α → Durable → Prop} {e : StageError} :
    Post R (.error e) d := by
  rintro _ ⟨⟩

theorem bind_post {α β : Type} {I : Durable → Prop}
    {R : α → Durable → Prop} {R' : β → Durable → Prop}
    {s : Script α} {f : α → Script β}
    (h : Survives (exec diff) I (Post R) s d)
    (hf : ∀ a d, R a d → Survives (exec diff) I (Post R') (f a) d) :
    Survives (exec diff) I (Post R') (s >>= f) d :=
  Survives.bind h (fun a d ha => hf a d (ha a rfl)) (fun _ _ _ => Post.error)

/-- A journal with nothing under way is stored. -/
theorem Journalled.idle (h : Journalled diff plan cfg d) {q : Progress}
    (hexact : q.Exact diff plan cfg)
    (hattempt : q.attempt = none) (hrevert : q.revert = none)
    (hfence : d.fence = q.head)
    (hcounter : ∀ c ∈ d.calls, c ≤ q.agentCalls) :
    Idle diff plan cfg q { d with journal := some q } where
  records := by
    refine h.store hexact (fun _ _ => hfence) ?_ hcounter
    intro r hr
    rw [hrevert] at hr
    cases hr
  current := .inr rfl
  exact := hexact
  attempt := hattempt
  revert := hrevert
  fence := hfence
  counter := hcounter

theorem store_spec {α : Type} {R : α → Durable → Prop} {q : Progress}
    {f : Unit → Script α}
    (h : Journalled diff plan cfg { d with journal := some q })
    (hf : Survives (exec diff) (Journalled diff plan cfg) (Post R) (f ())
      { d with journal := some q }) :
    Survives (exec diff) (Journalled diff plan cfg) (Post R)
      (writeJournal q >>= f) d :=
  fun _ => ⟨h, hf⟩

theorem commit_spec {Q : Except StageError Head → Durable → Prop}
    (h : Journalled diff plan cfg d)
    (hmoved : ∀ head, Journalled diff plan cfg { d with fence := head })
    (hok : ∀ sha d', Same { d with fence := sha } d' → Q (.ok sha) d')
    (herr : ∀ e d', Same d d' → Q (.error e) d') :
    Survives (exec diff) (Journalled diff plan cfg) Q commit d := by
  -- until the fence moves, the records of the host are those at the start
  have hrecord : ∀ d', Same d d' →
      Survives (exec diff) (Journalled diff plan cfg) Q
        (gitHead >>= fun sha => .step (.writeFence sha) fun _ => .ret sha) d' := by
    intro d₁ hsame
    refine Survives.bind (Q := fun _ => Same d)
      (gitHead_spec (h.same hsame) (fun _ _ hsame' => hsame.trans hsame')
        (fun _ _ hsame' => hsame.trans hsame')) ?_ herr
    rintro sha d₂ ⟨hjournal, hfence, hcalls⟩ i
    have hsame₂ : Same { d with fence := sha } { d₂ with fence := sha } :=
      ⟨hjournal, rfl, hcalls⟩
    exact ⟨(hmoved sha).same hsame₂, hok sha _ hsame₂⟩
  refine Survives.bind (Q := fun _ => Same d)
    (assertWorkspaceHead_spec h (fun _ hsame => hsame) (fun _ _ hsame => hsame))
    ?_ herr
  intro _ d₁ hsame₁ i
  have hsame₂ := hsame₁.trans (drift_same i d₁)
  refine ⟨h.same hsame₂, ?_⟩
  refine Survives.bind (Q := fun _ => Same d)
    (answer_spec hsame₂ (fun _ => hsame₂)) ?_ herr
  intro staged d₃ hsame₃
  cases staged with
  | false =>
      exact hrecord d₃ hsame₃
  | true =>
      intro j
      have hsame₄ := hsame₃.trans (drift_same j d₃)
      refine ⟨h.same hsame₄, ?_⟩
      refine Survives.bind (Q := fun _ => Same d)
        (answer_spec hsame₄ (fun _ => hsame₄)) ?_ herr
      exact fun _ d₅ hsame₅ => hrecord d₅ hsame₅

theorem changedPaths_spec (h : Journalled diff plan cfg d) (before after : Head) :
    Survives (exec diff) (Journalled diff plan cfg)
      (Post fun changed d' =>
        changed = changedFiles diff before after ∧ Same d d')
      (changedPaths before after) d := by
  intro i
  have hsame := drift_same i d
  refine ⟨h.same hsame, ?_⟩
  refine bind_post (R := fun lines d' => lines = diff before after ∧ Same d d')
    (answer_spec (Post.ok ⟨rfl, hsame⟩) (fun _ => Post.error)) ?_
  rintro _ d' ⟨rfl, hsame'⟩
  exact Post.ok ⟨rfl, hsame'⟩

section Busy

variable {a : Attempt}

theorem Busy.exact (h : Busy diff plan cfg p a d) : p.Exact diff plan cfg :=
  h.records.exact p h.current

theorem Busy.calls_le (h : Busy diff plan cfg p a d) :
    ∀ c ∈ d.calls, c ≤ p.agentCalls :=
  h.records.calls_le h.current

theorem Busy.same (h : Busy diff plan cfg p a d) (hsame : Same d d') :
    Busy diff plan cfg p a d' where
  records := h.records.same hsame
  current := hsame.1.trans h.current
  attempt := h.attempt

/-- While an attempt is under way the fence may stand anywhere. -/
theorem Busy.move (h : Busy diff plan cfg p a d) (head : Head) :
    Busy diff plan cfg p a { d with fence := head } where
  records :=
    { exact := h.records.exact
      fenced := by
        intro q hq _ hnone
        cases h.current.symm.trans hq
        rw [h.attempt] at hnone
        cases hnone
      ends := by
        intro q r hq hrevert
        cases h.current.symm.trans hq
        have hnone := (h.exact.underWay a h.attempt).2.1
        rw [hrevert] at hnone
        cases hnone
      once := h.records.once
      counter := h.records.counter }
  current := h.current
  attempt := h.attempt

/-- An attempt that is struck leaves the stage idle at its input head. -/
theorem abandon_spec (h : Busy diff plan cfg p a d) :
    Survives (exec diff) (Journalled diff plan cfg)
      (Post (Idle diff plan cfg)) (abandon p a.inputHead) d := by
  obtain ⟨hinput, hrevert, -⟩ := h.exact.underWay a h.attempt
  refine bind_post (R := fun _ d' => Same { d with fence := a.inputHead } d')
    (restoreHead_spec h.records (h.move a.inputHead).records
      (fun d' hsame => Post.ok hsame) (fun _ _ _ => Post.error)) ?_
  intro _ d₁ hsame
  have hbusy := (h.move a.inputHead).same hsame
  have hstruck := h.exact.strike
  have hidle : Idle diff plan cfg { p with attempt := none }
      { d₁ with journal := some { p with attempt := none } } :=
    hbusy.records.idle hstruck rfl hrevert (hsame.2.1.trans hinput)
      hbusy.calls_le
  exact store_spec hidle.records (Post.ok hidle)

/-- What a settled attempt has added to the journal. -/
structure Added (p : Progress) (a : Attempt) (q : Progress) : Prop where
  node : ∀ id layer, a.kind = .node id layer →
    q.completed = p.completed ++ [id]
  repair : ∀ number, a.kind = .repair number →
    q.repairs.length = p.repairs.length + 1 ∧ q.completed = p.completed

/-- The attempt whose commit is fenced becomes a receipt, or it is struck. -/
theorem settle_spec (h : Busy diff plan cfg p a d) :
    Survives (exec diff) (Journalled diff plan cfg)
      (Post fun q d' => Idle diff plan cfg q d' ∧ Added p a q)
      (settle plan p a d.fence) d := by
  unfold settle
  split
  · next id layer hkind =>
      unfold settleNode
      split
      · exact Post.error
      · next node hnode =>
          refine bind_post (changedPaths_spec h.records _ _) ?_
          rintro _ d₁ ⟨rfl, hsame⟩
          have hbusy := h.same hsame
          dsimp only
          split
          · exact bind_post (abandon_spec hbusy) (fun _ _ _ => Post.error)
          · next hscope =>
              have hfiles : ∀ f ∈ changedFiles diff a.inputHead d.fence,
                  f ∈ node.files := by
                rw [not_not, Work.sortedSet_eq_nil, List.filter_eq_nil_iff] at hscope
                intro f hf
                have hout := hscope f hf
                simpa using hout
              have hexact := h.exact.addNode h.attempt hkind hnode d.fence hfiles
              have hrevert := (h.exact.underWay a h.attempt).2.1
              have hidle := hbusy.records.idle hexact rfl hrevert hsame.2.1
                hbusy.calls_le
              refine store_spec hidle.records (Post.ok ⟨hidle, ?_⟩)
              have hid := (Plan.node_some hnode).2
              exact
                { node := fun id' layer' hkind' => by
                    cases hkind.symm.trans hkind'
                    simp [Progress.completed, nodeReceipt, hid]
                  repair := fun number hkind' => by
                    cases hkind.symm.trans hkind' }
  · next number hkind =>
      unfold settleRepair
      refine bind_post (R := fun _ d' => Same d d') ?_ ?_
      · unfold escapedPaths
        split
        · exact Post.ok (Same.refl d)
        · refine bind_post (changedPaths_spec h.records _ _) ?_
          rintro _ d₁ ⟨-, hsame⟩
          exact Post.ok hsame
      · intro escaped d₁ hsame
        have hbusy := h.same hsame
        split
        · exact bind_post (abandon_spec hbusy) (fun _ _ _ => Post.error)
        · have hexact := h.exact.addRepair h.attempt hkind d.fence
          have hrevert := (h.exact.underWay a h.attempt).2.1
          have hidle := hbusy.records.idle hexact rfl hrevert hsame.2.1
            hbusy.calls_le
          refine store_spec hidle.records (Post.ok ⟨hidle, ?_⟩)
          exact
            { node := fun id layer hkind' => by
                cases hkind.symm.trans hkind'
              repair := fun number' hkind' => by
                simp [Progress.completed] }

/-- The agent is called under a number that no call had before. -/
theorem Idle.call (h : Idle diff plan cfg p d) {kind : AttemptKind}
    (hdue : kind.due plan cfg p)
    (hcurrent : d'.journal = some (p.begin kind p.head))
    (hcalls : d'.calls = d.calls ++ [p.agentCalls + 1]) :
    Busy diff plan cfg (p.begin kind p.head)
      ⟨kind, p.agentCalls + 1, p.head⟩ d' where
  records :=
    { exact := by
        intro q hq
        cases hcurrent.symm.trans hq
        exact h.exact.begin h.attempt h.revert hdue
      fenced := by
        intro q hq _ hnone
        cases hcurrent.symm.trans hq
        cases hnone
      ends := by
        intro q r hq hrevert
        cases hcurrent.symm.trans hq
        change p.revert = some r at hrevert
        rw [h.revert] at hrevert
        cases hrevert
      once := by
        rw [hcalls, ← List.concat_eq_append]
        refine List.Nodup.concat ?_ h.records.once
        intro hmem
        have := h.counter _ hmem
        omega
      counter := by
        intro c hc
        refine ⟨_, hcurrent, ?_⟩
        change c ≤ p.agentCalls + 1
        rw [hcalls] at hc
        rcases List.mem_append.mp hc with hc | hc
        · exact Nat.le_succ_of_le (h.counter c hc)
        · exact (List.mem_singleton.mp hc).le }
  current := hcurrent
  attempt := rfl

/-- The attempt is journalled before the agent is called. -/
theorem Idle.begun (h : Idle diff plan cfg p d) {kind : AttemptKind}
    (hdue : kind.due plan cfg p) :
    Journalled diff plan cfg
      { d with journal := some (p.begin kind p.head) } := by
  refine h.records.store (h.exact.begin h.attempt h.revert hdue) ?_ ?_ ?_
  · intro _ hnone
    cases hnone
  · intro r hrevert
    change p.revert = some r at hrevert
    rw [h.revert] at hrevert
    cases hrevert
  · intro c hc
    exact Nat.le_succ_of_le (h.counter c hc)

theorem attempt_spec (h : Idle diff plan cfg p d) {kind : AttemptKind}
    (stage : String) (hdue : kind.due plan cfg p) :
    Survives (exec diff) (Journalled diff plan cfg)
      (Post fun q d' => Idle diff plan cfg q d' ∧
        Added p ⟨kind, p.agentCalls + 1, p.head⟩ q)
      (attempt plan p kind stage) d := by
  refine bind_post (R := fun before d' => before = p.head ∧ Same d d')
    (assertWorkspaceHead_spec h.records
      (fun d' hsame => Post.ok ⟨h.fence, hsame⟩) (fun _ _ _ => Post.error)) ?_
  rintro _ d₁ ⟨rfl, hsame⟩ i
  have hidle := h.same hsame
  refine ⟨hidle.begun hdue, ?_⟩
  refine Survives.finish (Q := fun r d' =>
    Busy diff plan cfg (p.begin kind p.head)
      ⟨kind, p.agentCalls + 1, p.head⟩ d' ∧
    ∀ after, r = .ok after → d'.fence = after) ?_ ?_
  · intro j
    have hbusy : Busy diff plan cfg (p.begin kind p.head)
        ⟨kind, p.agentCalls + 1, p.head⟩
        (exec diff (.agent stage (p.agentCalls + 1)) j
          { d₁ with journal := some (p.begin kind p.head) }).2 :=
      hidle.call hdue rfl rfl
    refine ⟨hbusy.records, ?_⟩
    refine Survives.bind
      (Q := fun _ d' => Busy diff plan cfg (p.begin kind p.head)
        ⟨kind, p.agentCalls + 1, p.head⟩ d')
      (answer_spec hbusy (fun _ => hbusy)) ?_ ?_
    · intro _ d₂ hbusy₂
      refine commit_spec hbusy₂.records (fun head => (hbusy₂.move head).records) ?_ ?_
      · intro sha d₃ hsame₃
        refine ⟨(hbusy₂.move sha).same hsame₃, ?_⟩
        rintro _ ⟨⟩
        exact hsame₃.2.1
      · intro e d₃ hsame₃
        exact ⟨hbusy₂.same hsame₃, by simp⟩
    · intro e d₂ hbusy₂
      exact ⟨hbusy₂, by simp⟩
  · rintro (e | after) d₂ ⟨hbusy, hfence⟩
    · exact bind_post (abandon_spec hbusy) (fun _ _ _ => Post.error)
    · obtain rfl := hfence after rfl
      refine (settle_spec hbusy).mono ?_
      rintro _ d₃ hpost q rfl
      obtain ⟨hidle', hadded⟩ := hpost q rfl
      exact ⟨hidle', hadded.node, hadded.repair⟩

end Busy

end Specs

end Build
end SwFactory
