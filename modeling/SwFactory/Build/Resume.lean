import SwFactory.Build.Sessions

/-!
# Which crashes of the build stage can be resumed

The sandbox is orderly here: its HEAD moves by the commit and the reset of the
stage only.  A command may still fail, which ends the life without a verdict on
the records.  `Resumable` says what the next life makes of surviving records:
nothing refuses them, and the attempt that was under way is a receipt or is
struck.
-/

namespace SwFactory
namespace Build

open Machine (Survives Prog)

/-- What an orderly sandbox may decide about a statement. -/
def Stmt.orderly : Stmt → Input → Input
  | .gitCommit, i => i
  | _, i => { i with moved := none }

/-- The meaning of a statement in an orderly sandbox. -/
def orderly (diff : Head → Head → List String) :
    Machine.Effect Stmt Ans Durable Input :=
  fun s i d => exec diff s (s.orderly i) d

/-- The policy errors that refuse the surviving records. -/
def StageError.refuses : StageError → Bool
  | .drifted _ _ => true
  | .otherPlan => true
  | .unfinishedRevert => true
  | .checkpoint _ _ => true
  | .counter => true
  | _ => false

/-- No attempt is under way in the surviving journal. -/
def Durable.settled (d : Durable) : Prop :=
  ∀ p, d.journal = some p → p.attempt = none

/-- The stage opens, or it stops for a reason that is not in the records. -/
def Opened (R : Progress → Durable → Prop) :
    Except StageError Progress → Durable → Prop
  | .ok q, d => R q d
  | .error (.command _), _ => True
  | .error (.outsideScope _ _), d => d.settled
  | .error (.guardedPaths _), d => d.settled
  | .error _, _ => False

/-- A life over the surviving records settles the attempt and refuses nothing. -/
structure Resumable (diff : Head → Head → List String) (plan : Plan)
    (cfg : Config) (d : Durable) : Prop where
  opens : Survives (orderly diff) (fun _ => True)
    (Opened fun q d' => q.attempt = none ∧ d'.settled) (openProgress plan) d
  accepts : Survives (orderly diff) (fun _ => True)
    (fun r _ => ∀ e, r = .error e → e.refuses = false) (buildAndTest cfg plan) d

section Orderly

variable {diff : Head → Head → List String}
variable {α β : Type} {d : Durable}

/-- A return with the fence at HEAD, or an error that refuses nothing. -/
structure Landed (r : Except StageError α) (d : Durable) : Prop where
  fence : ∀ a, r = .ok a → d.fence = d.head
  accepts : ∀ e, r = .error e → e.refuses = false

theorem Landed.ok {a : α} (h : d.fence = d.head) : Landed (.ok a) d :=
  ⟨fun _ _ => h, by simp⟩

theorem Landed.error {e : StageError} (he : e.refuses = false) :
    Landed (.error e : Except StageError α) d := by
  refine ⟨by simp, ?_⟩
  rintro _ ⟨⟩
  exact he

/-- The program lands wherever it ends. -/
def Lands (diff : Head → Head → List String) (s : Script α) (d : Durable) : Prop :=
  Survives (orderly diff) (fun _ => True) Landed s d

/-- A program that keeps the fence at HEAD. -/
def Fenced (diff : Head → Head → List String) (s : Script α) : Prop :=
  ∀ d : Durable, d.fence = d.head → Lands diff s d

theorem Fenced.ret (a : α) : Fenced diff (.ret a) :=
  fun _ h => Landed.ok h

theorem Fenced.raise {e : StageError} (he : e.refuses = false) :
    Fenced diff (.raise e : Script α) :=
  fun _ _ => Landed.error he

theorem Lands.bind {s : Script α} {f : α → Script β}
    (hs : Lands diff s d) (hf : ∀ a, Fenced diff (f a)) :
    Lands diff (s >>= f) d := by
  refine Survives.bind hs ?_ ?_
  · intro a d' ha
    exact hf a d' (ha.fence a rfl)
  · intro e d' he
    exact Landed.error (he.accepts e rfl)

theorem Fenced.bind {s : Script α} {f : α → Script β}
    (hs : Fenced diff s) (hf : ∀ a, Fenced diff (f a)) :
    Fenced diff (s >>= f) :=
  fun d h => (hs d h).bind hf

/-- A statement that leaves the fence and HEAD alone. -/
theorem Fenced.step {s : Stmt} {k : Ans s → Script α}
    (hstill : ∀ i d, (orderly diff s i d).2.fence = d.fence ∧
      (orderly diff s i d).2.head = d.head)
    (hk : ∀ i d, Fenced diff (k (orderly diff s i d).1)) :
    Fenced diff (.step s k) := by
  intro d h i
  refine ⟨trivial, hk i d _ ?_⟩
  rw [(hstill i d).1, (hstill i d).2]
  exact h

theorem Fenced.answer (i : Input) (a : α) :
    Fenced diff (.ofExcept (i.answer a)) := by
  unfold Input.answer
  cases i.fails with
  | none => exact Fenced.ret a
  | some text => exact Fenced.raise rfl

theorem fenced_writeJournal (p : Progress) : Fenced diff (writeJournal p) :=
  Fenced.step (fun _ _ => ⟨rfl, rfl⟩) (fun _ _ => Fenced.ret ())

theorem fenced_changedPaths (before after : Head) :
    Fenced diff (changedPaths before after) :=
  Fenced.bind (Fenced.step (fun _ _ => ⟨rfl, rfl⟩) (fun _ _ => Fenced.answer _ _))
    (fun _ => Fenced.ret _)

/-- The program returns, or one of its commands has failed. -/
def Commanded (R : α → Durable → Prop) : Except StageError α → Durable → Prop
  | .ok a, d => R a d
  | .error (.command _), _ => True
  | .error _, _ => False

theorem commanded_bind {R : α → Durable → Prop}
    {Q : Except StageError β → Durable → Prop}
    {s : Script α} {f : α → Script β}
    (hs : Survives (orderly diff) (fun _ => True) (Commanded R) s d)
    (hf : ∀ a d, R a d → Survives (orderly diff) (fun _ => True) Q (f a) d)
    (hfails : ∀ text d, Q (.error (.command text)) d) :
    Survives (orderly diff) (fun _ => True) Q (s >>= f) d := by
  refine Survives.bind hs (fun a d ha => hf a d ha) ?_
  intro e d' he
  cases e with
  | command text => exact hfails text d'
  | _ => cases he

theorem commanded_answer {R : α → Durable → Prop} {i : Input} {a : α}
    (h : R a d) :
    Survives (orderly diff) (fun _ => True) (Commanded R)
      (Prog.ofExcept (i.answer a)) d := by
  unfold Input.answer
  cases i.fails with
  | none => exact h
  | some text => trivial

/-- A reset ends with the fence at HEAD wherever both were. -/
theorem restoreHead_orderly (head : Head) :
    Survives (orderly diff) (fun _ => True)
      (Commanded fun _ d' => d' = { d with fence := head, head := head })
      (restoreHead head) d := by
  intro i
  refine ⟨trivial, ?_⟩
  simp only [orderly, Stmt.orderly, exec]
  cases i.fails with
  | some text =>
      trivial
  | none =>
      exact fun j => ⟨trivial, fun k => ⟨trivial, rfl⟩⟩

theorem gitHead_orderly :
    Survives (orderly diff) (fun _ => True)
      (Commanded fun head d' => head = d.head ∧ d' = d) gitHead d :=
  fun _ => ⟨trivial, commanded_answer ⟨rfl, rfl⟩⟩

/-- The fence at HEAD is what the stage asks for. -/
theorem assertWorkspaceHead_orderly (h : d.fence = d.head) :
    Survives (orderly diff) (fun _ => True)
      (Commanded fun head d' => head = d.head ∧ d' = d) assertWorkspaceHead d := by
  refine fun i => ⟨trivial, ?_⟩
  refine commanded_bind gitHead_orderly ?_ (fun _ _ => trivial)
  rintro _ d' ⟨rfl, rfl⟩
  change Survives _ _ _ (if d'.head ≠ d'.fence then _ else _) _
  rw [if_neg (not_not.mpr h.symm)]
  exact ⟨rfl, rfl⟩

/-- What returns with the fence at HEAD lands. -/
theorem lands_of_commanded {R : α → Durable → Prop} {s : Script α}
    (hs : Survives (orderly diff) (fun _ => True) (Commanded R) s d)
    (hR : ∀ a d, R a d → d.fence = d.head) : Lands diff s d := by
  refine hs.mono ?_
  rintro (e | a) d' h
  · cases e with
    | command text => exact Landed.error rfl
    | _ => cases h
  · exact Landed.ok (hR a d' h)

theorem fenced_assertWorkspaceHead : Fenced diff assertWorkspaceHead := by
  intro d h
  refine lands_of_commanded (assertWorkspaceHead_orderly h) ?_
  rintro _ _ ⟨-, rfl⟩
  exact h

theorem lands_restoreHead (head : Head) : Lands diff (restoreHead head) d := by
  refine lands_of_commanded (restoreHead_orderly head) ?_
  rintro _ _ rfl
  rfl

theorem lands_abandon (p : Progress) (head : Head) :
    Lands diff (abandon p head) d :=
  (lands_restoreHead head).bind fun _ =>
    (fenced_writeJournal _).bind fun _ => Fenced.ret _

theorem lands_completeRevert (p : Progress) (r : Revert) :
    Lands diff (completeRevert p r) d :=
  (lands_restoreHead r.target).bind fun _ =>
    (fenced_writeJournal _).bind fun _ => Fenced.ret _

/-- The fence is written last, so it stands at HEAD where the commit returns. -/
theorem fenced_commit : Fenced diff commit := by
  have hrecord : ∀ d, Lands diff
      (gitHead >>= fun sha => .step (.writeFence sha) fun _ => .ret sha) d := by
    intro d i
    refine ⟨trivial, ?_⟩
    simp only [orderly, Stmt.orderly, exec, Input.answer]
    cases i.fails with
    | some text => exact Landed.error rfl
    | none => exact fun j => ⟨trivial, Landed.ok rfl⟩
  refine fenced_assertWorkspaceHead.bind fun _ => ?_
  refine Fenced.bind
    (Fenced.step (fun _ _ => ⟨rfl, rfl⟩) (fun _ _ => Fenced.answer _ _)) ?_
  intro staged
  cases staged with
  | false =>
      exact fun d _ => hrecord d
  | true =>
      -- the commit itself moves HEAD away from the fence
      intro d _ i
      refine ⟨trivial, ?_⟩
      simp only [orderly, Stmt.orderly, exec, Input.answer]
      cases i.fails with
      | some text => exact Landed.error rfl
      | none => exact hrecord _

theorem fenced_settle (plan : Plan) (p : Progress) (a : Attempt) (after : Head) :
    Fenced diff (settle plan p a after) := by
  unfold settle
  split
  · unfold settleNode
    split
    · exact Fenced.raise rfl
    · refine (fenced_changedPaths _ _).bind fun changed => ?_
      dsimp only
      split
      · exact fun d _ => (lands_abandon _ _).bind fun _ => Fenced.raise rfl
      · exact (fenced_writeJournal _).bind fun _ => Fenced.ret _
  · unfold settleRepair
    refine Fenced.bind ?_ fun escaped => ?_
    · unfold escapedPaths
      split
      · exact Fenced.ret _
      · exact (fenced_changedPaths _ _).bind fun _ => Fenced.ret _
    · split
      · exact fun d _ => (lands_abandon _ _).bind fun _ => Fenced.raise rfl
      · exact (fenced_writeJournal _).bind fun _ => Fenced.ret _

theorem fenced_attempt (plan : Plan) (p : Progress) (kind : AttemptKind)
    (stage : String) : Fenced diff (attempt plan p kind stage) := by
  refine fenced_assertWorkspaceHead.bind fun before => ?_
  refine (fenced_writeJournal _).bind fun _ => ?_
  intro d h
  have hwork : Fenced diff
      ((.step (.agent stage (p.begin kind before).agentCalls) fun a =>
        .ofExcept a : Script Unit) >>= fun _ => commit) :=
    Fenced.bind
      (Fenced.step (fun _ _ => ⟨rfl, rfl⟩) (fun _ _ => Fenced.answer _ _))
      (fun _ => fenced_commit)
  refine Survives.finish (hwork d h) ?_
  rintro (e | after) d₁ ⟨hfence, herr⟩
  · exact (lands_abandon _ _).bind fun _ => Fenced.raise (herr e rfl)
  · exact fenced_settle _ _ _ _ d₁ (hfence after rfl)

theorem fenced_runNodes (plan : Plan) (layer : Nat) (nodes : List Work.WorkNode)
    (p : Progress) : Fenced diff (runNodes plan layer nodes p) := by
  induction nodes generalizing p with
  | nil =>
      exact Fenced.ret p
  | cons node rest ih =>
      exact (fenced_attempt plan p _ _).bind ih

theorem fenced_checkDependencies (p : Progress) (nodes : List Work.WorkNode) :
    Fenced diff (checkDependencies p nodes) := by
  induction nodes with
  | nil =>
      exact Fenced.ret ()
  | cons node rest ih =>
      unfold checkDependencies
      split
      · exact Fenced.raise rfl
      · exact ih

theorem fenced_runLayers (plan : Plan) (ws : List Work.WorkWave) (p : Progress) :
    Fenced diff (runLayers plan ws p) := by
  induction ws generalizing p with
  | nil =>
      exact Fenced.ret p
  | cons wave rest ih =>
      refine (fenced_checkDependencies _ _).bind fun _ => ?_
      split
      · exact ih p
      · refine Fenced.bind ?_ fun _ => (fenced_runNodes _ _ _ _).bind ih
        exact (fenced_writeJournal _).bind fun _ => Fenced.ret _

theorem fenced_executeNodes (plan : Plan) (p : Progress) :
    Fenced diff (executeNodes plan p) := by
  unfold executeNodes
  split
  · exact Fenced.raise rfl
  · exact fenced_runLayers _ _ _

theorem fenced_seedBest (p : Progress) (tests : TestResult) :
    Fenced diff (judge.seedBest p tests) := by
  unfold judge.seedBest
  split
  · exact (fenced_writeJournal _).bind fun _ => Fenced.ret _
  · split
    · exact Fenced.raise rfl
    · exact Fenced.ret _

theorem fenced_judge (p : Progress) (tests : TestResult) :
    Fenced diff (judge p tests) := by
  unfold judge
  split
  · split
    · dsimp only
      split
      · refine (fenced_writeJournal _).bind fun _ d _ => ?_
        exact (lands_completeRevert _ _).bind fun _ => Fenced.ret _
      · exact (fenced_writeJournal _).bind fun _ => Fenced.ret _
    · exact fenced_seedBest p tests
  · exact fenced_seedBest p tests

theorem fenced_verify (p : Progress) : Fenced diff (verify p) := by
  refine Fenced.bind
    (Fenced.step (fun _ _ => ⟨rfl, rfl⟩) (fun _ _ => Fenced.answer _ _)) ?_
  intro tests
  refine (fenced_writeJournal _).bind fun _ => ?_
  refine (fenced_judge _ tests).bind fun q => ?_
  refine Fenced.bind
    (Fenced.step (fun _ _ => ⟨rfl, rfl⟩) (fun _ _ => Fenced.answer _ _)) ?_
  exact fun _ => Fenced.ret _

theorem fenced_repairLoop (cfg : Config) (plan : Plan) (fuel : Nat)
    (p : Progress) : Fenced diff (repairLoop cfg plan fuel p) := by
  induction fuel generalizing p with
  | zero =>
      exact Fenced.raise rfl
  | succ fuel ih =>
      unfold repairLoop
      split
      · refine (fenced_attempt _ _ _ _).bind fun q => ?_
        refine (fenced_verify q).bind fun verified => ?_
        obtain ⟨q', green⟩ := verified
        dsimp only
        split
        · exact Fenced.ret q'
        · exact ih q'
      · exact Fenced.raise rfl

end Orderly

section Opening

variable {diff : Head → Head → List String} {plan : Plan} {cfg : Config}
variable {d : Durable} {p : Progress}

/-- The record agrees with HEAD, or a journalled revert explains where HEAD is. -/
def Durable.recognised (d : Durable) : Prop :=
  d.fence = d.head ∨
  ∃ p r, d.journal = some p ∧ p.revert = some r ∧
    (d.head = r.start ∨ d.head = r.target)

/-- A revert is driven to its target. -/
theorem completeRevert_orderly (p : Progress) (r : Revert) :
    Survives (orderly diff) (fun _ => True)
      (Commanded fun _ d' => d'.fence = d'.head ∧
        ∀ p, d'.journal = some p → p.revert = none)
      (completeRevert p r) d := by
  refine commanded_bind (restoreHead_orderly r.target) ?_ (fun _ _ => trivial)
  rintro _ _ rfl i
  refine ⟨trivial, rfl, ?_⟩
  rintro _ ⟨⟩
  rfl

theorem finishRevert_orderly (h : Journalled diff plan cfg d)
    (hrecognised : d.recognised) :
    Survives (orderly diff) (fun _ => True)
      (Commanded fun _ d' => d'.fence = d'.head ∧
        ∀ p, d'.journal = some p → p.revert = none)
      (finishRevert plan) d := by
  refine fun i => ⟨trivial, ?_⟩
  simp only [orderly, exec]
  cases hp : d.journal with
  | none =>
      refine ⟨?_, by simp [hp]⟩
      rcases hrecognised with hfence | ⟨p, r, hp', -⟩
      · exact hfence
      · cases hp.symm.trans hp'
  | some p =>
      dsimp only
      rw [if_neg (not_not.mpr (h.exact p hp).digest)]
      cases hrevert : p.revert with
      | none =>
          refine ⟨?_, ?_⟩
          · rcases hrecognised with hfence | ⟨p', r, hp', hr, -⟩
            · exact hfence
            · cases hp.symm.trans hp'
              rw [hrevert] at hr
              cases hr
          · intro p' hp'
            cases hp.symm.trans hp'
            exact hrevert
      | some r =>
          have hends := h.ends p r hp hrevert
          have hhead : d.head = r.start ∨ d.head = r.target := by
            rcases hrecognised with hfence | ⟨p', r', hp', hr', hhead⟩
            · rwa [← hfence]
            · cases hp.symm.trans hp'
              cases hrevert.symm.trans hr'
              exact hhead
          refine fun j => ⟨trivial, ?_⟩
          change Survives _ _ _
            (if d.fence ≠ r.start ∧ d.fence ≠ r.target then _ else _) _
          rw [if_neg (by tauto)]
          refine commanded_bind gitHead_orderly ?_ (fun _ _ => trivial)
          rintro _ d₁ ⟨rfl, rfl⟩
          rw [if_neg (by tauto)]
          refine commanded_bind (completeRevert_orderly p r) ?_ (fun _ _ => trivial)
          exact fun _ _ hready => hready

/-- Records with the fence at HEAD and no revert pass every check. -/
theorem loadProgress_orderly (h : Journalled diff plan cfg d)
    (hfence : d.fence = d.head)
    (hrevert : ∀ p, d.journal = some p → p.revert = none) :
    Survives (orderly diff) (fun _ => True)
      (Commanded fun q d' => d' = d ∧
        (d.journal = none ∧ q.attempt = none ∨ d.journal = some q))
      (loadProgress plan d.head) d := by
  refine fun i => ⟨trivial, ?_⟩
  simp only [orderly, exec]
  cases hp : d.journal with
  | none =>
      exact ⟨rfl, .inl ⟨rfl, rfl⟩⟩
  | some p =>
      have hexact := h.exact p hp
      dsimp only
      rw [if_neg (not_not.mpr hexact.digest), if_neg (not_not.mpr (hrevert p hp)),
        if_neg, if_neg]
      · exact ⟨rfl, .inr rfl⟩
      · have := hexact.counted
        omega
      · rintro ⟨hmoved, hforeign⟩
        cases hattempt : p.attempt with
        | none =>
            exact hmoved ((h.fenced p hp (hrevert p hp) hattempt).symm.trans hfence)
        | some a =>
            apply hforeign
            simp [hattempt, (hexact.underWay a hattempt).1]

theorem settled_of_journal (h : d.journal = some p) (hattempt : p.attempt = none) :
    d.settled := by
  intro q hq
  cases h.symm.trans hq
  exact hattempt

theorem abandon_orderly (p : Progress) (head : Head) :
    Survives (orderly diff) (fun _ => True)
      (Commanded fun q d' => q.attempt = none ∧ d'.settled) (abandon p head) d := by
  refine commanded_bind (restoreHead_orderly head) ?_ (fun _ _ => trivial)
  rintro _ _ rfl i
  exact ⟨trivial, rfl, settled_of_journal rfl rfl⟩

theorem changedPaths_orderly (before after : Head) :
    Survives (orderly diff) (fun _ => True) (Commanded fun _ d' => d' = d)
      (changedPaths before after) d := by
  refine commanded_bind (R := fun _ d' => d' = d)
    (fun i => ⟨trivial, commanded_answer rfl⟩) ?_ (fun _ _ => trivial)
  rintro _ _ rfl
  exact rfl

/-- The attempt becomes a receipt, or it is struck for what it has changed. -/
theorem settle_orderly {a : Attempt} (h : Busy diff plan cfg p a d) (after : Head) :
    Survives (orderly diff) (fun _ => True)
      (Opened fun q d' => q.attempt = none ∧ d'.settled)
      (settle plan p a after) d := by
  have hdue := (h.exact.underWay a h.attempt).2.2
  unfold settle
  split
  · next id layer hkind =>
      rw [hkind] at hdue
      obtain ⟨-, -, node, hnode, -⟩ := hdue
      simp only [settleNode, hnode]
      refine commanded_bind (changedPaths_orderly _ _) ?_ (fun _ _ => trivial)
      rintro changed _ rfl
      split
      · refine commanded_bind (abandon_orderly _ _) ?_ (fun _ _ => trivial)
        rintro _ d₁ ⟨-, hsettled⟩
        exact hsettled
      · exact fun i => ⟨trivial, rfl, settled_of_journal rfl rfl⟩
  · unfold settleRepair
    refine commanded_bind (R := fun _ d' => d' = d) ?_ ?_ (fun _ _ => trivial)
    · unfold escapedPaths
      split
      · exact rfl
      · refine commanded_bind (changedPaths_orderly _ _) ?_ (fun _ _ => trivial)
        rintro _ _ rfl
        exact rfl
    · rintro escaped _ rfl
      split
      · refine commanded_bind (abandon_orderly _ _) ?_ (fun _ _ => trivial)
        rintro _ d₁ ⟨-, hsettled⟩
        exact hsettled
      · exact fun i => ⟨trivial, rfl, settled_of_journal rfl rfl⟩

theorem opened_of_commanded {R : Progress → Durable → Prop} {s : Script Progress}
    (hs : Survives (orderly diff) (fun _ => True) (Commanded R) s d) :
    Survives (orderly diff) (fun _ => True) (Opened R) s d := by
  refine hs.mono ?_
  rintro (e | a) d' h
  · cases e with
    | command text => trivial
    | _ => cases h
  · exact h

theorem orderly_less (s : Stmt) (i : Input) (d : Durable) :
    ∃ j, orderly diff s i d = exec diff s j d :=
  ⟨s.orderly i, rfl⟩

/-- Recognised records open, with the fence at HEAD and the attempt settled. -/
theorem openProgress_orderly (h : Journalled diff plan cfg d)
    (hrecognised : d.recognised) :
    Survives (orderly diff) (fun _ => True)
      (fun r d' => Landed r d' ∧
        Opened (fun q d' => q.attempt = none ∧ d'.settled) r d')
      (openProgress plan) d := by
  have hfails : ∀ text (d : Durable),
      Landed (.error (.command text) : Except StageError Progress) d ∧
      Opened (fun q d' => q.attempt = none ∧ d'.settled)
        (.error (.command text)) d :=
    fun _ _ => ⟨Landed.error rfl, trivial⟩
  -- the records stay journalled, and the revert is finished
  have hready : Survives (orderly diff) (fun _ => True)
      (Commanded fun _ d' => Journalled diff plan cfg d' ∧ d'.fence = d'.head ∧
        ∀ p, d'.journal = some p → p.revert = none) (finishRevert plan) d := by
    refine (((finishRevert_spec h).restrict orderly_less).conj
      (finishRevert_orderly h hrecognised)).ends.mono ?_
    rintro (e | u) d' ⟨hpost, hcommanded⟩
    · cases e <;> exact hcommanded
    · exact ⟨hpost u rfl, hcommanded⟩
  refine commanded_bind hready ?_ hfails
  rintro _ d₁ ⟨h₁, hfence, hrevert⟩
  refine commanded_bind (assertWorkspaceHead_orderly hfence) ?_ hfails
  rintro _ d₂ ⟨rfl, rfl⟩
  refine commanded_bind (loadProgress_orderly h₁ hfence hrevert) ?_ hfails
  rintro q d₃ ⟨rfl, hjournal⟩
  cases hattempt : q.attempt with
  | none =>
      refine ⟨Landed.ok hfence, hattempt, ?_⟩
      rcases hjournal with ⟨hnone, -⟩ | hsome
      · intro p hp
        cases hnone.symm.trans hp
      · exact settled_of_journal hsome hattempt
  | some a =>
      have hsome : d₃.journal = some q := by
        rcases hjournal with ⟨-, hnone⟩ | hsome
        · cases hattempt.symm.trans hnone
        · exact hsome
      have hbusy : Busy diff plan cfg q a d₃ := ⟨h₁, hsome, hattempt⟩
      dsimp only
      split
      · exact ((lands_abandon _ _).conj
          (opened_of_commanded (abandon_orderly _ _))).ends
      · exact ((fenced_settle _ _ _ _ d₃ hfence).conj
          (settle_orderly hbusy _)).ends

theorem resumable_of_recognised (h : Journalled diff plan cfg d)
    (hrecognised : d.recognised) : Resumable diff plan cfg d where
  opens := (openProgress_orderly h hrecognised).mono fun _ _ hpost => hpost.2
  accepts := by
    have hlands : Lands diff (buildAndTest cfg plan) d := by
      refine Lands.bind
        ((openProgress_orderly h hrecognised).mono fun _ _ hpost => hpost.1) ?_
      intro p
      refine (fenced_executeNodes plan p).bind fun p' => ?_
      refine (fenced_verify p').bind fun ⟨q, green⟩ => ?_
      dsimp only
      split
      · exact Fenced.ret q
      · exact fenced_repairLoop _ _ _ _
    exact hlands.mono fun _ _ hpost => hpost.accepts

/-- Nothing is decided by the outside. -/
def quiet (diff : Head → Head → List String) :
    Machine.Effect Stmt Ans Durable Input :=
  fun s _ d => exec diff s {} d

/-- Records that are not recognised are refused as drifted. -/
theorem openProgress_refuses (h : Journalled diff plan cfg d)
    (hforeign : ¬ d.recognised) :
    Survives (quiet diff) (fun _ => True)
      (fun r _ => r = .error (.drifted d.fence d.head)) (openProgress plan) d := by
  have hfence : d.head ≠ d.fence := fun heq => hforeign (.inl heq.symm)
  have hassert : Survives (quiet diff) (fun _ => True)
      (fun r _ => r = .error (.drifted d.fence d.head)) assertWorkspaceHead d := by
    refine fun _ => ⟨trivial, fun _ => ⟨trivial, ?_⟩⟩
    change Survives _ _ _ (if d.head ≠ d.fence then _ else _) _
    rw [if_pos hfence]
    exact rfl
  refine Survives.bind (Q := fun r d' => r = .ok () ∧ d' = d) ?_ ?_ ?_
  · refine fun _ => ⟨trivial, ?_⟩
    simp only [quiet, exec]
    cases hp : d.journal with
    | none =>
        exact ⟨rfl, rfl⟩
    | some p =>
        dsimp only
        rw [if_neg (not_not.mpr (h.exact p hp).digest)]
        cases hrevert : p.revert with
        | none =>
            exact ⟨rfl, rfl⟩
        | some r =>
            have hends := h.ends p r hp hrevert
            have hhead : ¬ (d.head = r.start ∨ d.head = r.target) :=
              fun hhead => hforeign (.inr ⟨p, r, hp, hrevert, hhead⟩)
            refine fun _ => ⟨trivial, ?_⟩
            change Survives _ _ _
              (if d.fence ≠ r.start ∧ d.fence ≠ r.target then _ else _) _
            rw [if_neg (by tauto)]
            refine fun _ => ⟨trivial, ?_⟩
            change Survives _ _ _
              (if d.head ≠ r.start ∧ d.head ≠ r.target then _ else _) _
            rw [if_pos (by tauto)]
            exact ⟨rfl, rfl⟩
  · rintro _ _ ⟨-, rfl⟩
    refine Survives.bind hassert ?_ ?_
    · rintro _ _ ⟨⟩
    · rintro _ _ ⟨⟩
      rfl
  · rintro _ _ ⟨⟨⟩, -⟩

theorem not_resumable_of_foreign (h : Journalled diff plan cfg d)
    (hforeign : ¬ d.recognised) : ¬ Resumable diff plan cfg d := by
  intro hresumable
  have hquiet : ∀ s (i : Input) d, ∃ j, quiet diff s i d = orderly diff s j d := by
    intro s i d
    exact ⟨{}, by cases s <;> rfl⟩
  have hboth := (hresumable.opens.restrict hquiet).conj
    (openProgress_refuses h hforeign)
  have hnever : ∀ r (d' : Durable),
      Opened (fun q d' => q.attempt = none ∧ d'.settled) r d' ∧
        r = .error (.drifted d.fence d.head) → False := by
    rintro _ d' ⟨hopened, rfl⟩
    exact hopened
  have : Nonempty Input := ⟨{}⟩
  exact (hboth.mono hnever).elim

end Opening

section Crashes

/--
**Which crashes can be resumed.**  The stage may be killed anywhere and as
often as it likes: the next life goes on exactly from the records it
recognises, where the fence is HEAD or HEAD is an end of a journalled revert.
-/
theorem crash_resumable_iff (diff : Head → Head → List String) (plan : Plan)
    (cfg : Config) (fence head : Head) (sessions : List (List Input)) :
    let d := Machine.lives (exec diff) (buildAndTest cfg plan)
      { fence := fence, head := head } sessions
    Resumable diff plan cfg d ↔ d.recognised := by
  intro d
  have h : Journalled diff plan cfg d :=
    lives_journalled diff plan cfg fence head sessions
  constructor
  · intro hresumable
    by_contra hforeign
    exact not_resumable_of_foreign h hforeign hresumable
  · exact resumable_of_recognised h

theorem Durable.not_recognised {d : Durable} (hfence : d.fence ≠ d.head)
    (hrevert : d.journal.bind (·.revert) = none) : ¬ d.recognised := by
  rintro (heq | ⟨p, r, hp, hr, -⟩)
  · exact hfence heq
  · rw [hp] at hrevert
    cases hr.symm.trans hrevert

def base : Head := { sha := "a0" }

def candidate : Head := { sha := "b1" }

/-- A plan with one node, which may change one file. -/
def lonePlan : Plan where
  work :=
    [{ id := "api", dependsOn := [], files := ["api.py"], parallelSafe := false }]
  digest := "d"
  guarded := fun _ => false

/-- The node's commit changes a file that it has not declared. -/
def strayDiff (_ _ : Head) : List String :=
  ["stray.py"]

/-- An orderly first life that is killed after so many statements. -/
def killedAfter (statements : Nat) : Durable :=
  Machine.lives (orderly strayDiff) (buildAndTest {} lonePlan)
    { fence := base, head := base }
    [List.replicate statements { moved := some candidate }]

/--
A life that is killed between `git commit` and the record of its HEAD, and one
that is killed between the reset of a commit outside its scope and the record
of that reset.
-/
theorem crash_not_resumable :
    ¬ Resumable strayDiff lonePlan {} (killedAfter 13) ∧
    ¬ Resumable strayDiff lonePlan {} (killedAfter 17) := by
  have hforeign : ∀ n, (killedAfter n).fence ≠ (killedAfter n).head →
      (killedAfter n).journal.bind (·.revert) = none →
      ¬ Resumable strayDiff lonePlan {} (killedAfter n) := by
    intro n hfence hrevert
    refine not_resumable_of_foreign ?_ (Durable.not_recognised hfence hrevert)
    exact Survives.sessions
      (fun _ h => (buildAndTest_spec h).restrict orderly_less)
      (Journalled.start strayDiff lonePlan {} base base) _
  constructor
  · exact hforeign 13 (by decide +kernel) (by decide +kernel)
  · exact hforeign 17 (by decide +kernel) (by decide +kernel)

end Crashes

end Build
end SwFactory
