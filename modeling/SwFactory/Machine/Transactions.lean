import SwFactory.Machine.Interaction

/-!
# Connections to one database

Any number of connections perform single statements on one database.  A
writing statement of a connection that is in no transaction opens one, and with
it takes the write lock; the connection then works on a draft that nobody else
sees until `commit` makes it the committed state.  A reading statement outside
of a transaction sees the committed state and opens nothing.  While another
connection holds the lock a writing statement is refused.

`Keeps` says of one connection's program, by recursion over its statements,
that each transaction it commits takes the committed state `base` to a draft
with `Commits base draft`, and that nothing is written afterwards.
`Engine.sound` is the rule: programs that keep to this alone keep to it in
every interleaving, so the committed states of a run are those of the
transactions performed one after the other.
-/

namespace SwFactory
namespace Machine

/-- The statements of a connection; `call` leaves the database alone. -/
inductive Sql (W X : Type)
  | read
  | write (w : W)
  | commit
  | rollback
  | call (x : X)

section Databases

variable {D W X ι ε α β : Type}
variable {WAns : W → Type}
variable {XAns : X → Type}

variable (D WAns XAns) in
/-- What a statement answers; a refused `write` answers `none`. -/
@[reducible] def Sql.Ans : Sql W X → Type
  | read => D
  | write w => Option (WAns w)
  | commit => Unit
  | rollback => Unit
  | call x => XAns x

/--
The committed state, the connection that holds the write lock with its draft,
and the connections that have committed, latest first.  The last is no part of
a database: the properties talk about it.
-/
structure Db (D : Type) where
  committed : D
  writer : Option (Nat × D) := none
  log : List Nat := []

/-- The state that connection `p` sees. -/
def Db.view (p : Nat) (db : Db D) : D :=
  match db.writer with
  | some (q, draft) => if q = p then draft else db.committed
  | none => db.committed

/-- The transaction of connection `p` ends without effect, if there is one. -/
def Db.rollback (p : Nat) (db : Db D) : Db D :=
  match db.writer with
  | some (q, _) => if q = p then { db with writer := none } else db
  | none => db

/-- The draft of connection `p` becomes the committed state. -/
def Db.commit (p : Nat) (db : Db D) : Db D :=
  match db.writer with
  | some (q, draft) =>
      if q = p then ⟨draft, none, p :: db.log⟩ else db
  | none => db

variable (D WAns XAns ι) in
/-- The meaning of writing statements, and of the calls that leave. -/
structure Engine where
  apply : (w : W) → D → WAns w × D
  answer : (x : X) → ι → XAns x

variable (E : Engine D ι WAns XAns)

/-- A writing statement on a draft of connection `p`. -/
def Engine.draft (p : Nat) (w : W) (draft : D) (db : Db D) :
    Option (WAns w) × Db D :=
  (some (E.apply w draft).1, { db with writer := some (p, (E.apply w draft).2) })

/-- A writing statement of connection `p`. -/
def Engine.write (p : Nat) (w : W) (db : Db D) : Option (WAns w) × Db D :=
  match db.writer with
  | some (q, draft) => if q = p then E.draft p w draft db else (none, db)
  | none => E.draft p w db.committed db

/-- The connections as a system of interleaved processes. -/
def Engine.system : System (Sql W X) (Sql.Ans D WAns XAns) (Db D) ι where
  exec p s input db :=
    match s with
    | .read => (db.view p, db)
    | .write w => E.write p w db
    | .commit => ((), db.commit p)
    | .rollback => ((), db.rollback p)
    | .call x => (E.answer x input, db)
  crash p db := db.rollback p

/-- `with db:`, which commits behind the body or rolls back behind an error. -/
def withDb
    (body : Prog (Sql W X) (Sql.Ans D WAns XAns) ε α) :
    Prog (Sql W X) (Sql.Ans D WAns XAns) ε α :=
  body.finish (fun
    | .ok a => .step .commit (fun _ => .ret a)
    | .error e => .step .rollback (fun _ => .raise e))

/-- Where a connection stands: its one transaction is to come, open or done. -/
inductive Phase (D : Type)
  | before
  | inside (base draft : D)
  | after

section Keeping

variable (Commits : D → D → Prop)

/--
The program commits at most one transaction, which is as `Commits` says, writes
nothing behind it, and ends in a phase and with a result that `R` accepts.
-/
def Keeps (R : Phase D → Except ε α → Prop) :
    Phase D → Prog (Sql W X) (Sql.Ans D WAns XAns) ε α → Prop
  | phase, .ret a => R phase (.ok a)
  | phase, .raise e => R phase (.error e)
  | .before, .step .read k => ∀ d, Keeps R .before (k d)
  | .before, .step (.write w) k =>
      Keeps R .before (k none) ∧
        ∀ base, Keeps R (.inside base (E.apply w base).2)
          (k (some (E.apply w base).1))
  | .before, .step .commit k => Keeps R .before (k ())
  | .before, .step .rollback k => Keeps R .before (k ())
  | .before, .step (.call _) k => ∀ a, Keeps R .before (k a)
  | .inside base draft, .step .read k => Keeps R (.inside base draft) (k draft)
  | .inside base draft, .step (.write w) k =>
      Keeps R (.inside base (E.apply w draft).2) (k (some (E.apply w draft).1))
  | .inside base draft, .step .commit k =>
      Commits base draft ∧ Keeps R .after (k ())
  | .inside _ _, .step .rollback k => Keeps R .before (k ())
  | .inside base draft, .step (.call _) k =>
      ∀ a, Keeps R (.inside base draft) (k a)
  | .after, .step .read k => ∀ d, Keeps R .after (k d)
  | .after, .step (.write _) _ => False
  | .after, .step .commit k => Keeps R .after (k ())
  | .after, .step .rollback k => Keeps R .after (k ())
  | .after, .step (.call _) k => ∀ a, Keeps R .after (k a)

/-- No transaction is left open, and only `late` errors follow a commit. -/
def Ends (late : ε → Prop) : Phase D → Except ε α → Prop
  | .before, _ => True
  | .inside _ _, _ => False
  | .after, .ok _ => True
  | .after, .error e => late e

/-- In a block, an error may end a transaction; a value satisfies `Q`. -/
def Until (late : ε → Prop) (Q : Phase D → α → Prop) :
    Phase D → Except ε α → Prop
  | phase, .ok a => Q phase a
  | .before, .error _ => True
  | .inside _ _, .error _ => True
  | .after, .error e => late e

/-- The end of a block is one its `with db:` may commit. -/
def Committable : Phase D → α → Prop
  | .inside base draft, _ => Commits base draft
  | .before, _ => True
  | .after, _ => True

variable {E Commits}
variable {R : Phase D → Except ε α → Prop}

/-- **Composition.**  A program that goes on from where another one ends. -/
theorem Keeps.finish
    {ε' : Type}
    {S : Phase D → Except ε' β → Prop}
    {prog : Prog (Sql W X) (Sql.Ans D WAns XAns) ε α}
    {f : Except ε α → Prog (Sql W X) (Sql.Ans D WAns XAns) ε' β}
    {phase : Phase D}
    (h : Keeps E Commits R phase prog)
    (hend : ∀ phase result, R phase result →
      Keeps E Commits S phase (f result)) :
    Keeps E Commits S phase (prog.finish f) := by
  induction prog generalizing phase with
  | ret a => exact hend phase _ h
  | raise e => exact hend phase _ h
  | step s k ih =>
      cases s with
      | read =>
          cases phase with
          | before => exact fun d => ih d (h d)
          | inside base draft => exact ih draft h
          | after => exact fun d => ih d (h d)
      | write w =>
          cases phase with
          | before => exact ⟨ih none h.1, fun base => ih _ (h.2 base)⟩
          | inside base draft => exact ih _ h
          | after => exact h
      | commit =>
          cases phase with
          | before => exact ih () h
          | inside base draft => exact ⟨h.1, ih () h.2⟩
          | after => exact ih () h
      | rollback =>
          cases phase with
          | before => exact ih () h
          | inside base draft => exact ih () h
          | after => exact ih () h
      | call x =>
          cases phase with
          | before => exact fun a => ih a (h a)
          | inside base draft => exact fun a => ih a (h a)
          | after => exact fun a => ih a (h a)

/-- Sequential composition in a block. -/
theorem Keeps.bind
    {late : ε → Prop}
    {P : Phase D → α → Prop}
    {Q : Phase D → β → Prop}
    {prog : Prog (Sql W X) (Sql.Ans D WAns XAns) ε α}
    {f : α → Prog (Sql W X) (Sql.Ans D WAns XAns) ε β}
    {phase : Phase D}
    (h : Keeps E Commits (Until late P) phase prog)
    (hok : ∀ phase a, P phase a →
      Keeps E Commits (Until late Q) phase (f a)) :
    Keeps E Commits (Until late Q) phase (prog >>= f) := by
  rw [Prog.bind_eq_finish]
  refine h.finish (fun phase result hresult => ?_)
  cases result with
  | ok a => exact hok phase a hresult
  | error e => cases phase <;> exact hresult

/-- Sequential composition outside of a block. -/
theorem Keeps.bind_ends
    {late : ε → Prop}
    {prog : Prog (Sql W X) (Sql.Ans D WAns XAns) ε α}
    {f : α → Prog (Sql W X) (Sql.Ans D WAns XAns) ε β}
    {phase : Phase D}
    (h : Keeps E Commits (Ends late) phase prog)
    (hbefore : ∀ a, Keeps E Commits (Ends late) .before (f a))
    (hafter : ∀ a, Keeps E Commits (Ends late) .after (f a)) :
    Keeps E Commits (Ends late) phase (prog >>= f) := by
  rw [Prog.bind_eq_finish]
  refine h.finish (fun phase result hresult => ?_)
  cases phase with
  | before =>
      cases result with
      | ok a => exact hbefore a
      | error e => exact hresult
  | inside base draft => exact hresult.elim
  | after =>
      cases result with
      | ok a => exact hafter a
      | error e => exact hresult

/-- The block of `with db:`. -/
theorem Keeps.withDb
    {late : ε → Prop}
    {prog : Prog (Sql W X) (Sql.Ans D WAns XAns) ε α}
    {phase : Phase D}
    (h : Keeps E Commits (Until late (Committable Commits)) phase prog) :
    Keeps E Commits (Ends late) phase (withDb prog) := by
  refine h.finish (fun phase result hresult => ?_)
  cases phase with
  | before => cases result <;> trivial
  | inside base draft =>
      cases result with
      | ok a => exact ⟨hresult, trivial⟩
      | error e => trivial
  | after =>
      cases result with
      | ok a => trivial
      | error e => exact hresult

theorem Until.mono
    {late : ε → Prop}
    {P Q : Phase D → α → Prop}
    (himp : ∀ phase a, P phase a → Q phase a)
    {phase : Phase D} {result : Except ε α}
    (h : Until late P phase result) : Until late Q phase result := by
  cases result with
  | ok a => cases phase <;> exact himp _ a h
  | error e => cases phase <;> exact h

/-- A weaker end. -/
theorem Keeps.mono
    {S : Phase D → Except ε α → Prop}
    {prog : Prog (Sql W X) (Sql.Ans D WAns XAns) ε α}
    {phase : Phase D}
    (h : Keeps E Commits R phase prog)
    (himp : ∀ phase result, R phase result → S phase result) :
    Keeps E Commits S phase prog := by
  rw [← Prog.finish_ofExcept prog]
  refine h.finish (fun phase result hresult => ?_)
  cases result with
  | ok a => cases phase <;> exact himp _ _ hresult
  | error e => cases phase <;> exact himp _ _ hresult

end Keeping

/-- The phase connection `p` is in. -/
def Db.phase (p : Nat) (db : Db D) : Phase D :=
  match db.writer with
  | some (q, draft) =>
      if q = p then .inside db.committed draft
      else if p ∈ db.log then .after else .before
  | none => if p ∈ db.log then .after else .before

section Soundness

variable {Commits : Nat → D → D → Prop}
variable {late : ε → Prop}

/-- Every connection keeps to its transaction from the phase it is in. -/
structure Sound
    (Commits : Nat → D → D → Prop) (late : ε → Prop)
    (c : Config (Sql W X) (Sql.Ans D WAns XAns) ε α (Db D)) : Prop where
  /-- The holder of the lock has not committed yet. -/
  first : ∀ p draft, c.shared.writer = some (p, draft) → p ∉ c.shared.log
  keeps : ∀ p prog, c.procs p = .running prog →
    Keeps E (Commits p) (Ends late) (c.shared.phase p) prog

theorem Db.phase_writer {p : Nat} {db : Db D} {draft : D}
    (h : db.writer = some (p, draft)) :
    db.phase p = .inside db.committed draft := by
  simp [Db.phase, h]

theorem Db.phase_of_not_writer {p : Nat} {db : Db D}
    (h : ∀ draft, db.writer ≠ some (p, draft)) :
    db.phase p = if p ∈ db.log then .after else .before := by
  unfold Db.phase
  split
  · rename_i q draft hw
    have hq : q ≠ p := fun heq => h draft (heq ▸ hw)
    rw [if_neg hq]
  · rfl

/-- Everything connection `p` can do to the database in one step. -/
inductive Db.Change (p : Nat) (db : Db D) : Db D → Prop
  | same : Db.Change p db db
  | write (draft : D) (free : ∀ q draft', db.writer = some (q, draft') → q = p) :
      Db.Change p db { db with writer := some (p, draft) }
  | rollback (draft : D) (held : db.writer = some (p, draft)) :
      Db.Change p db { db with writer := none }
  | commit (draft : D) (held : db.writer = some (p, draft)) :
      Db.Change p db ⟨draft, none, p :: db.log⟩

theorem Db.change_rollback (p : Nat) (db : Db D) :
    Db.Change p db (db.rollback p) := by
  unfold Db.rollback
  split
  · rename_i q draft hw
    split
    · rename_i hq
      subst hq
      exact .rollback draft hw
    · exact .same
  · exact .same

/-- A transaction that ends without effect has none. -/
theorem Db.rollback_committed (p : Nat) (db : Db D) :
    (db.rollback p).committed = db.committed ∧ (db.rollback p).log = db.log := by
  unfold Db.rollback
  split
  · split
    · exact ⟨rfl, rfl⟩
    · exact ⟨rfl, rfl⟩
  · exact ⟨rfl, rfl⟩

/-- A statement writes to a draft. -/
theorem Engine.write_committed (p : Nat) (w : W) (db : Db D) :
    (E.write p w db).2.committed = db.committed ∧
      (E.write p w db).2.log = db.log := by
  unfold Engine.write
  split
  · split
    · exact ⟨rfl, rfl⟩
    · exact ⟨rfl, rfl⟩
  · exact ⟨rfl, rfl⟩

theorem Db.change_commit (p : Nat) (db : Db D) :
    Db.Change p db (db.commit p) := by
  unfold Db.commit
  split
  · rename_i q draft hw
    split
    · rename_i hq
      subst hq
      exact .commit draft hw
    · exact .same
  · exact .same

theorem Engine.change_exec (p : Nat) (s : Sql W X) (input : ι) (db : Db D) :
    Db.Change p db (E.system.exec p s input db).2 := by
  cases s with
  | read => exact .same
  | call x => exact .same
  | commit => exact db.change_commit p
  | rollback => exact db.change_rollback p
  | write w =>
      simp only [Engine.system, Engine.write]
      split
      · rename_i q draft hw
        split
        · rename_i hq
          subst hq
          refine .write _ (fun r draft' hr => ?_)
          rw [hw] at hr
          exact (congrArg Prod.fst (Option.some.inj hr)).symm
        · exact .same
      · rename_i hw
        refine .write _ (fun r draft' hr => ?_)
        rw [hw] at hr
        cases hr

namespace Db.Change

variable {p q : Nat} {db db' : Db D}

/-- A step of one connection leaves the others in their phase. -/
theorem phase_of_ne (h : Db.Change p db db') (hq : p ≠ q) :
    db'.phase q = db.phase q := by
  cases h with
  | same => rfl
  | write draft free =>
      have hw : ∀ draft', db.writer ≠ some (q, draft') :=
        fun draft' hw => hq (free q draft' hw).symm
      rw [Db.phase_of_not_writer hw]
      simp only [Db.phase, if_neg hq]
  | rollback draft held =>
      simp only [Db.phase, held, if_neg hq]
  | commit draft held =>
      simp only [Db.phase, held, if_neg hq, List.mem_cons, Ne.symm hq, false_or]

/-- Only a commit changes the committed state, and the log tells. -/
theorem committed (h : Db.Change p db db') :
    (db'.committed = db.committed ∧ db'.log = db.log) ∨
      ∃ draft, db.writer = some (p, draft) ∧
        db'.committed = draft ∧ db'.log = p :: db.log := by
  cases h with
  | same => exact Or.inl ⟨rfl, rfl⟩
  | write draft free => exact Or.inl ⟨rfl, rfl⟩
  | rollback draft held => exact Or.inl ⟨rfl, rfl⟩
  | commit draft held => exact Or.inr ⟨draft, held, rfl, rfl⟩

/-- The lock goes to a connection that has not committed. -/
theorem first (h : Db.Change p db db')
    (hfirst : ∀ q draft, db.writer = some (q, draft) → q ∉ db.log)
    (hp : db'.writer ≠ db.writer → db'.writer ≠ none → p ∉ db.log) :
    ∀ q draft, db'.writer = some (q, draft) → q ∉ db'.log := by
  intro q draft hq
  cases h with
  | same => exact hfirst q draft hq
  | write draft' free =>
      cases hq
      by_cases hw : db.writer = none
      · exact hp (by simp [hw]) (by simp)
      · obtain ⟨⟨r, draft''⟩, hr⟩ := Option.ne_none_iff_exists'.mp hw
        obtain rfl := free r draft'' hr
        exact hfirst r draft'' hr
  | rollback draft' held => cases hq
  | commit draft' held => cases hq

end Db.Change

theorem Db.rollback_of_not_writer {p : Nat} {db : Db D}
    (h : ∀ draft, db.writer ≠ some (p, draft)) :
    db.rollback p = db := by
  unfold Db.rollback
  split
  · rename_i q draft hw
    have hq : q ≠ p := fun heq => h draft (heq ▸ hw)
    exact if_neg hq
  · rfl

theorem Db.commit_of_not_writer {p : Nat} {db : Db D}
    (h : ∀ draft, db.writer ≠ some (p, draft)) :
    db.commit p = db := by
  unfold Db.commit
  split
  · rename_i q draft hw
    have hq : q ≠ p := fun heq => h draft (heq ▸ hw)
    exact if_neg hq
  · rfl

/-- The statements of a connection that holds the lock. -/
theorem Engine.keeps_inside {p : Nat}
    {s : Sql W X}
    {k : s.Ans D WAns XAns → Prog (Sql W X) (Sql.Ans D WAns XAns) ε α}
    {db : Db D} {draft : D}
    (input : ι)
    (hw : db.writer = some (p, draft))
    (hlog : p ∉ db.log)
    (h : Keeps E (Commits p) (Ends late) (.inside db.committed draft) (.step s k)) :
    Keeps E (Commits p) (Ends late) ((E.system.exec p s input db).2.phase p)
      (k (E.system.exec p s input db).1) := by
  cases s with
  | read =>
      have hview : db.view p = draft := by
        simp [Db.view, hw]
      simpa [Engine.system, hview, Db.phase_writer hw, Keeps] using h
  | write w =>
      have hexec : E.write p w db = E.draft p w draft db := by
        simp [Engine.write, hw]
      simpa [Engine.system, hexec, Engine.draft, Db.phase, Keeps] using h
  | commit =>
      have hexec : db.commit p = ⟨draft, none, p :: db.log⟩ := by
        simp [Db.commit, hw]
      simpa [Engine.system, hexec, Db.phase] using h.2
  | rollback =>
      have hexec : db.rollback p = { db with writer := none } := by
        simp [Db.rollback, hw]
      simpa [Engine.system, hexec, Db.phase, hlog, Keeps] using h
  | call x =>
      simpa [Engine.system, Db.phase_writer hw] using h (E.answer x input)

/-- The statements of a connection that is in no transaction. -/
theorem Engine.keeps_outside {p : Nat}
    {s : Sql W X}
    {k : s.Ans D WAns XAns → Prog (Sql W X) (Sql.Ans D WAns XAns) ε α}
    {db : Db D}
    (input : ι)
    (hw : ∀ draft, db.writer ≠ some (p, draft))
    (h : Keeps E (Commits p) (Ends late) (db.phase p) (.step s k)) :
    Keeps E (Commits p) (Ends late) ((E.system.exec p s input db).2.phase p)
      (k (E.system.exec p s input db).1) := by
  have hphase := Db.phase_of_not_writer hw
  cases s with
  | read =>
      by_cases hlog : p ∈ db.log
      · rw [if_pos hlog] at hphase
        rw [hphase] at h
        simpa [Engine.system, hphase] using h (db.view p)
      · rw [if_neg hlog] at hphase
        rw [hphase] at h
        simpa [Engine.system, hphase] using h (db.view p)
  | write w =>
      by_cases hlog : p ∈ db.log
      · rw [hphase, if_pos hlog] at h
        exact h.elim
      · rw [hphase, if_neg hlog] at h
        cases hfree : db.writer with
        | none =>
            have hexec : E.write p w db = E.draft p w db.committed db := by
              simp [Engine.write, hfree]
            simpa [Engine.system, hexec, Engine.draft, Db.phase] using
              h.2 db.committed
        | some lock =>
            obtain ⟨q, draft⟩ := lock
            have hq : q ≠ p := fun heq => hw draft (heq ▸ hfree)
            have hexec : E.write p w db = (none, db) := by
              simp [Engine.write, hfree, hq]
            simpa [Engine.system, hexec, hphase, hlog] using h.1
  | commit =>
      have hexec := Db.commit_of_not_writer hw
      by_cases hlog : p ∈ db.log
      · rw [if_pos hlog] at hphase
        simpa [Engine.system, hexec, hphase, Keeps] using h
      · rw [if_neg hlog] at hphase
        simpa [Engine.system, hexec, hphase, Keeps] using h
  | rollback =>
      have hexec := Db.rollback_of_not_writer hw
      by_cases hlog : p ∈ db.log
      · rw [if_pos hlog] at hphase
        simpa [Engine.system, hexec, hphase, Keeps] using h
      · rw [if_neg hlog] at hphase
        simpa [Engine.system, hexec, hphase, Keeps] using h
  | call x =>
      by_cases hlog : p ∈ db.log
      · rw [if_pos hlog] at hphase
        rw [hphase] at h
        simpa [Engine.system, hphase] using h (E.answer x input)
      · rw [if_neg hlog] at hphase
        rw [hphase] at h
        simpa [Engine.system, hphase] using h (E.answer x input)

/-- A connection that has committed does not write again. -/
theorem Engine.not_mem_log_of_write {p : Nat}
    {s : Sql W X}
    {k : s.Ans D WAns XAns → Prog (Sql W X) (Sql.Ans D WAns XAns) ε α}
    {db : Db D}
    (input : ι)
    (hfirst : ∀ q draft, db.writer = some (q, draft) → q ∉ db.log)
    (h : Keeps E (Commits p) (Ends late) (db.phase p) (.step s k))
    (hne : (E.system.exec p s input db).2.writer ≠ db.writer)
    (hsome : (E.system.exec p s input db).2.writer ≠ none) :
    p ∉ db.log := by
  intro hlog
  have hw : ∀ draft, db.writer ≠ some (p, draft) :=
    fun draft hw => hfirst p draft hw hlog
  rw [Db.phase_of_not_writer hw, if_pos hlog] at h
  cases s with
  | read => exact hne rfl
  | call x => exact hne rfl
  | write w => exact h
  | commit =>
      exact hne (congrArg Db.writer (Db.commit_of_not_writer hw))
  | rollback =>
      exact hne (congrArg Db.writer (Db.rollback_of_not_writer hw))

/-- One move of a sound system. -/
theorem Engine.sound_step
    {c : Config (Sql W X) (Sql.Ans D WAns XAns) ε α (Db D)}
    (hc : Sound E Commits late c) (m : Move ι) :
    Sound E Commits late (E.system.step c m) := by
  rcases E.system.step_cases c m with
    ⟨-, heq⟩ | ⟨p, i, s, k, rfl, hp, heq⟩ | ⟨p, s, k, rfl, hp, heq⟩
  · rw [heq]
    exact hc
  · have hkeeps := hc.keeps p _ hp
    have hchange := E.change_exec p s i c.shared
    rw [heq]
    refine ⟨hchange.first hc.first
      (E.not_mem_log_of_write i hc.first hkeeps), fun q prog hq => ?_⟩
    by_cases hqp : q = p
    · subst hqp
      obtain rfl : k (E.system.exec q s i c.shared).1 = prog := by
        simpa using hq
      by_cases hw : ∃ draft, c.shared.writer = some (q, draft)
      · obtain ⟨draft, hw⟩ := hw
        rw [Db.phase_writer hw] at hkeeps
        exact E.keeps_inside i hw (hc.first q draft hw) hkeeps
      · exact E.keeps_outside i (fun draft hw' => hw ⟨draft, hw'⟩) hkeeps
    · have hsame : c.procs q = .running prog := by
        simpa [hqp] using hq
      have hphase := hchange.phase_of_ne (Ne.symm hqp)
      dsimp only
      rw [hphase]
      exact hc.keeps q prog hsame
  · have hchange := c.shared.change_rollback p
    rw [heq]
    refine ⟨hchange.first hc.first (fun hne hsome => ?_), fun q prog hq => ?_⟩
    · -- a crash never takes the lock
      unfold Db.rollback at hne hsome
      split at hne
      · split at hne
        · rename_i hq
          simp [*] at hsome
        · exact absurd rfl hne
      · exact absurd rfl hne
    · by_cases hqp : q = p
      · subst hqp
        simp at hq
      · have hsame : c.procs q = .running prog := by
          simpa [hqp] using hq
        have hphase := hchange.phase_of_ne (Ne.symm hqp)
        show Keeps E (Commits q) (Ends late) ((c.shared.rollback p).phase q) prog
        rw [hphase]
        exact hc.keeps q prog hsame

/-- **Soundness.**  A system that is sound stays sound in every interleaving. -/
theorem Engine.sound
    {c : Config (Sql W X) (Sql.Ans D WAns XAns) ε α (Db D)}
    (hc : Sound E Commits late c) (ms : List (Move ι)) :
    EveryState E.system.step (Sound E Commits late) c ms := by
  refine EveryState.of_step (G := fun _ _ => True)
    (fun c m hc _ => E.sound_step hc m) hc ?_
  rw [alongRun_iff]
  intros
  trivial

/-- A connection that commits has the draft its transaction made. -/
theorem Engine.step_committed
    {c : Config (Sql W X) (Sql.Ans D WAns XAns) ε α (Db D)}
    (hc : Sound E Commits late c) (m : Move ι) :
    ((E.system.step c m).shared.committed = c.shared.committed ∧
        (E.system.step c m).shared.log = c.shared.log) ∨
      (Commits m.pid c.shared.committed (E.system.step c m).shared.committed ∧
        (E.system.step c m).shared.log = m.pid :: c.shared.log) := by
  rcases E.system.step_cases c m with
    ⟨-, heq⟩ | ⟨p, i, s, k, rfl, hp, heq⟩ | ⟨p, s, k, rfl, hp, heq⟩
  · rw [heq]
    exact Or.inl ⟨rfl, rfl⟩
  · rw [heq]
    cases s with
    | commit =>
        rcases (c.shared.change_commit p).committed with
          hsame | ⟨draft, hw, hdraft, hlog⟩
        · exact Or.inl hsame
        · have hkeeps := hc.keeps p _ hp
          rw [Db.phase_writer hw] at hkeeps
          refine Or.inr ⟨?_, hlog⟩
          show Commits p c.shared.committed (c.shared.commit p).committed
          rw [hdraft]
          exact hkeeps.1
    | read => exact Or.inl ⟨rfl, rfl⟩
    | call x => exact Or.inl ⟨rfl, rfl⟩
    | rollback => exact Or.inl (c.shared.rollback_committed p)
    | write w => exact Or.inl (E.write_committed p w c.shared)
  · rw [heq]
    exact Or.inl (c.shared.rollback_committed p)

/-- The log of a run only grows. -/
theorem Engine.log_suffix
    {c : Config (Sql W X) (Sql.Ans D WAns XAns) ε α (Db D)}
    (hc : Sound E Commits late c) (ms : List (Move ι)) :
    c.shared.log.IsSuffix (runFrom E.system.step c ms).shared.log := by
  induction ms generalizing c with
  | nil => exact List.suffix_refl _
  | cons m ms ih =>
      refine List.IsSuffix.trans ?_ (ih (E.sound_step hc m))
      rcases E.step_committed hc m with ⟨-, hlog⟩ | ⟨-, hlog⟩
      · exact hlog.symm ▸ List.suffix_refl _
      · rw [hlog]
        exact List.suffix_cons _ _

/--
**Atomicity.**  A connection that ends with an error, other than a `late` one,
has changed the committed state in none of its steps.
-/
theorem Engine.unchanged_of_raise
    {c : Config (Sql W X) (Sql.Ans D WAns XAns) ε α (Db D)}
    (hc : Sound E Commits late c)
    {ms : List (Move ι)} {p : Nat} {e : ε}
    (hend : (runFrom E.system.step c ms).procs p = .running (.raise e))
    (he : ¬ late e) :
    ∀ pre m post, ms = pre ++ m :: post → m.pid = p →
      (E.system.step (runFrom E.system.step c pre) m).shared.committed =
        (runFrom E.system.step c pre).shared.committed := by
  -- the connection has not committed, or its error were a late one
  have hlog : p ∉ (runFrom E.system.step c ms).shared.log := by
    intro hlog
    have hlast := (E.sound hc ms).last
    have hkeeps := hlast.keeps p _ hend
    have hw : ∀ draft,
        (runFrom E.system.step c ms).shared.writer ≠ some (p, draft) :=
      fun draft hw => hlast.first p draft hw hlog
    rw [Db.phase_of_not_writer hw, if_pos hlog] at hkeeps
    exact he hkeeps
  rintro pre m post rfl rfl
  have hsound := (everyState_iff _ _ _ _).mp (E.sound hc _) pre (m :: post) rfl
  rcases E.step_committed hsound m with ⟨hsame, -⟩ | ⟨-, hcommit⟩
  · exact hsame
  · refine absurd ?_ hlog
    rw [runFrom_append, runFrom_cons]
    refine (E.log_suffix (E.sound_step hsound m) post).subset ?_
    rw [hcommit]
    exact List.mem_cons_self

/-- No connection has begun: the system is sound if every program keeps to it. -/
theorem Engine.sound_start
    {c : Config (Sql W X) (Sql.Ans D WAns XAns) ε α (Db D)}
    (hwriter : c.shared.writer = none)
    (hlog : c.shared.log = [])
    (h : ∀ p prog, c.procs p = .running prog →
      Keeps E (Commits p) (Ends late) .before prog) :
    Sound E Commits late c := by
  refine ⟨fun p draft hw => ?_, fun p prog hp => ?_⟩
  · rw [hwriter] at hw
    cases hw
  · rw [Db.phase_of_not_writer (by simp [hwriter]), hlog, if_neg (by simp)]
    exact h p prog hp

/-! ### What a connection reports -/

section Reports

variable {A : α → D → Prop}

/--
The program returns right behind the commit of its transaction, and reports
`A` of the draft it has committed.
-/
def Tells (E : Engine D ι WAns XAns) (A : α → D → Prop) :
    Phase D → Prog (Sql W X) (Sql.Ans D WAns XAns) ε α → Prop
  | _, .ret _ => False
  | _, .raise _ => True
  | .before, .step .read k => ∀ d, Tells E A .before (k d)
  | .before, .step (.write w) k =>
      Tells E A .before (k none) ∧
        ∀ base, Tells E A (.inside base (E.apply w base).2)
          (k (some (E.apply w base).1))
  | .before, .step .commit k => Tells E A .before (k ())
  | .before, .step .rollback k => Tells E A .before (k ())
  | .before, .step (.call _) k => ∀ a, Tells E A .before (k a)
  | .inside base draft, .step .read k => Tells E A (.inside base draft) (k draft)
  | .inside base draft, .step (.write w) k =>
      Tells E A (.inside base (E.apply w draft).2) (k (some (E.apply w draft).1))
  | .inside _ draft, .step .commit k => ∃ a, k () = .ret a ∧ A a draft
  | .inside _ _, .step .rollback k => Tells E A .before (k ())
  | .inside base draft, .step (.call _) k =>
      ∀ a, Tells E A (.inside base draft) (k a)
  | .after, .step _ _ => False

variable {E} in
/-- The block of `with db:` around a body that commits nothing itself. -/
theorem Keeps.tells {late : ε → Prop}
    {prog : Prog (Sql W X) (Sql.Ans D WAns XAns) ε α} {phase : Phase D}
    (hphase : phase ≠ .after)
    (h : Keeps E (fun _ _ => False)
      (Until late fun phase a => ∃ base draft, phase = .inside base draft ∧
        A a draft) phase prog) :
    Tells E A phase (Machine.withDb prog) := by
  have hinside : ∀ base draft : D, Phase.inside base draft ≠ .after := by simp
  have hbefore : (Phase.before : Phase D) ≠ .after := by simp
  induction prog generalizing phase with
  | ret a =>
      obtain ⟨base, draft, rfl, hA⟩ := h
      exact ⟨a, rfl, hA⟩
  | raise e =>
      cases phase with
      | before => trivial
      | inside base draft => trivial
      | after => exact absurd rfl hphase
  | step s k ih =>
      cases s with
      | read =>
          cases phase with
          | before => exact fun d => ih d hphase (h d)
          | inside base draft => exact ih draft hphase h
          | after => exact absurd rfl hphase
      | write w =>
          cases phase with
          | before =>
              exact ⟨ih none hphase h.1, fun base => ih _ (hinside _ _) (h.2 base)⟩
          | inside base draft => exact ih _ (hinside base _) h
          | after => exact absurd rfl hphase
      | commit =>
          cases phase with
          | before => exact ih () hphase h
          | inside base draft => exact h.1.elim
          | after => exact absurd rfl hphase
      | rollback =>
          cases phase with
          | before => exact ih () hphase h
          | inside base draft => exact ih () hbefore h
          | after => exact absurd rfl hphase
      | call x =>
          cases phase with
          | before => exact fun a => ih a hphase (h a)
          | inside base draft => exact fun a => ih a hphase (h a)
          | after => exact absurd rfl hphase

variable {E} in
/-- What is made of the result of a block. -/
theorem Tells.map {B : β → D → Prop} {f : α → β}
    {prog : Prog (Sql W X) (Sql.Ans D WAns XAns) ε α} {phase : Phase D}
    (h : Tells E (fun a => B (f a)) phase prog) :
    Tells E B phase (prog >>= fun a => pure (f a)) := by
  induction prog generalizing phase with
  | ret a =>
      cases phase <;> exact h.elim
  | raise e =>
      cases phase <;> trivial
  | step s k ih =>
      cases s with
      | read =>
          cases phase with
          | before => exact fun d => ih d (h d)
          | inside base draft => exact ih draft h
          | after => exact h
      | write w =>
          cases phase with
          | before => exact ⟨ih none h.1, fun base => ih _ (h.2 base)⟩
          | inside base draft => exact ih _ h
          | after => exact h
      | commit =>
          cases phase with
          | before => exact ih () h
          | inside base draft =>
              obtain ⟨a, hret, hB⟩ := h
              refine ⟨f a, ?_, hB⟩
              change (k () >>= fun a => pure (f a)) = _
              rw [hret]
              rfl
          | after => exact h
      | rollback =>
          cases phase with
          | before => exact ih () h
          | inside base draft => exact ih () h
          | after => exact h
      | call x =>
          cases phase with
          | before => exact fun a => ih a (h a)
          | inside base draft => exact fun a => ih a (h a)
          | after => exact h

/-- Connection `p` is to report, or has reported what is still so. -/
def Reporting (E : Engine D ι WAns XAns) (A : α → D → Prop) (p : Nat)
    (c : Config (Sql W X) (Sql.Ans D WAns XAns) ε α (Db D)) : Prop :=
  ∀ prog, c.procs p = .running prog →
    if p ∈ c.shared.log then ∃ a, prog = .ret a ∧ A a c.shared.committed
    else Tells E A (c.shared.phase p) prog

/-- One statement of a connection that has committed nothing yet. -/
theorem Engine.tells_exec {p : Nat}
    {s : Sql W X}
    {k : s.Ans D WAns XAns → Prog (Sql W X) (Sql.Ans D WAns XAns) ε α}
    {db : Db D}
    (input : ι)
    (hlog : p ∉ db.log)
    (h : Tells E A (db.phase p) (.step s k)) :
    if p ∈ (E.system.exec p s input db).2.log then
      ∃ a, k (E.system.exec p s input db).1 = .ret a ∧
        A a (E.system.exec p s input db).2.committed
    else
      Tells E A ((E.system.exec p s input db).2.phase p)
        (k (E.system.exec p s input db).1) := by
  by_cases hw : ∃ draft, db.writer = some (p, draft)
  · obtain ⟨draft, hw⟩ := hw
    rw [Db.phase_writer hw] at h
    cases s with
    | read =>
        have hview : db.view p = draft := by
          simp [Db.view, hw]
        simpa [Engine.system, hview, hlog, Db.phase_writer hw, Tells] using h
    | write w =>
        have hexec : E.write p w db = E.draft p w draft db := by
          simp [Engine.write, hw]
        simpa [Engine.system, hexec, Engine.draft, Db.phase, hlog, Tells] using h
    | commit =>
        have hexec : db.commit p = ⟨draft, none, p :: db.log⟩ := by
          simp [Db.commit, hw]
        simpa [Engine.system, hexec, Tells] using h
    | rollback =>
        have hexec : db.rollback p = { db with writer := none } := by
          simp [Db.rollback, hw]
        simpa [Engine.system, hexec, Db.phase, hlog, Tells] using h
    | call x =>
        simpa [Engine.system, hlog, Db.phase_writer hw] using h (E.answer x input)
  · have hw : ∀ draft, db.writer ≠ some (p, draft) :=
      fun draft hw' => hw ⟨draft, hw'⟩
    have hphase := Db.phase_of_not_writer hw
    rw [if_neg hlog] at hphase
    rw [hphase] at h
    cases s with
    | read =>
        simpa [Engine.system, hlog, hphase] using h (db.view p)
    | write w =>
        cases hfree : db.writer with
        | none =>
            have hexec : E.write p w db = E.draft p w db.committed db := by
              simp [Engine.write, hfree]
            simpa [Engine.system, hexec, Engine.draft, Db.phase, hlog] using
              h.2 db.committed
        | some lock =>
            obtain ⟨q, draft⟩ := lock
            have hq : q ≠ p := fun heq => hw draft (heq ▸ hfree)
            have hexec : E.write p w db = (none, db) := by
              simp [Engine.write, hfree, hq]
            simpa [Engine.system, hexec, hphase, hlog] using h.1
    | commit =>
        have hexec := Db.commit_of_not_writer hw
        simpa [Engine.system, hexec, hphase, hlog, Tells] using h
    | rollback =>
        have hexec := Db.rollback_of_not_writer hw
        simpa [Engine.system, hexec, hphase, hlog, Tells] using h
    | call x =>
        simpa [Engine.system, hlog, hphase] using h (E.answer x input)

/-- What is reported stays so as long as no commit of the others unsays it. -/
theorem Engine.reporting_step {p : Nat}
    {c : Config (Sql W X) (Sql.Ans D WAns XAns) ε α (Db D)} (m : Move ι)
    (hstable : ∀ a, A a c.shared.committed →
      A a (E.system.step c m).shared.committed)
    (h : Reporting E A p c) :
    Reporting E A p (E.system.step c m) := by
  -- a move of another connection: `p` is in its phase, and its log entry stays
  have hother : ∀ q db procs, q ≠ p → Db.Change q c.shared db →
      (∀ a, A a c.shared.committed → A a db.committed) → procs p = c.procs p →
      Reporting E A p ⟨db, procs⟩ := by
    intro q db procs hqp hchange hstable hprocs prog hp
    have hnow := h prog (hprocs.symm.trans hp)
    have hlog : p ∈ db.log ↔ p ∈ c.shared.log := by
      rcases hchange.committed with ⟨-, hlog⟩ | ⟨draft, -, -, hlog⟩
      · rw [hlog]
      · rw [hlog]
        simp [Ne.symm hqp]
    dsimp only
    rw [hchange.phase_of_ne hqp]
    by_cases hdone : p ∈ c.shared.log
    · rw [if_pos hdone] at hnow
      rw [if_pos (hlog.mpr hdone)]
      obtain ⟨a, ha, hA⟩ := hnow
      exact ⟨a, ha, hstable a hA⟩
    · rw [if_neg hdone] at hnow
      rw [if_neg (fun hmem => hdone (hlog.mp hmem))]
      exact hnow
  rcases E.system.step_cases c m with
    ⟨-, heq⟩ | ⟨q, i, s, k, rfl, hq, heq⟩ | ⟨q, s, k, rfl, hq, heq⟩
  · rw [heq]
    exact h
  · rw [heq] at hstable ⊢
    by_cases hqp : q = p
    · subst hqp
      intro prog hp
      have hnow := h _ hq
      obtain rfl : k (E.system.exec q s i c.shared).1 = prog := by
        simpa using hp
      by_cases hdone : q ∈ c.shared.log
      · rw [if_pos hdone] at hnow
        obtain ⟨a, ha, -⟩ := hnow
        cases ha
      · rw [if_neg hdone] at hnow
        exact E.tells_exec i hdone hnow
    · exact hother q _ _ hqp (E.change_exec q s i c.shared) hstable
        (Function.update_of_ne (Ne.symm hqp) _ _)
  · rw [heq] at hstable ⊢
    by_cases hqp : q = p
    · subst hqp
      intro prog hp
      simp at hp
    · exact hother q _ _ hqp (c.shared.change_rollback q) hstable
        (Function.update_of_ne (Ne.symm hqp) _ _)

variable {E} in
/-- A connection that has returned reports what is committed. -/
theorem Reporting.returned {p : Nat}
    {c : Config (Sql W X) (Sql.Ans D WAns XAns) ε α (Db D)}
    (h : Reporting E A p c) {a : α} (hp : c.procs p = .running (.ret a)) :
    A a c.shared.committed := by
  have hnow := h _ hp
  split at hnow
  · obtain ⟨a', ha, hA⟩ := hnow
    cases ha
    exact hA
  · cases hphase : c.shared.phase p <;> rw [hphase] at hnow <;> exact hnow.elim

end Reports

end Soundness

end Databases

end Machine
end SwFactory
