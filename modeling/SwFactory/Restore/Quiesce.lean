import Mathlib.Logic.Function.Basic
import Mathlib.Tactic.Tauto
import SwFactory.Machine.Parallel

/-!
# Restore contract: the quiesced stores

A backup reads the version of every store, takes the write lock of every store,
and reads the versions again; writers commit in between, to any store whose
lock is not held.  A version counts the commits, so two equal readings have no
commit between them: what the stores held behind the last of the first
readings is what they hold under the locks.

`past` is no part of the program: it keeps what the stores held together, from
moment to moment.

Source: `restore_contract.py` (`quiesce`, `create_backup`, `_backup_sqlite`).
-/

namespace SwFactory
namespace Restore
namespace Quiesce

open Machine

variable {ι χ β : Type}

/-- One store: what is committed, the number of commits, and whether the backup locks it. -/
structure Database (χ : Type) where
  content : χ
  version : Nat
  fenced : Bool

structure World (ι χ : Type) where
  stores : ι → Database χ
  past : List (ι → χ)
  copies : List (ι × χ)

/-- What the stores hold together. -/
def World.contents (w : World ι χ) : ι → χ :=
  fun i => (w.stores i).content

inductive Stmt (ι : Type)
  | connect (path : ι)
  /-- `PRAGMA data_version` -/
  | dataVersion (path : ι)
  | beginImmediate (path : ι)
  | backup (path : ι)
  | rollback (path : ι)
  | close (path : ι)

abbrev Ans (χ : Type) : Stmt ι → Type
  | .connect _ => Bool
  | .dataVersion _ => Nat
  | .beginImmediate _ => Bool
  | .backup _ => χ
  | .rollback _ => Unit
  | .close _ => Unit

/-- What the outside contributes to a statement: what the writers commit in front of it, and
whether the store can be opened or locked. -/
structure Input (ι χ : Type) where
  commits : List (ι × χ)
  granted : Bool

/-- `BackupRefused`, or what the body raises. -/
inductive Refused (ι : Type)
  | cannotOpen (path : ι)
  | cannotQuiesce (path : ι)
  | committed (paths : List ι)
  | inBody

section Effects

variable [DecidableEq ι]

/-- A writer commits, unless the store is locked. -/
def commit (w : World ι χ) (c : ι × χ) : World ι χ :=
  if (w.stores c.1).fenced then w
  else
    let stores := Function.update w.stores c.1 ⟨c.2, (w.stores c.1).version + 1, false⟩
    { w with stores := stores, past := (fun i => (stores i).content) :: w.past }

/-- Take the write lock of a store, or give it back. -/
def World.fence (w : World ι χ) (path : ι) (held : Bool) : World ι χ :=
  { w with stores := Function.update w.stores path { w.stores path with fenced := held } }

def exec : Effect (Stmt ι) (Ans χ) (World ι χ) (Input ι χ)
  | .connect _, i, w => (i.granted, i.commits.foldl commit w)
  | .dataVersion path, i, w =>
      let w := i.commits.foldl commit w
      ((w.stores path).version, w)
  | .beginImmediate path, i, w =>
      let w := i.commits.foldl commit w
      if i.granted && !(w.stores path).fenced then (true, w.fence path true)
      else (false, w)
  | .backup path, i, w =>
      let w := i.commits.foldl commit w
      ((w.stores path).content, { w with copies := (path, (w.stores path).content) :: w.copies })
  | .rollback path, i, w => (⟨⟩, (i.commits.foldl commit w).fence path false)
  | .close _, i, w => (⟨⟩, i.commits.foldl commit w)

end Effects

/-! ## The program -/

abbrev Script (ι χ β : Type) := Prog (Stmt ι) (Ans χ) (Refused ι) β

section Program

variable [DecidableEq ι]

/-- The connections, each closed again wherever the rest ends. -/
def opening : List ι → Script ι χ β → Script ι χ β
  | [], rest => rest
  | path :: paths, rest => do
      let opened ← Prog.perform (.connect path)
      if opened then
        (opening paths rest).finish (fun r => do
          let _ ← Prog.perform (.close path)
          .ofExcept r)
      else
        .raise (.cannotOpen path)

/-- `before` -/
def versions : List ι → (ι → Nat) → Script ι χ (ι → Nat)
  | [], before => .ret before
  | path :: paths, before => do
      let version ← Prog.perform (.dataVersion path)
      versions paths (Function.update before path version)

/-- The locks, each given back wherever the rest ends. -/
def fencing : List ι → Script ι χ β → Script ι χ β
  | [], rest => rest
  | path :: paths, rest => do
      let locked ← Prog.perform (.beginImmediate path)
      if locked then
        (fencing paths rest).finish (fun r => do
          let _ ← Prog.perform (.rollback path)
          .ofExcept r)
      else
        .raise (.cannotQuiesce path)

/-- `moved` -/
def movedStores (before : ι → Nat) : List ι → Script ι χ (List ι)
  | [] => .ret []
  | path :: paths => do
      let version ← Prog.perform (.dataVersion path)
      let rest ← movedStores before paths
      .ret (if version = before path then rest else path :: rest)

/-- `quiesce` around a body, the versions read, the locks taken and the versions compared
in any orders. -/
def quiesceInOrder (connects reads locks checks : List ι) (body : Script ι χ β) :
    Script ι χ β :=
  opening connects (do
    let before ← versions reads (fun _ => 0)
    fencing locks (do
      let moved ← movedStores before checks
      if moved.isEmpty then body else .raise (.committed moved)))

/-- `quiesce`: everything in the sorted order. -/
def quiesce (le : ι → ι → Bool) (paths : List ι) (body : Script ι χ β) : Script ι χ β :=
  let ordered := paths.mergeSort le
  quiesceInOrder ordered ordered ordered ordered body

/-- The copies of `create_backup`. -/
def copyStores : List ι → Script ι χ Unit
  | [] => .ret ⟨⟩
  | path :: paths => do
      let _ ← Prog.perform (.backup path)
      copyStores paths

end Program

/-- A body that does nothing to the stores but copy those that are locked. -/
def Copying (paths : List ι) : Script ι χ β → Prop
  | .ret _ => True
  | .raise _ => True
  | .step (.backup path) rest => path ∈ paths ∧ ∀ content, Copying paths (rest content)
  | .step _ _ => False

/-! ## What writers do -/

section Writers

/-- How the stores go on while only writers act. -/
structure Evolves (w w' : World ι χ) : Prop where
  held : ∀ i, (w.stores i).fenced = true → w'.stores i = w.stores i
  version : ∀ i, (w.stores i).version ≤ (w'.stores i).version
  content : ∀ i, (w'.stores i).version = (w.stores i).version →
    (w'.stores i).content = (w.stores i).content
  past : ∀ m ∈ w.past, m ∈ w'.past
  present : w.contents ∈ w.past → w'.contents ∈ w'.past
  copies : w'.copies = w.copies

theorem Evolves.refl (w : World ι χ) : Evolves w w :=
  ⟨fun _ _ => rfl, fun _ => Nat.le_refl _, fun _ _ => rfl, fun _ h => h, fun h => h, rfl⟩

theorem Evolves.trans {w₁ w₂ w₃ : World ι χ} (h : Evolves w₁ w₂) (h' : Evolves w₂ w₃) :
    Evolves w₁ w₃ where
  held i hi := by
    have hsame := h.held i hi
    rw [h'.held i (hsame ▸ hi), hsame]
  version i := Nat.le_trans (h.version i) (h'.version i)
  content i hi := by
    have hmid : (w₂.stores i).version = (w₁.stores i).version :=
      Nat.le_antisymm (hi ▸ h'.version i) (h.version i)
    rw [h'.content i (hi.trans hmid.symm), h.content i hmid]
  past m hm := h'.past m (h.past m hm)
  present hm := h'.present (h.present hm)
  copies := h'.copies.trans h.copies

variable [DecidableEq ι]

theorem evolves_commit (w : World ι χ) (c : ι × χ) : Evolves w (commit w c) := by
  unfold commit
  split
  · exact .refl w
  · next hfree =>
      refine ⟨fun i hi => ?_, fun i => ?_, fun i hi => ?_, fun m hm => List.mem_cons_of_mem _ hm,
        fun _ => List.mem_cons_self, rfl⟩
      · have hne : i ≠ c.1 := by
          rintro rfl
          exact hfree hi
        exact Function.update_of_ne hne _ _
      · by_cases hi : i = c.1
        · subst hi
          simp
        · simp [Function.update_of_ne hi]
      · by_cases heq : i = c.1
        · subst heq
          simp at hi
        · simp [Function.update_of_ne heq]

theorem evolves_commits (w : World ι χ) (cs : List (ι × χ)) : Evolves w (cs.foldl commit w) := by
  induction cs generalizing w with
  | nil => exact .refl w
  | cons c cs ih => exact (evolves_commit w c).trans (ih _)

end Writers

/-! ## The moment -/

section Moment

/-- What the copies see, the stores held together at one moment. -/
def OneInstant (w : World ι χ) : Prop :=
  ∃ moment ∈ w.past, ∀ c ∈ w.copies, moment c.1 = c.2

theorem OneInstant.evolves {w w' : World ι χ} (h : OneInstant w) (hw : Evolves w w') :
    OneInstant w' := by
  obtain ⟨moment, hpast, hcopies⟩ := h
  exact ⟨moment, hw.past moment hpast, hw.copies ▸ hcopies⟩

/-- Before anything is copied. -/
structure Fresh (w : World ι χ) : Prop where
  present : w.contents ∈ w.past
  copies : w.copies = []

theorem OneInstant.fence [DecidableEq ι] {w : World ι χ} (h : OneInstant w) (path : ι)
    (held : Bool) : OneInstant (w.fence path held) :=
  h

theorem Fresh.evolves {w w' : World ι χ} (h : Fresh w) (hw : Evolves w w') : Fresh w' :=
  ⟨hw.present h.present, hw.copies.trans h.copies⟩

theorem Fresh.oneInstant {w : World ι χ} (h : Fresh w) : OneInstant w :=
  ⟨w.contents, h.present, by simp [h.copies]⟩

/-- Nothing has been copied since the moment `m`. -/
structure Since (m w : World ι χ) : Prop where
  version : ∀ i, (m.stores i).version ≤ (w.stores i).version
  content : ∀ i, (w.stores i).version = (m.stores i).version →
    (w.stores i).content = (m.stores i).content
  past : m.contents ∈ w.past
  copies : w.copies = []

theorem Since.refl {w : World ι χ} (h : Fresh w) : Since w w :=
  ⟨fun _ => Nat.le_refl _, fun _ _ => rfl, h.present, h.copies⟩

theorem Since.evolves {m w w' : World ι χ} (h : Since m w) (hw : Evolves w w') : Since m w' where
  version i := Nat.le_trans (h.version i) (hw.version i)
  content i hi := by
    have hmid : (w.stores i).version = (m.stores i).version :=
      Nat.le_antisymm (hi ▸ hw.version i) (h.version i)
    rw [hw.content i (hi.trans hmid.symm), h.content i hmid]
  past := hw.past _ h.past
  copies := hw.copies.trans h.copies

theorem Since.fence [DecidableEq ι] {m w : World ι χ} (h : Since m w) (path : ι) (held : Bool) :
    Since m (w.fence path held) := by
  have hsame (i : ι) : ((w.fence path held).stores i).version = (w.stores i).version ∧
      ((w.fence path held).stores i).content = (w.stores i).content := by
    unfold World.fence
    by_cases hi : i = path
    · subst hi
      simp
    · simp [Function.update_of_ne hi]
  refine ⟨fun i => ?_, fun i hi => ?_, h.past, h.copies⟩
  · rw [(hsame i).1]
    exact h.version i
  · rw [(hsame i).2]
    exact h.content i ((hsame i).1 ▸ hi)

theorem Since.oneInstant {m w : World ι χ} (h : Since m w) : OneInstant w :=
  ⟨m.contents, h.past, by simp [h.copies]⟩

/-- The locks of the stores are held. -/
def Fenced (paths : List ι) (w : World ι χ) : Prop :=
  ∀ i ∈ paths, (w.stores i).fenced = true

theorem Fenced.evolves {paths : List ι} {w w' : World ι χ} (h : Fenced paths w)
    (hw : Evolves w w') : Fenced paths w' :=
  fun i hi => by rw [hw.held i (h i hi), h i hi]

theorem Fenced.fence [DecidableEq ι] {paths : List ι} {w : World ι χ} (h : Fenced paths w) (path : ι) :
    Fenced (path :: paths) (w.fence path true) := by
  intro i hi
  unfold World.fence
  by_cases heq : i = path
  · subst heq
    simp
  · simpa [Function.update_of_ne heq] using h i ((List.mem_cons.mp hi).resolve_left heq)

/-- The locked stores hold what they held at the moment `m`, and so do the copies. -/
structure Steady (paths : List ι) (m w : World ι χ) : Prop where
  fenced : Fenced paths w
  content : ∀ i ∈ paths, (w.stores i).content = m.contents i
  past : m.contents ∈ w.past
  copies : ∀ c ∈ w.copies, m.contents c.1 = c.2

theorem Steady.evolves {paths : List ι} {m w w' : World ι χ} (h : Steady paths m w)
    (hw : Evolves w w') : Steady paths m w' :=
  ⟨h.fenced.evolves hw, fun i hi => by rw [hw.held i (h.fenced i hi), h.content i hi],
    hw.past _ h.past, hw.copies ▸ h.copies⟩

theorem Steady.oneInstant {paths : List ι} {m w : World ι χ} (h : Steady paths m w) :
    OneInstant w :=
  ⟨m.contents, h.past, h.copies⟩

end Moment

/-! ## The run of the program -/

section Runs

variable [DecidableEq ι]

/-- The copies are of one instant behind every statement, and `Q` holds where the program
ends. -/
abbrev Leads (Q : Except (Refused ι) β → World ι χ → Prop) (p : Script ι χ β)
    (w : World ι χ) : Prop :=
  Secure exec (fun _ _ _ => True) Eq (fun _ w' => OneInstant w') Q p w

theorem Leads.step {Q : Except (Refused ι) β → World ι χ → Prop} {s : Stmt ι}
    {k : Ans χ s → Script ι χ β} {w : World ι χ}
    (h : ∀ i, OneInstant (exec s i w).2 ∧ Leads Q (k (exec s i w).1) (exec s i w).2) :
    Leads Q (Prog.perform s >>= k) w := by
  rintro _ rfl i -
  exact h i

theorem Leads.ofExcept {Q : Except (Refused ι) β → World ι χ → Prop}
    {r : Except (Refused ι) β} {w : World ι χ} (h : Q r w) :
    Leads Q (Prog.ofExcept r) w := by
  cases r with
  | ok a => exact fun _ hw => hw ▸ h
  | error e => exact fun _ hw => hw ▸ h

/-- What the statement of a clean-up leaves. -/
theorem Leads.release {p : Script ι χ β} {w : World ι χ} {s : Stmt ι}
    (hs : ∀ (i : Input ι χ) w, OneInstant w → OneInstant (exec s i w).2)
    (h : Leads (fun _ => OneInstant) p w) :
    Leads (fun _ => OneInstant) (p.finish (fun r => do
      let _ ← Prog.perform s
      .ofExcept r)) w :=
  Secure.finish (fun _ => rfl) h fun _ w hw =>
    Leads.step fun i => ⟨hs i w hw, Leads.ofExcept (hs i w hw)⟩

theorem opening_leads {rest : Script ι χ β}
    (hrest : ∀ w, Fresh w → Leads (fun _ => OneInstant) rest w) (paths : List ι) :
    ∀ w, Fresh w → Leads (fun _ => OneInstant) (opening paths rest) w := by
  induction paths with
  | nil => exact hrest
  | cons path paths ih =>
      intro w hw
      refine Leads.step fun i => ?_
      have hfresh := hw.evolves (evolves_commits w i.commits)
      refine ⟨hfresh.oneInstant, ?_⟩
      split
      · exact Leads.release (fun i w h => h.evolves (evolves_commits w i.commits)) (ih _ hfresh)
      · exact fun _ heq => heq ▸ hfresh.oneInstant

theorem versions_leads (reads : List ι) :
    ∀ (done : List ι) (before : ι → Nat) (w : World ι χ), Fresh w →
      (∀ i ∈ done, before i ≤ (w.stores i).version) →
      Leads (fun r w => ∃ before, r = .ok before ∧ Fresh w ∧
        ∀ i ∈ reads ++ done, before i ≤ (w.stores i).version) (versions reads before) w := by
  induction reads with
  | nil =>
      intro done before w hw hbefore
      exact fun _ heq => heq ▸ ⟨before, rfl, hw, hbefore⟩
  | cons path reads ih =>
      intro done before w hw hbefore
      refine Leads.step fun i => ?_
      have hwriters := evolves_commits w i.commits
      have hnext := ih (path :: done)
        (Function.update before path ((i.commits.foldl commit w).stores path).version) _
        (hw.evolves hwriters) (fun j hj => by
          by_cases hjp : j = path
          · subst hjp
            exact Nat.le_of_eq (Function.update_self _ _ _)
          · rw [Function.update_of_ne hjp]
            exact Nat.le_trans (hbefore j ((List.mem_cons.mp hj).resolve_left hjp))
              (hwriters.version j))
      refine ⟨(hw.evolves hwriters).oneInstant, Secure.mono hnext (fun _ _ h => h) ?_⟩
      rintro r w' ⟨before', rfl, hfresh, hle⟩
      refine ⟨before', rfl, hfresh, fun j hj => hle j ?_⟩
      simp only [List.cons_append, List.mem_cons, List.mem_append] at hj ⊢
      tauto

theorem fencing_leads {m : World ι χ} {rest : Script ι χ β} {all : List ι}
    (hrest : ∀ w, Since m w → Fenced all w → Leads (fun _ => OneInstant) rest w)
    (paths : List ι) :
    ∀ (done : List ι) (w : World ι χ), (∀ i ∈ all, i ∈ paths ++ done) → Since m w →
      Fenced done w → Leads (fun _ => OneInstant) (fencing paths rest) w := by
  induction paths with
  | nil => exact fun done w hall hsince hfenced => hrest w hsince (fun i hi => hfenced i (hall i hi))
  | cons path paths ih =>
      intro done w hall hsince hfenced
      refine Leads.step fun i => ?_
      have hwriters := evolves_commits w i.commits
      have hsince' := hsince.evolves hwriters
      have hfenced' := hfenced.evolves hwriters
      dsimp only [exec]
      split
      · refine ⟨(hsince'.fence path true).oneInstant, ?_⟩
        refine Leads.release (fun i w h => ?_)
          (ih (path :: done) _ (fun j hj => ?_) (hsince'.fence path true) (hfenced'.fence path))
        · exact (h.evolves (evolves_commits w i.commits)).fence path false
        · have hmem := hall j hj
          simp only [List.cons_append, List.mem_cons, List.mem_append] at hmem ⊢
          tauto
      · exact ⟨hsince'.oneInstant, fun _ heq => heq ▸ hsince'.oneInstant⟩

omit [DecidableEq ι] in
/-- A store whose version has not moved since it was read holds what it held at the moment. -/
theorem Since.content_of_version {m w : World ι χ} {before : ι → Nat} {path : ι}
    (h : Since m w) (hbefore : before path ≤ (m.stores path).version)
    (hversion : (w.stores path).version = before path) :
    (w.stores path).content = m.contents path :=
  h.content path (Nat.le_antisymm (hversion ▸ hbefore) (h.version path))

theorem movedStores_leads {m : World ι χ} {before : ι → Nat} {paths : List ι}
    (hbefore : ∀ i ∈ paths, before i ≤ (m.stores i).version) (checks : List ι) :
    ∀ w, (∀ i ∈ checks, i ∈ paths) → Since m w → Fenced paths w →
      Leads (fun r w' => ∃ moved, r = .ok moved ∧ Since m w' ∧
        (∀ i ∈ paths, w'.stores i = w.stores i) ∧
        (moved = [] → ∀ i ∈ checks, (w.stores i).content = m.contents i))
        (movedStores before checks) w := by
  induction checks with
  | nil =>
      intro w _ hsince hfenced
      exact fun _ heq => heq ▸ ⟨[], rfl, hsince, fun _ _ => rfl,
        fun _ i hi => absurd hi List.not_mem_nil⟩
  | cons path checks ih =>
      intro w hchecks hsince hfenced
      refine Leads.step fun i => ?_
      have hwriters := evolves_commits w i.commits
      have hheld : ∀ j ∈ paths, (i.commits.foldl commit w).stores j = w.stores j :=
        fun j hj => hwriters.held j (hfenced j hj)
      have hpath := hchecks path List.mem_cons_self
      refine ⟨(hsince.evolves hwriters).oneInstant, ?_⟩
      refine Secure.bind (fun _ => rfl)
        (ih (i.commits.foldl commit w) (fun j hj => hchecks j (List.mem_cons_of_mem _ hj))
          (hsince.evolves hwriters) (hfenced.evolves hwriters)) ?_ ?_
      · rintro rest w' ⟨moved, heq, hsince', hsame, hcontent⟩
        cases heq
        rintro _ rfl
        refine ⟨_, rfl, hsince', fun j hj => (hsame j hj).trans (hheld j hj), ?_⟩
        intro hnone j hj
        split at hnone
        · next hversion =>
            rcases List.mem_cons.mp hj with rfl | hj
            · rw [← hheld j hpath]
              exact (hsince.evolves hwriters).content_of_version (hbefore j hpath) hversion
            · rw [← hheld j (hchecks j (List.mem_cons_of_mem _ hj))]
              exact hcontent hnone j hj
        · cases hnone
      · rintro e w' ⟨moved, heq, -⟩
        cases heq

theorem copying_leads {m : World ι χ} {paths : List ι} (body : Script ι χ β) :
    ∀ w, Copying paths body → Steady paths m w →
      Leads (fun _ => OneInstant) body w := by
  induction body with
  | ret b => exact fun w _ hw _ heq => heq ▸ hw.oneInstant
  | raise e => exact fun w _ hw _ heq => heq ▸ hw.oneInstant
  | step s rest ih =>
      cases s with
      | backup path =>
          rintro w ⟨hpath, hrest⟩ hw _ rfl i -
          have hsteady := hw.evolves (evolves_commits w i.commits)
          have hcopied : Steady paths m (exec (.backup path) i w).2 := by
            refine ⟨hsteady.fenced, hsteady.content, hsteady.past, fun c hc => ?_⟩
            rcases List.mem_cons.mp hc with rfl | hc
            · exact (hsteady.content path hpath).symm
            · exact hsteady.copies c hc
          exact ⟨hcopied.oneInstant, ih _ _ (hrest _) hcopied⟩
      | _ => exact fun w h => absurd h id

/-- What every run of the window leaves, in whatever order the stores are gone through. -/
theorem quiesceInOrder_leads {connects reads locks checks paths : List ι}
    {body : Script ι χ β} {w : World ι χ} (hbody : Copying paths body)
    (hreads : ∀ i ∈ paths, i ∈ reads) (hlocks : ∀ i ∈ paths, i ∈ locks)
    (hchecks : ∀ i, i ∈ checks ↔ i ∈ paths) (hw : Fresh w) :
    Leads (fun _ => OneInstant) (quiesceInOrder connects reads locks checks body) w := by
  refine opening_leads (fun w hw => ?_) connects w hw
  refine Secure.bind (fun _ => rfl)
    (versions_leads reads [] (fun _ => 0) w hw (fun i hi => absurd hi List.not_mem_nil)) ?_ ?_
  · -- the moment is the one behind the last reading
    rintro before m ⟨_, heq, hfresh, hbefore⟩
    cases heq
    have hbefore' : ∀ i ∈ paths, before i ≤ (m.stores i).version :=
      fun i hi => hbefore i (List.mem_append_left _ (hreads i hi))
    refine fencing_leads (fun w hsince hfenced => ?_) locks [] m
      (fun i hi => List.mem_append_left _ (hlocks i hi)) (.refl hfresh)
      (fun i hi => absurd hi List.not_mem_nil)
    refine Secure.bind (fun _ => rfl)
      (movedStores_leads hbefore' checks w (fun i hi => (hchecks i).mp hi) hsince hfenced) ?_ ?_
    · rintro moved w' ⟨_, heq, hsince', hsame, hcontent⟩
      cases heq
      split
      · next hnone =>
          refine copying_leads body w' hbody ⟨fun i hi => ?_, fun i hi => ?_, hsince'.past, ?_⟩
          · rw [hsame i hi]
            exact hfenced i hi
          · rw [hsame i hi]
            exact hcontent (List.isEmpty_iff.mp hnone) i ((hchecks i).mpr hi)
          · simp [hsince'.copies]
      · exact fun _ heq => heq ▸ hsince'.oneInstant
    · rintro e w' ⟨_, heq, -⟩
      cases heq
  · rintro e w' ⟨_, heq, -⟩
    cases heq

end Runs

/-- The body of `create_backup` copies the stores that are locked. -/
theorem copying_copyStores {paths : List ι} (stores : List ι) (h : ∀ i ∈ stores, i ∈ paths) :
    Copying (χ := χ) paths (copyStores stores) := by
  induction stores with
  | nil => trivial
  | cons path stores ih =>
      exact ⟨h path List.mem_cons_self, fun _ => ih fun i hi => h i (List.mem_cons_of_mem _ hi)⟩

/-- Two stores whose writers commit before the versions are read, and try to again later. -/
def busy : List (Input Bool Nat) :=
  [⟨[(false, 1)], true⟩, ⟨[], true⟩, ⟨[], true⟩, ⟨[(true, 2)], true⟩, ⟨[], true⟩, ⟨[], true⟩,
    ⟨[], true⟩, ⟨[], true⟩, ⟨[(false, 3)], true⟩, ⟨[(true, 4)], true⟩]

def empty : World Bool Nat where
  stores _ := ⟨0, 0, false⟩
  past := [fun _ => 0]
  copies := []

end Quiesce
end Restore
end SwFactory
