import Mathlib.Data.List.Perm.Basic
import SwFactory.Machine.Runs
import SwFactory.Terminal.Screen
import SwFactory.Verification.Evidence

/-!
# A session at the screen

Every change that an operator makes passes one question.  A question is put about
what is selected at that moment, it stays as it was put whatever is collected in
the meantime, and only a key that agrees turns it into an effect.

The count of what is outstanding is followed through a whole session, in which the
effects are performed in any order and may answer in any way.

Sources: `rust/crates/swf-tui/src/model.rs`, `effect.rs` and `app.rs`.
-/

namespace SwFactory
namespace Terminal

open Identities
open Machine
open Batch (Gate Decision OpsError)

/-! ## The effects of a turn -/

namespace Effect

/-- Something outside is changed by it. -/
def mutates : Effect → Bool
  | .answer .. | .trigger .. | .stop .. | .removeSandbox .. => true
  | _ => false

/-- It is one of the effects that `inFlight` is raised for. -/
def counted : Effect → Bool
  | .refresh | .verify _ => true
  | e => e.mutates

end Effect

@[simp] theorem effect_mutates (c : Confirm) :
    c.effect.mutates = true := by
  unfold Confirm.effect
  cases c.pending <;> rfl

@[simp] theorem effect_counted (c : Confirm) :
    c.effect.counted = true := by
  unfold Confirm.effect
  cases c.pending <;> rfl

namespace Model

variable {T : Type}
variable (I : Interface T)

/-- No question is put or taken away, nothing outside is changed, and what is asked
for is counted. -/
structure Calm (m : Model T) (r : Model T × List Effect) : Prop where
  confirm : r.1.confirm = m.confirm
  quiet : ∀ e ∈ r.2, e.mutates = false
  tally : r.1.inFlight = m.inFlight + r.2.countP Effect.counted

/-- The question `c` is about what is selected in `m`. -/
def Asked (m : Model T) (c : Confirm) : Prop :=
  match c.pending with
  | .answer id decision revision =>
      (∃ ready, m.subject I = .gate id revision ready) ∧
        c = m.env.answerConfirm id decision revision
  | .stop run =>
      m.selection.job.map JobId.run = some run ∧ ∃ state, c = stopConfirm run state
  | .removeSandbox name =>
      (∃ row, m.currentRow I = some row ∧ row.kind = .sandbox ∧ row.cells[1]? = some name) ∧
        ∃ createdBy, c = removeConfirm name createdBy
  | .trigger dagId issues =>
      (∃ prompt, m.prompt = some prompt ∧ prompt.kind = .triggerIssues dagId ∧
          parseIssues prompt.input = issues) ∧
        issues ≠ [] ∧ c = m.env.triggerConfirm dagId issues

/-- A question is put, and nothing else is asked for. -/
structure Asks (m : Model T) (r : Model T × List Effect) : Prop where
  asked : ∃ c, m.Asked I c ∧ r.1.confirm = some c
  silent : r.2 = []
  tally : r.1.inFlight = m.inFlight

/-! ## What a function of the model leaves alone -/

section Frame

variable (m : Model T)

@[simp] theorem note_confirm (line : Str) :
    (m.note I line).confirm = m.confirm :=
  rfl

@[simp] theorem note_inFlight (line : Str) :
    (m.note I line).inFlight = m.inFlight :=
  rfl

@[simp] theorem select_confirm (key : Str) :
    (m.select key).1.confirm = m.confirm :=
  rfl

@[simp] theorem select_inFlight (key : Str) :
    (m.select key).1.inFlight = m.inFlight :=
  rfl

@[simp] theorem ensureSelection_confirm :
    (m.ensureSelection I).confirm = m.confirm := by
  unfold ensureSelection
  split
  · rfl
  · split <;> rfl

@[simp] theorem ensureSelection_inFlight :
    (m.ensureSelection I).inFlight = m.inFlight := by
  unfold ensureSelection
  split
  · rfl
  · split <;> rfl

end Frame

namespace Calm

variable {I}
variable {m m' : Model T}

/-- A turn that asks for nothing. -/
theorem silent
    (hconfirm : m'.confirm = m.confirm)
    (htally : m'.inFlight = m.inFlight) :
    Calm m (m', []) :=
  ⟨hconfirm, by simp, by simpa using htally⟩

/-- A turn that asks for what only reads, and is not counted. -/
theorem reading
    {effects : List Effect}
    (hconfirm : m'.confirm = m.confirm)
    (htally : m'.inFlight = m.inFlight)
    (hread : ∀ e ∈ effects, e.counted = false) :
    Calm m (m', effects) where
  confirm := hconfirm
  quiet e he := by
    have hcounted := hread e he
    cases e <;> simp_all [Effect.counted, Effect.mutates]
  tally := by
    have hcount : effects.countP Effect.counted = 0 :=
      List.countP_eq_zero.mpr (fun e he => by simp [hread e he])
    simp [htally, hcount]

theorem rfl : Calm m (m, []) :=
  silent (Eq.refl _) (Eq.refl _)

/-- A turn after a change that the question and the count do not see. -/
theorem after
    {r : Model T × List Effect}
    (h : Calm m' r)
    (hconfirm : m'.confirm = m.confirm)
    (htally : m'.inFlight = m.inFlight) :
    Calm m r :=
  ⟨h.confirm.trans hconfirm, h.quiet, h.tally.trans (by rw [htally])⟩

end Calm

/-! ## One turn -/

section Turns

variable (m : Model T)

theorem calm_select (key : Str) :
    Calm m (m.select key) := by
  refine Calm.reading rfl rfl (fun e he => ?_)
  split at he
  · cases he
  · obtain rfl := List.mem_singleton.mp he
    rfl

theorem calm_moveBy (delta : Int) :
    Calm m (m.moveBy I delta) := by
  unfold moveBy
  dsimp only
  split
  · exact calm_select m _
  · exact .rfl

theorem calm_moveToEdge (toLast : Bool) :
    Calm m (m.moveToEdge I toLast) := by
  unfold moveToEdge
  split
  · exact calm_select m _
  · exact .rfl

theorem calm_startRefresh :
    Calm m m.startRefresh where
  confirm := rfl
  quiet e he := by
    obtain rfl := List.mem_singleton.mp he
    rfl
  tally := rfl

theorem calm_browse :
    Calm m (m.browse I) := by
  unfold browse
  dsimp only
  split
  · exact .reading rfl rfl (by simp [Effect.counted, Effect.mutates])
  · exact .reading rfl rfl (by simp [Effect.counted, Effect.mutates])
  · exact .silent rfl rfl

theorem calm_verify :
    Calm m (m.verify I) := by
  unfold verify
  split
  · exact .silent rfl rfl
  · exact ⟨rfl, by simp [Effect.mutates], rfl⟩

theorem calm_logs :
    Calm m (m.logs I) := by
  unfold logs
  split
  · exact .silent rfl rfl
  · exact .reading rfl rfl (by simp [Effect.counted, Effect.mutates])

theorem calm_go (view : View) :
    Calm m (m.go I view) := by
  unfold go
  split
  · exact .rfl
  · refine .reading (by simp) (by simp) ?_
    split <;> simp [Effect.counted, Effect.mutates]

theorem calm_enter :
    Calm m (m.enter I) := by
  unfold enter
  split
  · exact .silent rfl rfl
  · split
    · exact .silent rfl rfl
    · dsimp only
      split
      · split
        · exact .reading rfl rfl (by simp [Effect.counted, Effect.mutates])
        · exact .silent rfl rfl
      · exact .rfl
    · split
      · exact .reading rfl rfl (by simp [Effect.counted, Effect.mutates])
      · exact .silent rfl rfl
    · exact .silent (by simp) (by simp)
    · exact .silent (by simp) (by simp)
    · exact .silent rfl rfl

theorem calm_trigger :
    Calm m m.trigger :=
  .silent rfl rfl

/-- An answer is asked for about the gate that is read, or selected. -/
theorem answer_turn (decision : Decision) :
    Calm m (m.answer I decision) ∨ Asks I m (m.answer I decision) := by
  unfold answer
  split
  · rename_i id revision ready hsubject
    right
    refine ⟨⟨m.env.answerConfirm id decision revision, ⟨⟨ready, hsubject⟩, rfl⟩, ?_⟩, rfl, ?_⟩
    · cases ready <;> rfl
    · cases ready <;> rfl
  · exact .inl (.silent rfl rfl)
  · exact .inl (.silent rfl rfl)

theorem stop_turn :
    Calm m (m.stop I) ∨ Asks I m (m.stop I) := by
  unfold stop
  split
  · exact .inl (.silent rfl rfl)
  · rename_i job hjob
    refine .inr ⟨⟨stopConfirm job.run _, ⟨?_, _, rfl⟩, rfl⟩, rfl, rfl⟩
    rw [hjob, Option.map_some]

theorem removeSandbox_turn :
    Calm m (m.removeSandbox I) ∨ Asks I m (m.removeSandbox I) := by
  unfold removeSandbox
  dsimp only
  split
  · exact .inl (.silent rfl rfl)
  · rename_i name hname
    refine .inr ⟨⟨removeConfirm name _, ⟨?_, _, rfl⟩, rfl⟩, rfl, rfl⟩
    rw [Option.filter_eq_some_iff, Option.map_eq_some_iff] at hname
    obtain ⟨⟨row, hrow, hcell⟩, hne⟩ := hname
    rw [Option.filter_eq_some_iff] at hrow
    refine ⟨row, hrow.1, by simpa using hrow.2, ?_⟩
    cases hsome : row.cells[1]? with
    | none =>
        rw [hsome, Option.getD_none] at hcell
        exact absurd hcell.symm (by simpa using hne)
    | some cell =>
        rw [hsome, Option.getD_some] at hcell
        rw [hcell]

/-- An action of the normal mode, which is also what the palette runs. -/
theorem normalAction_turn (action : Action) :
    Calm m (m.normalAction I action) ∨ Asks I m (m.normalAction I action) := by
  cases action with
  | approve => exact answer_turn I m .approve
  | reject => exact answer_turn I m .reject
  | stop => exact stop_turn I m
  | remove => exact removeSandbox_turn I m
  | quit => exact .inl (.reading rfl rfl (by simp [Effect.counted, Effect.mutates]))
  | refresh => exact .inl ((calm_startRefresh _).after rfl rfl)
  | goView view => exact .inl (calm_go I m view)
  | nextView => exact .inl (calm_go I m _)
  | prevView => exact .inl (calm_go I m _)
  | up => exact .inl (calm_moveBy I m _)
  | down => exact .inl (calm_moveBy I m _)
  | pageUp => exact .inl (calm_moveBy I m _)
  | pageDown => exact .inl (calm_moveBy I m _)
  | top => exact .inl (calm_moveToEdge I m _)
  | bottom => exact .inl (calm_moveToEdge I m _)
  | accept => exact .inl (calm_enter I m)
  | cancel =>
      left
      unfold normalAction
      dsimp only
      split
      · exact calm_go I m _
      · exact .silent (by simp) (by simp)
  | trigger => exact .inl (calm_trigger m)
  | browse => exact .inl (calm_browse I m)
  | verify => exact .inl (calm_verify I m)
  | logs => exact .inl (calm_logs I m)
  | help | toggleLog | palette | search => exact .inl (.silent rfl rfl)
  | char | backspace => exact .inl .rfl

theorem calm_searchAction (action : Action) :
    Calm m (m.searchAction I action) := by
  unfold searchAction
  cases action with
  | char | backspace | accept | cancel => exact .silent (by simp) (by simp)
  | _ => exact .rfl

theorem paletteAction_turn (action : Action) :
    Calm m (m.paletteAction I action) ∨ Asks I m (m.paletteAction I action) := by
  unfold paletteAction
  dsimp only
  cases action with
  | char | backspace | up | cancel => exact .inl (.silent rfl rfl)
  | down =>
      left
      dsimp only
      split
      · exact .silent rfl rfl
      · exact .rfl
  | accept =>
      dsimp only
      split
      · rename_i action' _
        -- the palette is no part of what a question is about
        rcases normalAction_turn I { m with palette := .default } action' with h | h
        · exact .inl (h.after rfl rfl)
        · exact .inr ⟨h.asked, h.silent, h.tally⟩
      · exact .inl (.silent rfl rfl)
  | _ => exact .inl .rfl

theorem promptAction_turn (action : Action) :
    Calm m (m.promptAction I action) ∨ Asks I m (m.promptAction I action) := by
  unfold promptAction
  split
  · exact .inl .rfl
  · rename_i prompt hprompt
    cases action with
    | char | backspace | cancel => exact .inl (.silent rfl rfl)
    | accept =>
        obtain ⟨title, placeholder, input, ⟨dagId⟩⟩ := prompt
        dsimp only
        split
        · exact .inl (.silent rfl rfl)
        · rename_i hissues
          exact .inr ⟨⟨m.env.triggerConfirm dagId (parseIssues input),
            ⟨⟨_, hprompt, rfl, rfl⟩, hissues, rfl⟩, rfl⟩, rfl, rfl⟩
    | _ => exact .inl .rfl

end Turns

/-! ## What a message can do -/

/-- A pass has been collected, or something has failed: `inFlight` is lowered. -/
def lands : Msg T → Bool
  | .snapshot _ | .snapshotWithAttention .. | .failed .. => true
  | _ => false

/-- What becomes of the question that is open, and of the count. -/
inductive Turn (m : Model T) (msg : Msg T) (r : Model T × List Effect) : Prop
  | agreed
      (c : Confirm) (key : KeyEvent)
      (hmsg : msg = .key key)
      (hkey : confirmKey key = some .accept)
      (hopen : m.confirm = some c)
      (hclosed : r.1.confirm = none)
      (heffect : r.2 = [c.effect])
      (htally : r.1.inFlight = m.inFlight + 1)
  | declined
      (key : KeyEvent)
      (hmsg : msg = .key key)
      (hopen : m.confirm ≠ none)
      (hclosed : r.1.confirm = none)
      (hsilent : r.2 = [])
      (htally : r.1.inFlight = m.inFlight)
  | asked
      (key : KeyEvent)
      (hmsg : msg = .key key)
      (hnone : m.confirm = none)
      (h : Asks I m r)
  | calm
      (hlands : lands msg = false)
      (h : Calm m r)
  | landed
      (hlands : lands msg = true)
      (hkept : r.1.confirm = m.confirm)
      (hsilent : r.2 = [])
      (htally : r.1.inFlight = m.inFlight - 1)

/-- A question shadows whatever else is open. -/
theorem mode_eq_confirm_iff (m : Model T) :
    m.mode = .confirm ↔ m.confirm ≠ none := by
  unfold mode
  constructor
  · intro h hnone
    rw [if_neg (by simp [hnone])] at h
    split_ifs at h
  · intro h
    rw [if_pos (Option.isSome_iff_ne_none.mpr h)]

/-- A key while a question is open agrees, declines, or does nothing. -/
theorem confirmAction_turn
    (m : Model T) (c : Confirm) (key : KeyEvent) (action : Action)
    (hopen : m.confirm = some c)
    (hkey : confirmKey key = some action) :
    Turn I m (.key key) (m.confirmAction I action) := by
  have haction : action = .accept ∨ action = .cancel := by
    revert hkey
    unfold confirmKey
    split <;> simp +contextual
  rcases haction with rfl | rfl
  · simp only [confirmAction, hopen]
    exact .agreed c key rfl hkey hopen rfl rfl rfl
  · simp only [confirmAction, hopen]
    exact .declined key rfl (by simp [hopen]) rfl rfl rfl

theorem apply_turn
    (m : Model T) (key : KeyEvent) (action : Action)
    (hkey : mapKey m.mode m.view key = some action) :
    Turn I m (.key key) (m.apply I action) := by
  have hunasked : ∀ {r : Model T × List Effect}, m.mode ≠ .confirm →
      Calm m r ∨ Asks I m r → Turn I m (.key key) r := by
    intro r hmode h
    have hnone : m.confirm = none := by
      simpa using mt (mode_eq_confirm_iff m).mpr hmode
    exact h.elim (.calm rfl) (.asked key rfl hnone)
  unfold apply
  cases hmode : m.mode with
  | confirm =>
      obtain ⟨c, hopen⟩ := Option.ne_none_iff_exists'.mp ((mode_eq_confirm_iff m).mp hmode)
      rw [hmode] at hkey
      exact confirmAction_turn I m c key action hopen hkey
  | prompt => exact hunasked (by simp [hmode]) (promptAction_turn I m action)
  | palette => exact hunasked (by simp [hmode]) (paletteAction_turn I m action)
  | help => exact hunasked (by simp [hmode]) (.inl (.silent rfl rfl))
  | search => exact hunasked (by simp [hmode]) (.inl (calm_searchAction I m action))
  | normal => exact hunasked (by simp [hmode]) (normalAction_turn I m action)

/-- The failures of a pass are only noted. -/
theorem noteAll_frame (errors : List SourceError) (m : Model T) :
    let noted := errors.foldl
      (fun m error => m.note I (error.source ++ ": ".toList ++ error.message)) m
    noted.confirm = m.confirm ∧ noted.inFlight = m.inFlight := by
  induction errors generalizing m with
  | nil =>
      exact ⟨rfl, rfl⟩
  | cons error errors ih =>
      exact ih (m.note I _)

theorem applySnapshot_turn
    (m : Model T) (msg : Msg T) (snapshot : Snapshot T) (backend : Option (Attention T))
    (hlands : lands msg = true) :
    Turn I m msg (m.applySnapshot I snapshot backend, []) := by
  refine .landed hlands ?_ rfl ?_
  · exact (ensureSelection_confirm I _).trans (noteAll_frame I _ _).1
  · exact (ensureSelection_inFlight I _).trans (noteAll_frame I _ _).2

/-- Every message agrees, declines, asks, reports or does none of these. -/
theorem update_turn (m : Model T) (msg : Msg T) :
    Turn I m msg (m.update I msg) := by
  cases msg with
  | key key =>
      unfold update
      dsimp only
      split
      · rename_i action hkey
        exact apply_turn I m key action hkey
      · exact .calm rfl .rfl
  | tick now =>
      unfold update
      dsimp only
      split
      · exact .calm rfl ((calm_startRefresh _).after rfl rfl)
      · exact .calm rfl (.silent rfl rfl)
  | interrupt | quit =>
      exact .calm rfl (.reading rfl rfl (by simp [Effect.counted, Effect.mutates]))
  | snapshot snapshot => exact applySnapshot_turn I m _ snapshot none rfl
  | snapshotWithAttention snapshot attention =>
      exact applySnapshot_turn I m _ snapshot (some attention) rfl
  | answered | ok => exact .calm rfl ((calm_startRefresh _).after rfl rfl)
  | failed => exact .landed rfl rfl rfl rfl
  | resize | review | refused | note | logLines => exact .calm rfl (.silent rfl rfl)

/-- The count is raised by what is asked for, and lowered by what lands. -/
theorem update_tally (m : Model T) (msg : Msg T) :
    (m.update I msg).1.inFlight =
      (if lands msg then m.inFlight - 1 else m.inFlight) +
        (m.update I msg).2.countP Effect.counted := by
  cases update_turn I m msg with
  | agreed c key hmsg _ _ _ heffect htally =>
      rw [htally, heffect]
      simp [hmsg, lands]
  | declined key hmsg _ _ hsilent htally =>
      rw [htally, hsilent]
      simp [hmsg, lands]
  | asked key hmsg _ h =>
      rw [h.tally, h.silent]
      simp [hmsg, lands]
  | calm hlands h =>
      simp [hlands, h.tally]
  | landed hlands _ hsilent htally =>
      simp [hlands, hsilent, htally]

/-! ## Runs -/

section Runs

/-- The screen after the messages. -/
def afterAll (m : Model T) (msgs : List (Msg T)) : Model T :=
  runFrom (fun m msg => (m.update I msg).1) m msgs

@[simp] theorem afterAll_nil (m : Model T) :
    m.afterAll I [] = m :=
  rfl

theorem afterAll_snoc (m : Model T) (msgs : List (Msg T)) (msg : Msg T) :
    m.afterAll I (msgs ++ [msg]) = ((m.afterAll I msgs).update I msg).1 := by
  unfold afterAll
  rw [runFrom_append, runFrom_cons, runFrom_nil]

/-- The question `c` was put by a message of the run, when none was open, and is open
since. -/
def PutEarlier (m : Model T) (msgs : List (Msg T)) (c : Confirm) : Prop :=
  ∃ before ask between,
    msgs = before ++ ask :: between ∧
      (m.afterAll I before).confirm = none ∧
      (m.afterAll I before).Asked I c ∧
      ∀ part rest, between = part ++ rest →
        (m.afterAll I (before ++ ask :: part)).confirm = some c

/-- Another message that leaves the question open. -/
theorem PutEarlier.snoc
    {m : Model T} {msgs : List (Msg T)} {c : Confirm}
    (h : PutEarlier I m msgs c)
    (msg : Msg T)
    (hopen : (m.afterAll I (msgs ++ [msg])).confirm = some c) :
    PutEarlier I m (msgs ++ [msg]) c := by
  obtain ⟨before, ask, between, rfl, hnone, hasked, hbetween⟩ := h
  refine ⟨before, ask, between ++ [msg], by simp, hnone, hasked, ?_⟩
  intro part rest hsplit
  rcases List.eq_nil_or_concat rest with rfl | ⟨rest, last, rfl⟩
  · rw [List.append_nil] at hsplit
    subst hsplit
    simpa using hopen
  · rw [List.concat_eq_append, ← List.append_assoc] at hsplit
    exact hbetween part rest (List.append_inj_left' hsplit rfl)

/-- A question that is open was put in the run, and has not changed since. -/
theorem putEarlier_of_open
    (m : Model T)
    (hfirst : m.confirm = none)
    (msgs : List (Msg T)) (c : Confirm)
    (hopen : (m.afterAll I msgs).confirm = some c) :
    PutEarlier I m msgs c := by
  induction msgs using List.reverseRecOn with
  | nil =>
      simp [hfirst] at hopen
  | append_singleton msgs msg ih =>
      have hkeep : (m.afterAll I (msgs ++ [msg])).confirm = (m.afterAll I msgs).confirm →
          PutEarlier I m (msgs ++ [msg]) c := fun hsame =>
        (ih (hsame.symm.trans hopen)).snoc I msg hopen
      rw [afterAll_snoc] at hkeep
      have hopen' := hopen
      rw [afterAll_snoc] at hopen'
      cases update_turn I (m.afterAll I msgs) msg with
      | agreed _ _ _ _ _ hclosed =>
          simp [hclosed] at hopen'
      | declined _ _ _ hclosed =>
          simp [hclosed] at hopen'
      | calm _ h =>
          exact hkeep h.confirm
      | landed _ hkept =>
          exact hkeep hkept
      | asked key hmsg hnone h =>
          obtain ⟨c', hasked, hput⟩ := h.asked
          obtain rfl : c' = c := Option.some.inj (hput.symm.trans hopen')
          refine ⟨msgs, msg, [], rfl, hnone, hasked, ?_⟩
          intro part rest hsplit
          obtain ⟨rfl, rfl⟩ := List.append_eq_nil_iff.mp hsplit.symm
          exact hopen

/-- Nothing outside is changed but what the open question is about: it was put about
what was selected then, it has stayed as it was put, and a key agrees to it. -/
theorem changes_what_was_agreed
    (env : Env) (refresh now : Int) (empty : Snapshot T) (clear : Attention T)
    (msgs : List (Msg T)) (msg : Msg T) (e : Effect)
    (hmutates : e.mutates = true)
    (he : e ∈ (((new env refresh now empty clear).afterAll I msgs).update I msg).2) :
    ∃ c,
      PutEarlier I (new env refresh now empty clear) msgs c ∧
      (∃ key, msg = .key key ∧ confirmKey key = some .accept) ∧
      (((new env refresh now empty clear).afterAll I msgs).update I msg).2 = [c.effect] ∧
      (((new env refresh now empty clear).afterAll I msgs).update I msg).1.confirm = none := by
  have hnone : ∀ {effects : List Effect}, effects = [] → e ∉ effects := by
    rintro effects rfl
    simp
  cases update_turn I ((new env refresh now empty clear).afterAll I msgs) msg with
  | agreed c key hmsg hkey hopen hclosed heffect =>
      exact ⟨c, putEarlier_of_open I _ rfl msgs c hopen, ⟨key, hmsg, hkey⟩, heffect, hclosed⟩
  | declined _ _ _ _ hsilent =>
      exact absurd he (hnone hsilent)
  | asked _ _ _ h =>
      exact absurd he (hnone h.silent)
  | landed _ _ hsilent =>
      exact absurd he (hnone hsilent)
  | calm _ h =>
      exact absurd hmutates (by simp [h.quiet e he])

end Runs

/-- Tables that show nothing. -/
def bareInterface : Interface Unit where
  lower text := text
  stamp _ := []
  idError _ := []
  attentionOf _ _ := ⟨[], ()⟩
  sanitizeShown shown := shown
  table _ _ _ _ _ _ := []

def bareSnapshot : Snapshot Unit :=
  ⟨[], [], [], [], [], [], ()⟩

def sampleEnv : Env :=
  ⟨"kim".toList, ["factory".toList]⟩

/-- An issue is submitted, while a pass comes in. -/
def sampleTrigger : List (Msg Unit) :=
  [.key ⟨.char 't', false⟩, .key ⟨.char '4', false⟩, .key ⟨.enter, false⟩,
    .snapshot bareSnapshot]

theorem changes_what_was_agreed_trigger :
    ∃ c,
      PutEarlier bareInterface (new sampleEnv 0 0 bareSnapshot ⟨[], ()⟩) sampleTrigger c ∧
      (∃ key, (.key ⟨.char 'y', false⟩ : Msg Unit) = .key key ∧
        confirmKey key = some .accept) ∧
      (((new sampleEnv 0 0 bareSnapshot ⟨[], ()⟩).afterAll bareInterface
        sampleTrigger).update bareInterface (.key ⟨.char 'y', false⟩)).2 = [c.effect] ∧
      (((new sampleEnv 0 0 bareSnapshot ⟨[], ()⟩).afterAll bareInterface
        sampleTrigger).update bareInterface (.key ⟨.char 'y', false⟩)).1.confirm = none :=
  changes_what_was_agreed bareInterface sampleEnv 0 0 bareSnapshot ⟨[], ()⟩ sampleTrigger
    (.key ⟨.char 'y', false⟩)
    (.trigger "factory".toList ["4".toList] "trigger factory 4".toList) rfl (by decide)

/-! ## The cursor -/

section Cursor

/-- The pass that a message brings. -/
def passOf : Msg T → Option (Snapshot T × Option (Attention T))
  | .snapshot snapshot => some (snapshot, none)
  | .snapshotWithAttention snapshot attention => some (snapshot, some attention)
  | _ => none

/-- Neither a key, nor a review to be shown, nor a gate that has been answered. -/
def passive : Msg T → Bool
  | .key _ | .review _ | .answered .. => false
  | _ => true

theorem noteAll_place (errors : List SourceError) (m : Model T) :
    let noted := errors.foldl
      (fun m error => m.note I (error.source ++ ": ".toList ++ error.message)) m
    noted.view = m.view ∧ noted.selection = m.selection := by
  induction errors generalizing m with
  | nil =>
      exact ⟨rfl, rfl⟩
  | cons error errors ih =>
      exact ih (m.note I _)

section Landed

variable (m : Model T)
variable (snapshot : Snapshot T)
variable (backend : Option (Attention T))

@[simp] theorem landSnapshot_view :
    (m.landSnapshot I snapshot backend).view = m.view :=
  (noteAll_place I _ _).1

@[simp] theorem landSnapshot_selection :
    (m.landSnapshot I snapshot backend).selection = m.selection :=
  (noteAll_place I _ _).2

@[simp] theorem landSnapshot_currentKey :
    (m.landSnapshot I snapshot backend).currentKey = m.currentKey := by
  unfold currentKey
  rw [landSnapshot_view, landSnapshot_selection]

end Landed

@[simp] theorem ensureSelection_view (m : Model T) :
    (m.ensureSelection I).view = m.view := by
  unfold ensureSelection
  split
  · rfl
  · split <;> rfl

/-- The cursor stays on its row, or goes to the first one when its row is gone. -/
theorem ensureSelection_selection (m : Model T) :
    (m.ensureSelection I).selection = m.selection ∨
      (∀ row ∈ m.rows I, m.currentKey ≠ some row.key) ∧
        ∃ row, (m.rows I).head? = some row ∧
          (m.ensureSelection I).selection = m.selectionAt row.key := by
  unfold ensureSelection
  split
  · exact .inl rfl
  · rename_i hgone
    split
    · rename_i row hfirst
      refine .inr ⟨fun row' hrow' hkey => hgone ?_, row, hfirst, rfl⟩
      rw [selectedIndex, hkey, Option.bind_some, List.findIdx?_isSome]
      exact List.any_eq_true.mpr ⟨row', hrow', by simp⟩
    · exact .inl rfl

/-- The pass moves the cursor of `m`: its row is gone, and the first row is taken. -/
structure Displaced (m : Model T) (pass : Snapshot T × Option (Attention T))
    (after : Selection) : Prop where
  gone : ∀ row ∈ (m.landSnapshot I pass.1 pass.2).rows I, m.currentKey ≠ some row.key
  first : ∃ row, ((m.landSnapshot I pass.1 pass.2).rows I).head? = some row ∧
    after = (m.landSnapshot I pass.1 pass.2).selectionAt row.key

/-- What only collects and reports moves the cursor only when its row is gone. -/
theorem update_passive
    (m : Model T) (msg : Msg T)
    (hpassive : passive msg = true) :
    (m.update I msg).1.view = m.view ∧
      ((m.update I msg).1.selection = m.selection ∨
        ∃ pass, passOf msg = some pass ∧ Displaced I m pass (m.update I msg).1.selection) := by
  have hland : ∀ snapshot backend,
      (m.applySnapshot I snapshot backend).view = m.view ∧
        ((m.applySnapshot I snapshot backend).selection = m.selection ∨
          Displaced I m (snapshot, backend) (m.applySnapshot I snapshot backend).selection) := by
    intro snapshot backend
    refine ⟨by simp [applySnapshot], ?_⟩
    rcases ensureSelection_selection I (m.landSnapshot I snapshot backend) with hstay | hmove
    · exact .inl (hstay.trans (landSnapshot_selection I m snapshot backend))
    · rw [landSnapshot_currentKey] at hmove
      exact .inr ⟨hmove.1, hmove.2⟩
  cases msg with
  | key | review | answered => cases hpassive
  | snapshot snapshot =>
      exact ⟨(hland snapshot none).1, (hland snapshot none).2.imp_right (fun h => ⟨_, rfl, h⟩)⟩
  | snapshotWithAttention snapshot attention =>
      exact ⟨(hland snapshot (some attention)).1,
        (hland snapshot (some attention)).2.imp_right (fun h => ⟨_, rfl, h⟩)⟩
  | tick now =>
      unfold update
      dsimp only
      split <;> exact ⟨rfl, .inl rfl⟩
  | resize | interrupt | ok | refused | failed | note | logLines | quit =>
      exact ⟨rfl, .inl rfl⟩

/--
A selection is an identity: while the operator presses nothing, the view stays, and the
selection stays until a pass lands in whose table no row has its key; then it is what the
first row of that table selects.  How rows are added, dropped or reordered around it makes
no difference.
-/
theorem selection_stays_until_displaced
    (m : Model T) (msgs : List (Msg T))
    (hpassive : ∀ msg ∈ msgs, passive msg = true) :
    (m.afterAll I msgs).view = m.view ∧
      ((m.afterAll I msgs).selection = m.selection ∨
        ∃ before msg rest pass,
          msgs = before ++ msg :: rest ∧
            passOf msg = some pass ∧
            (m.afterAll I before).view = m.view ∧
            (m.afterAll I before).selection = m.selection ∧
            Displaced I (m.afterAll I before) pass
              (m.afterAll I (before ++ [msg])).selection) := by
  induction msgs using List.reverseRecOn with
  | nil =>
      exact ⟨rfl, .inl rfl⟩
  | append_singleton msgs msg ih =>
      obtain ⟨hearlier, hlast⟩ := List.forall_mem_append.mp hpassive
      obtain ⟨hview, hselection⟩ := ih hearlier
      obtain ⟨hview', hselection'⟩ :=
        update_passive I (m.afterAll I msgs) msg (hlast msg (List.mem_singleton_self msg))
      rw [afterAll_snoc]
      refine ⟨hview'.trans hview, ?_⟩
      rcases hselection with hsame | ⟨before, msg', rest, pass, rfl, hdisplaced⟩
      · rcases hselection' with hsame' | ⟨pass, hpass, hdisplaced⟩
        · exact .inl (hsame'.trans hsame)
        · rw [← afterAll_snoc] at hdisplaced
          exact .inr ⟨msgs, msg, [], pass, rfl, hpass, hview, hsame, hdisplaced⟩
      · exact .inr ⟨before, msg', rest ++ [msg], pass, by simp, hdisplaced⟩

/-- Tables that show the sandboxes by their names. -/
def sandboxInterface : Interface Unit :=
  { bareInterface with
    table := fun _ s _ _ _ _ => s.sandboxes.map (fun box => ⟨box.name, .sandbox, [box.name]⟩) }

def sandboxes (names : List String) : Msg Unit :=
  .snapshot
    { bareSnapshot with sandboxes := names.map (fun name => ⟨name.toList, "kim".toList⟩) }

/-- The row that is selected has moved down. -/
theorem selection_stays_until_displaced_reordered :
    let m := (new sampleEnv 0 0 bareSnapshot ⟨[], ()⟩).afterAll sandboxInterface [sandboxes ["b"]]
    m.selection.attention = some "b".toList ∧
      (m.afterAll sandboxInterface [.tick 1, sandboxes ["a", "b"]]).selection = m.selection ∧
      (m.afterAll sandboxInterface [.tick 1, sandboxes ["a", "b"]]).view = m.view := by
  intro m
  refine ⟨by decide +kernel, by decide +kernel, ?_⟩
  exact (selection_stays_until_displaced sandboxInterface m [.tick 1, sandboxes ["a", "b"]]
    (by simp [passive, sandboxes])).1

end Cursor

/-! ## What a terminal acts on -/

section Clean

/-- A text of one line that holds nothing that a terminal acts on. -/
def Shown (text : Str) : Prop :=
  ∀ c ∈ text, shown false c = true

/-- The same of a text of several lines. -/
def ShownBlock (text : Str) : Prop :=
  ∀ c ∈ text, shown true c = true

theorem shown_sanitizeLine (text : Str) : Shown (sanitizeLine text) :=
  shown_scrub

theorem shown_lineOf (text : String) : Shown (lineOf text).toList := by
  rw [lineOf, String.toList_ofList]
  exact shown_scrub

theorem shownBlock_blockOf (text : String) : ShownBlock (blockOf text).toList := by
  rw [blockOf, String.toList_ofList]
  exact shown_scrub

/-- The texts of a pass that came from a service. -/
structure CleanSnapshot (s : Snapshot T) : Prop where
  runs : ∀ run ∈ s.runs, Shown run.dagId ∧ Shown run.runId ∧ Shown run.state
  gates : ∀ gate ∈ s.gates, Shown gate.dagId ∧ Shown gate.runId ∧ Shown gate.taskId ∧
    Shown gate.subject.toList ∧ ShownBlock gate.body.toList ∧
      ∀ option ∈ gate.options, Shown option.toList
  prs : ∀ pr ∈ s.prs, Shown pr.head ∧ Shown pr.url
  sandboxes : ∀ sandbox ∈ s.sandboxes, Shown sandbox.name ∧ Shown sandbox.createdBy
  errors : ∀ error ∈ s.errors, Shown error.source ∧ Shown error.message
  health : ∀ e ∈ s.health, ∀ error ∈ e.2.error, Shown error

theorem cleanSnapshot_sanitizeSnapshot (s : Snapshot T) :
    CleanSnapshot (sanitizeSnapshot I s) where
  runs := List.forall_mem_map.mpr fun _ _ =>
    ⟨shown_sanitizeLine _, shown_sanitizeLine _, shown_sanitizeLine _⟩
  gates := List.forall_mem_map.mpr fun _ _ =>
    ⟨shown_sanitizeLine _, shown_sanitizeLine _, shown_sanitizeLine _, shown_lineOf _,
      shownBlock_blockOf _, List.forall_mem_map.mpr fun _ _ => shown_lineOf _⟩
  prs := List.forall_mem_map.mpr fun _ _ => ⟨shown_sanitizeLine _, shown_sanitizeLine _⟩
  sandboxes := List.forall_mem_map.mpr fun _ _ => ⟨shown_sanitizeLine _, shown_sanitizeLine _⟩
  errors := List.forall_mem_map.mpr fun _ _ => ⟨shown_sanitizeLine _, shown_sanitizeLine _⟩
  health := List.forall_mem_map.mpr fun _ _ _ herror => by
    obtain ⟨_, _, rfl⟩ := Option.mem_map.mp herror
    exact shown_sanitizeLine _

/-- The activity log: its lines are clean, and there are no more than it may hold. -/
structure CleanLog (ring : LogRing) : Prop where
  lines : ∀ line ∈ ring.lines, Shown line
  capacity : ring.capacity = 500
  bounded : ring.lines.length ≤ 500

/-- Room for one line is made by dropping the oldest ones. -/
theorem makeRoom_spec (capacity : Nat) (lines : List Str) (dropped : Nat) :
    let made := LogRing.makeRoom capacity lines dropped
    made.1 <:+ lines ∧ (made.1.length < capacity ∨ made.1 = []) := by
  induction lines generalizing dropped with
  | nil =>
      exact ⟨List.suffix_rfl, .inr rfl⟩
  | cons line lines ih =>
      unfold LogRing.makeRoom
      split
      · exact ⟨(ih _).1.trans (List.suffix_cons line lines), (ih _).2⟩
      · rename_i hroom
        exact ⟨List.suffix_rfl, .inl (Nat.lt_of_not_le hroom)⟩

theorem CleanLog.push {ring : LogRing} (h : CleanLog ring) (line : Str) :
    CleanLog (ring.push line) where
  lines line' hline' := by
    rcases List.mem_append.mp hline' with hkept | hnew
    · exact h.lines line' ((makeRoom_spec _ _ _).1.mem hkept)
    · obtain rfl := List.mem_singleton.mp hnew
      exact shown_sanitizeLine line
  capacity := h.capacity
  bounded := by
    have hcapacity := h.capacity
    have hmade := (makeRoom_spec ring.capacity ring.lines ring.dropped).2
    simp only [LogRing.push, List.length_append, List.length_singleton]
    rcases hmade with hlt | hnil
    · omega
    · rw [hnil, List.length_nil]
      omega

/-- Whatever came from a service is clean. -/
structure Clean (m : Model T) : Prop where
  snapshot : CleanSnapshot m.snapshot
  sources : ∀ e ∈ m.sources, ∀ error ∈ e.2.error, Shown error
  status : Shown m.status
  log : CleanLog m.log

namespace Clean

variable {I}
variable {m : Model T}

theorem note (h : m.Clean) (line : Str) : (m.note I line).Clean :=
  ⟨h.snapshot, h.sources, shown_sanitizeLine line, h.log.push _⟩

/-- A change of something else. -/
theorem same {m' : Model T} (h : m.Clean)
    (hsnapshot : m'.snapshot = m.snapshot) (hsources : m'.sources = m.sources)
    (hstatus : m'.status = m.status) (hlog : m'.log = m.log) : m'.Clean :=
  ⟨hsnapshot ▸ h.snapshot, hsources ▸ h.sources, hstatus ▸ h.status, hlog ▸ h.log⟩

theorem select (h : m.Clean) (key : Str) : (m.select key).1.Clean :=
  h.same rfl rfl rfl rfl

theorem ensureSelection (h : m.Clean) : (m.ensureSelection I).Clean := by
  unfold Model.ensureSelection
  split
  · exact h
  · split
    · exact h.select _
    · exact h

theorem startRefresh (h : m.Clean) : m.startRefresh.1.Clean :=
  ⟨h.snapshot, List.forall_mem_map.mpr h.sources, h.status, h.log⟩

theorem moveBy (h : m.Clean) (delta : Int) : (m.moveBy I delta).1.Clean := by
  unfold Model.moveBy
  dsimp only
  split
  · exact h.select _
  · exact h

theorem moveToEdge (h : m.Clean) (toLast : Bool) : (m.moveToEdge I toLast).1.Clean := by
  unfold Model.moveToEdge
  split
  · exact h.select _
  · exact h

theorem answer (h : m.Clean) (decision : Decision) : (m.answer I decision).1.Clean := by
  unfold Model.answer
  split
  · dsimp only
    split
    · exact h.same rfl rfl rfl rfl
    · exact (h.note _).same rfl rfl rfl rfl
  · exact h.note _
  · exact h.note _

theorem stop (h : m.Clean) : (m.stop I).1.Clean := by
  unfold Model.stop
  split
  · exact h.note _
  · exact h.same rfl rfl rfl rfl

theorem browse (h : m.Clean) : (m.browse I).1.Clean := by
  unfold Model.browse
  dsimp only
  split <;> exact h.note _

theorem verify (h : m.Clean) : (m.verify I).1.Clean := by
  unfold Model.verify
  split
  · exact h.note _
  · exact (h.note _).same rfl rfl rfl rfl

theorem removeSandbox (h : m.Clean) : (m.removeSandbox I).1.Clean := by
  unfold Model.removeSandbox
  dsimp only
  split
  · exact h.note _
  · exact h.same rfl rfl rfl rfl

theorem logs (h : m.Clean) : (m.logs I).1.Clean := by
  unfold Model.logs
  split <;> exact h.note _

theorem go (h : m.Clean) (view : View) : (m.go I view).1.Clean := by
  unfold Model.go
  split
  · exact h
  · refine ensureSelection ?_
    exact h.same rfl rfl rfl rfl

theorem enter (h : m.Clean) : (m.enter I).1.Clean := by
  unfold Model.enter
  split
  · exact h.note _
  · split
    · exact h.note _
    · dsimp only
      split
      · split
        · exact h
        · exact h.note _
      · exact h
    · split
      · exact h.same rfl rfl rfl rfl
      · exact h.note _
    · dsimp only
      refine ensureSelection ?_
      exact h.same rfl rfl rfl rfl
    · dsimp only
      refine ensureSelection ?_
      exact h.same rfl rfl rfl rfl
    · exact h.note _

theorem normalAction (h : m.Clean) (action : Action) : (m.normalAction I action).1.Clean := by
  cases action with
  | refresh => exact (h.note _).startRefresh
  | goView | nextView | prevView => exact h.go _
  | up | down | pageUp | pageDown => exact h.moveBy _
  | top | bottom => exact h.moveToEdge _
  | accept => exact h.enter
  | cancel =>
      unfold Model.normalAction
      dsimp only
      split
      · exact h.go _
      · refine ensureSelection ?_
        exact h.same rfl rfl rfl rfl
  | approve | reject => exact h.answer _
  | stop => exact h.stop
  | browse => exact h.browse
  | verify => exact h.verify
  | remove => exact h.removeSandbox
  | logs => exact h.logs
  | quit | help | toggleLog | palette | search | trigger | char | backspace =>
      exact h.same rfl rfl rfl rfl

theorem confirmAction (h : m.Clean) (action : Action) : (m.confirmAction I action).1.Clean := by
  unfold Model.confirmAction
  split
  · refine same (note (m := { m with confirm := none }) ?_ _) rfl rfl rfl rfl
    exact h.same rfl rfl rfl rfl
  · refine note ?_ _
    exact h.same rfl rfl rfl rfl
  · exact h

theorem promptAction (h : m.Clean) (action : Action) : (m.promptAction I action).1.Clean := by
  unfold Model.promptAction
  split
  · exact h
  · cases action with
    | char | backspace => exact h.same rfl rfl rfl rfl
    | cancel =>
        refine note ?_ _
        exact h.same rfl rfl rfl rfl
    | accept =>
        dsimp only
        split
        · refine note ?_ _
          exact h.same rfl rfl rfl rfl
        · exact h.same rfl rfl rfl rfl
    | _ => exact h

theorem searchAction (h : m.Clean) (action : Action) : (m.searchAction I action).1.Clean := by
  unfold Model.searchAction
  cases action with
  | char | backspace | accept | cancel => exact ensureSelection (h.same rfl rfl rfl rfl)
  | _ => exact h

theorem paletteAction (h : m.Clean) (action : Action) : (m.paletteAction I action).1.Clean := by
  unfold Model.paletteAction
  dsimp only
  cases action with
  | char | backspace | up | cancel => exact h.same rfl rfl rfl rfl
  | down =>
      dsimp only
      split <;> exact h.same rfl rfl rfl rfl
  | accept =>
      dsimp only
      split
      · refine normalAction ?_ _
        exact h.same rfl rfl rfl rfl
      · exact h.same rfl rfl rfl rfl
  | _ => exact h

theorem apply (h : m.Clean) (action : Action) : (m.apply I action).1.Clean := by
  unfold Model.apply
  split
  · exact h.confirmAction action
  · exact h.promptAction action
  · exact h.paletteAction action
  · exact h.same rfl rfl rfl rfl
  · exact h.searchAction action
  · exact h.normalAction action

/-- What the last good pass said of a source stays, and so does what this one says. -/
theorem sourcesAfter (h : m.Clean) {s : Snapshot T} (hs : CleanSnapshot s) :
    ∀ e ∈ m.sourcesAfter s, ∀ error ∈ e.2.error, Shown error := by
  have hmerged : ∀ (health : Dict Str SourceHealth) (sources : Dict Str SourceHealth),
      (∀ e ∈ health, ∀ error ∈ e.2.error, Shown error) →
      (∀ e ∈ sources, ∀ error ∈ e.2.error, Shown error) →
      ∀ e ∈ health.foldl (fun sources e => sources.assign e.1 e.2) sources,
        ∀ error ∈ e.2.error, Shown error := by
    intro health
    induction health with
    | nil =>
        intro sources _ hsources
        exact hsources
    | cons first health ih =>
        intro sources hhealth hsources
        obtain ⟨hfirst, hrest⟩ := List.forall_mem_cons.mp hhealth
        refine ih _ hrest (fun e he => ?_)
        rcases Dict.mem_assign he with rfl | hold
        · exact hfirst
        · exact hsources e hold
  refine List.forall_mem_map.mpr (fun e he error herror => ?_)
  dsimp only at herror
  split at herror
  · exact hmerged s.health m.sources hs.health h.sources e he error herror
  · obtain rfl := Option.mem_some_iff.mp herror
    exact List.all_eq_true.mp (by rfl)

theorem applySnapshot (h : m.Clean) (snapshot : Snapshot T) (backend : Option (Attention T)) :
    (m.applySnapshot I snapshot backend).Clean := by
  have hclean := cleanSnapshot_sanitizeSnapshot I snapshot
  have hnoted : ∀ (errors : List SourceError) (m : Model T), m.Clean →
      (errors.foldl
        (fun m error => m.note I (error.source ++ ": ".toList ++ error.message)) m).Clean := by
    intro errors
    induction errors with
    | nil =>
        intro m hm
        exact hm
    | cons error errors ih =>
        intro m hm
        exact ih _ (hm.note _)
  exact ensureSelection (hnoted _ _ ⟨hclean, h.sourcesAfter hclean, h.status, h.log⟩)

theorem update (h : m.Clean) (msg : Msg T) : (m.update I msg).1.Clean := by
  cases msg with
  | key key =>
      unfold Model.update
      dsimp only
      split
      · exact h.apply _
      · exact h
  | tick now =>
      unfold Model.update
      dsimp only
      split
      · refine startRefresh ?_
        exact h.same rfl rfl rfl rfl
      · exact h.same rfl rfl rfl rfl
  | snapshot snapshot => exact h.applySnapshot snapshot none
  | snapshotWithAttention snapshot attention => exact h.applySnapshot snapshot (some attention)
  | answered => exact startRefresh ((h.note _).same rfl rfl rfl rfl)
  | ok => exact (h.note _).startRefresh
  | refused | note => exact h.note _
  | failed =>
      refine note ?_ _
      exact h.same rfl rfl rfl rfl
  | logLines lines =>
      refine ⟨h.snapshot, h.sources, h.status, ?_⟩
      exact List.foldlRecOn lines LogRing.push h.log (fun _ hring line _ => hring.push line)
  | resize | interrupt | review | quit => exact h.same rfl rfl rfl rfl

end Clean

/-- No service gets anything on the screen that a terminal acts on, whatever it sends and
whatever the operator does: neither in what a pass has collected, nor in what is said of a
source, nor in the status line and the log, which holds the last lines only. -/
theorem clean_afterAll
    (env : Env) (refresh now : Int) (empty : Snapshot T) (clear : Attention T)
    (hempty : CleanSnapshot empty)
    (msgs : List (Msg T)) :
    ((new env refresh now empty clear).afterAll I msgs).Clean := by
  induction msgs using List.reverseRecOn with
  | nil =>
      exact ⟨hempty, List.forall_mem_nil _, List.forall_mem_nil _,
        List.forall_mem_nil _, rfl, Nat.zero_le _⟩
  | append_singleton msgs msg ih =>
      rw [afterAll_snoc]
      exact ih.update msg

/-- A source that fails with a text that would clear the terminal. -/
def hostileSnapshot : Snapshot Unit :=
  { bareSnapshot with
    errors := [⟨"github".toList, '\x1b' :: "[2Jall good".toList⟩] }

theorem clean_afterAll_hostile :
    ((new sampleEnv 0 0 bareSnapshot ⟨[], ()⟩).afterAll bareInterface
      [.snapshot hostileSnapshot]).Clean :=
  clean_afterAll bareInterface sampleEnv 0 0 bareSnapshot ⟨[], ()⟩
    ⟨List.forall_mem_nil _, List.forall_mem_nil _, List.forall_mem_nil _, List.forall_mem_nil _,
      List.forall_mem_nil _, List.forall_mem_nil _⟩
    [.snapshot hostileSnapshot]

/-- What is left of it. -/
example :
    ((new sampleEnv 0 0 bareSnapshot ⟨[], ()⟩).afterAll bareInterface
      [.snapshot hostileSnapshot]).status = "github: all good".toList := by decide +kernel

end Clean

end Model

/-! ## Performing the effects -/

/-- `OpsError`, with its hint. -/
structure HintedError extends OpsError where
  hint : Option Str

def HintedError.isCancelled (err : HintedError) : Bool :=
  err.kind = .cancelled

/-- `Verdict::as_str` -/
def verdictWord : Verification.Verdict → Str
  | .verified => "verified".toList
  | .verifiedBlocked => "verified_blocked".toList
  | .publishedOnly => "published_only".toList
  | .reportedOnly => "reported_only".toList
  | .refuted => "refuted".toList
  | .inconclusive => "inconclusive".toList

structure LogStream where
  task : Str
  attempt : Nat
  lines : List Str

/-- What the operations layer gives back; `Submission` is its run and its link. -/
def Reply (T : Type) : Effect → Type
  | .refresh => Snapshot T × Attention T
  | .review _ => Except HintedError GateReview
  | .answer .. => Except HintedError Batch.GateAnswer
  | .trigger .. => Except HintedError (RunRef × Str)
  | .stop .. | .removeSandbox .. => Except HintedError Unit
  | .browseRun _ => Except HintedError Str
  | .verify _ => Except HintedError Verification.DeliveryReport
  | .logs .. => Except HintedError LogStream
  | .browse _ | .cancel | .quit => Unit

section Performing

variable {T : Type}
variable (I : Interface T)

/-- `failed` -/
def failed (label : Str) (err : HintedError) : Option (Msg T) :=
  if err.isCancelled then none else some (.failed label err.message.toList)

/-- `classify` -/
def classify (label : Str) (err : HintedError) : Msg T :=
  if err.isCancelled then .note (label ++ ": abandoned".toList)
  else
    let message :=
      match err.hint with
      | some hint => err.message.toList ++ " (fix: ".toList ++ hint ++ ")".toList
      | none => err.message.toList
    match err.kind with
    | .operational | .conflict => .refused label message
    | _ => .failed label message

/-- `perform`, of a delivery to be verified. -/
def verified (id : Str) (reply : Except HintedError Verification.DeliveryReport) : Msg T :=
  match DeliveryId.parse id, reply with
  | .error err, _ => .failed ("verify ".toList ++ id) (I.idError err)
  | .ok _, .ok report =>
      .ok ("verify ".toList ++ id ++ ": ".toList ++ verdictWord report.verdict ++
        " (workflow ".toList ++ (toString report.workflowSucceeded).toList ++
        ", published ".toList ++ (toString report.branchPublished).toList ++
        ", verified ".toList ++ (toString report.independentlyVerified).toList ++ ")".toList)
  | .ok _, .error err => classify ("verify ".toList ++ id) err

/-- `perform`, from what the operations layer gives back. -/
def perform : (e : Effect) → Reply T e → Option (Msg T)
  | .refresh, (snapshot, attention) => some (.snapshotWithAttention snapshot attention)
  | .review _, .ok review => some (.review review)
  | .review id, .error err => failed ("review ".toList ++ id.display) err
  | .answer .., .ok answer => some (.answered answer.id answer.decision answer.forced)
  | .answer _ _ _ label, .error err => some (classify label err)
  | .trigger _ _ label, .ok (run, url) =>
      some (.ok (label ++ " -> ".toList ++ run.dagId ++ '/' :: run.runId ++ ' ' :: url))
  | .trigger _ _ label, .error err => some (classify label err)
  | .stop _ label, .ok () => some (.ok (label ++ ": the run is marked failed".toList))
  | .stop _ label, .error err => some (classify label err)
  | .removeSandbox _ label, .ok () => some (.ok label)
  | .removeSandbox _ label, .error err => some (classify label err)
  | .browseRun _, .ok url => some (.note ("open ".toList ++ url))
  | .browseRun run, .error err => some (classify ("open ".toList ++ run.display) err)
  | .browse url, () => some (.note ("open ".toList ++ url))
  | .verify id, reply => some (verified I id reply)
  | .logs job _, .ok stream =>
      some (.logLines (("--- ".toList ++ job.display ++ ' ' :: stream.task ++ " #".toList ++
        Nat.toDigits 10 stream.attempt ++ " ---".toList) :: stream.lines))
  | .logs job _, .error err => failed ("logs ".toList ++ job.display) err
  | .cancel, () | .quit, () => none

/-! ## A session -/

/-- An effect is performed by a task of its own. -/
def Effect.spawned : Effect → Bool
  | .cancel | .quit => false
  | _ => true

/-- The screen, the effects that are being performed, and what was heard of those that
have been. -/
structure Session (T : Type) where
  screen : Model T
  outstanding : List Effect
  heard : List (Effect × Option (Msg T))

/-- What comes next: a key, the clock or a signal, or a task that ends. -/
inductive Move (T : Type)
  | key (key : KeyEvent)
  | resize (columns rows : Nat)
  | tick (now : Int)
  | interrupt
  | report (i : Nat) (reply : (e : Effect) → Reply T e)

namespace Session

/-- One turn of `drive`: the message is taken in, its effects are dispatched. -/
def turn (s : Session T) (msg : Msg T) : Session T :=
  let r := s.screen.update I msg
  { s with screen := r.1, outstanding := s.outstanding ++ r.2.filter Effect.spawned }

def step (s : Session T) : Move T → Session T
  | .key key => s.turn I (.key key)
  | .resize columns rows => s.turn I (.resize columns rows)
  | .tick now => s.turn I (.tick now)
  | .interrupt => s.turn I .interrupt
  | .report i reply =>
      match s.outstanding[i]? with
      | none => s
      | some e =>
          let msg := perform I e (reply e)
          let s :=
            { s with
              outstanding := s.outstanding.eraseIdx i
              heard := s.heard ++ [(e, msg)] }
          match msg with
          | none => s
          | some msg => s.turn I msg

/-- A session at its start. -/
def start (m : Model T) : Session T :=
  ⟨m, [], []⟩

/-- The effects that were counted and whose report has not lowered the count. -/
def uncleared (s : Session T) : Nat :=
  s.heard.countP (fun h => h.1.counted && !h.2.any Model.lands)

/-- The reads that were not counted and whose failure has lowered the count. -/
def failedReads (s : Session T) : Nat :=
  s.heard.countP (fun h => !h.1.counted && h.2.any Model.lands)

def awaited (s : Session T) : Nat :=
  s.outstanding.countP Effect.counted

/-- What `inFlight` is worth. -/
structure Accounted (s : Session T) : Prop where
  upper : s.screen.inFlight ≤ s.awaited + s.uncleared
  lower : s.awaited + s.uncleared ≤ s.screen.inFlight + s.failedReads

/-- Every effect that is counted is also performed. -/
theorem awaited_turn (s : Session T) (msg : Msg T) :
    (s.turn I msg).awaited =
      s.awaited + (s.screen.update I msg).2.countP Effect.counted := by
  have hspawned : ∀ e : Effect, (e.counted && e.spawned) = e.counted := by
    intro e
    cases e <;> rfl
  simp only [awaited, turn, List.countP_append, List.countP_filter, hspawned]

@[simp] theorem uncleared_turn (s : Session T) (msg : Msg T) :
    (s.turn I msg).uncleared = s.uncleared :=
  rfl

@[simp] theorem failedReads_turn (s : Session T) (msg : Msg T) :
    (s.turn I msg).failedReads = s.failedReads :=
  rfl

theorem inFlight_turn (s : Session T) (msg : Msg T) :
    (s.turn I msg).screen.inFlight =
      (if Model.lands msg then s.screen.inFlight - 1 else s.screen.inFlight) +
        (s.screen.update I msg).2.countP Effect.counted :=
  Model.update_tally I s.screen msg

/-- What comes from outside lowers no count. -/
theorem accounted_turn
    {s : Session T}
    (h : s.Accounted)
    (msg : Msg T)
    (hlands : Model.lands msg = false) :
    (s.turn I msg).Accounted := by
  have hcount := inFlight_turn I s msg
  have hawaited := awaited_turn I s msg
  rw [hlands, if_neg Bool.false_ne_true] at hcount
  have hupper := h.upper
  have hlower := h.lower
  constructor
  · rw [uncleared_turn]
    omega
  · rw [uncleared_turn, failedReads_turn]
    omega

/-- The session when the report of the task `i` has been taken from its task. -/
def taken (s : Session T) (i : Nat) (e : Effect) (msg : Option (Msg T)) : Session T :=
  { s with outstanding := s.outstanding.eraseIdx i, heard := s.heard ++ [(e, msg)] }

section Taken

variable {s : Session T}
variable {i : Nat}
variable {e : Effect}

theorem awaited_taken
    (he : s.outstanding[i]? = some e)
    (msg : Option (Msg T)) :
    (s.taken i e msg).awaited + (if e.counted then 1 else 0) = s.awaited := by
  obtain ⟨hi, rfl⟩ := List.getElem?_eq_some_iff.mp he
  have hperm := (List.getElem_cons_eraseIdx_perm hi).countP_eq Effect.counted
  rw [List.countP_cons] at hperm
  exact hperm

theorem uncleared_taken (msg : Option (Msg T)) :
    (s.taken i e msg).uncleared =
      s.uncleared + (if e.counted && !msg.any Model.lands then 1 else 0) := by
  simp [uncleared, taken, List.countP_append, List.countP_cons]

theorem failedReads_taken (msg : Option (Msg T)) :
    (s.taken i e msg).failedReads =
      s.failedReads + (if !e.counted && msg.any Model.lands then 1 else 0) := by
  simp [failedReads, taken, List.countP_append, List.countP_cons]

/-- A report lowers the count by one, or it is noted that it did not. -/
theorem accounted_report
    (h : s.Accounted)
    (he : s.outstanding[i]? = some e)
    (msg : Msg T) :
    ((s.taken i e (some msg)).turn I msg).Accounted := by
  have hawaited := awaited_taken he (some msg)
  have huncleared := uncleared_taken (s := s) (i := i) (e := e) (some msg)
  have hfailed := failedReads_taken (s := s) (i := i) (e := e) (some msg)
  have hturn := awaited_turn I (s.taken i e (some msg)) msg
  have hcount := inFlight_turn I (s.taken i e (some msg)) msg
  have hscreen : (s.taken i e (some msg)).screen = s.screen := rfl
  rw [Option.any_some] at huncleared hfailed
  rw [hscreen] at hcount hturn
  have hupper := h.upper
  have hlower := h.lower
  constructor
  · rw [uncleared_turn]
    cases hc : e.counted <;> cases hl : Model.lands msg <;>
      simp [hc, hl] at hawaited huncleared hcount <;> omega
  · rw [uncleared_turn, failedReads_turn]
    cases hc : e.counted <;> cases hl : Model.lands msg <;>
      simp [hc, hl] at hawaited huncleared hfailed hcount <;> omega

/-- A read that was given up is not counted. -/
theorem accounted_dropped
    (h : s.Accounted)
    (he : s.outstanding[i]? = some e)
    (hread : e.counted = false) :
    (s.taken i e none).Accounted := by
  have hawaited := awaited_taken he (none : Option (Msg T))
  have huncleared := uncleared_taken (s := s) (i := i) (e := e) none
  have hfailed := failedReads_taken (s := s) (i := i) (e := e) none
  have hscreen : (s.taken i e none).screen = s.screen := rfl
  simp [hread] at hawaited huncleared hfailed
  constructor
  · rw [hscreen, hawaited, huncleared]
    exact h.upper
  · rw [hscreen, hawaited, huncleared, hfailed]
    exact h.lower

end Taken

/-- Only a read is given up without a word. -/
theorem counted_eq_false_of_perform
    {e : Effect} {reply : Reply T e}
    (h : perform I e reply = none) :
    e.counted = false := by
  cases e with
  | review | logs | browse | browseRun | cancel | quit => rfl
  | refresh | verify => cases h
  | answer | trigger | stop | removeSandbox => cases reply <;> cases h

theorem accounted_step
    {s : Session T}
    (h : s.Accounted)
    (move : Move T) :
    (s.step I move).Accounted := by
  cases move with
  | key | resize | tick | interrupt => exact accounted_turn I h _ rfl
  | report i reply =>
      unfold step
      dsimp only
      split
      · exact h
      · rename_i e he
        split
        · rename_i hmsg
          rw [hmsg]
          exact accounted_dropped h he (counted_eq_false_of_perform I hmsg)
        · rename_i msg hmsg
          rw [hmsg]
          exact accounted_report I h he msg

/-- The count keeps its worth through a whole session. -/
theorem accounted_run
    (m : Model T)
    (hidle : m.inFlight = 0)
    (moves : List (Move T)) :
    (runFrom (step I) (start m) moves).Accounted := by
  induction moves using List.reverseRecOn with
  | nil =>
      exact ⟨by simp [start, hidle], by simp [start, awaited, uncleared]⟩
  | append_singleton moves move ih =>
      rw [runFrom_append, runFrom_cons, runFrom_nil]
      exact accounted_step I ih move

/-- The clock starts a pass when one is due and nothing is counted. -/
theorem refresh_mem_tick_iff (m : Model T) (now : Int) :
    Effect.refresh ∈ (m.update I (.tick now)).2 ↔
      { m with now := now }.due ∧ m.inFlight = 0 := by
  unfold Model.update
  dsimp only
  split
  · rename_i hstart
    exact iff_of_true (List.mem_singleton_self _) hstart
  · rename_i hstart
    exact iff_of_false (by simp) hstart

/-- In every session, whatever is reported in whatever order, `inFlight` is what is
being performed and what has been reported without lowering it, less the failures of
reads that were never counted.  The clock starts a pass exactly when one is due and
that is nothing: while no read has failed, no pass is started by it after the first
effect that was agreed to has been reported as done or refused. -/
theorem clock_starts_pass_iff
    (env : Env) (refresh began : Int) (empty : Snapshot T) (clear : Attention T)
    (moves : List (Move T)) (now : Int) :
    let s := runFrom (step I) (start (Model.new env refresh began empty clear)) moves
    s.screen.inFlight ≤ s.awaited + s.uncleared ∧
      s.awaited + s.uncleared ≤ s.screen.inFlight + s.failedReads ∧
      (Effect.refresh ∈ (s.screen.update I (.tick now)).2 →
        s.awaited + s.uncleared ≤ s.failedReads) ∧
      (s.failedReads = 0 →
        (Effect.refresh ∈ (s.screen.update I (.tick now)).2 ↔
          { s.screen with now := now }.due ∧ s.awaited = 0 ∧ s.uncleared = 0)) := by
  intro s
  have h : s.Accounted := accounted_run I _ rfl moves
  have hupper := h.upper
  have hlower := h.lower
  have hmem := refresh_mem_tick_iff I s.screen now
  refine ⟨hupper, hlower, ?_, ?_⟩
  · intro hstart
    have hidle := (hmem.mp hstart).2
    omega
  · intro hfailed
    rw [hmem]
    constructor
    · rintro ⟨hdue, hidle⟩
      exact ⟨hdue, by omega, by omega⟩
    · rintro ⟨hdue, hawaited, huncleared⟩
      exact ⟨hdue, by omega⟩

end Session

end Performing

namespace Session

/-- Everything is done, and a pass finds nothing. -/
def promptReply : (e : Effect) → Reply Unit e
  | .refresh => (Model.bareSnapshot, ⟨[], ()⟩)
  | .review id => .ok ⟨id, "", true⟩
  | .answer id decision _ _ => .ok ⟨id, decision, "", false, 0⟩
  | .trigger dagId _ _ => .ok (⟨dagId, "r1".toList⟩, [])
  | .stop .. | .removeSandbox .. => .ok ()
  | .browseRun _ => .ok []
  | .verify _ => .error ⟨⟨.notFound, "no such delivery"⟩, none⟩
  | .logs .. => .ok ⟨[], 0, []⟩
  | .browse _ | .cancel | .quit => ()

/-- A pass, a submission that is agreed to and done, and the pass that follows it. -/
def submitOnce : List (Move Unit) :=
  [.tick 0, .report 0 promptReply, .key ⟨.char 't', false⟩, .key ⟨.char '4', false⟩,
    .key ⟨.enter, false⟩, .key ⟨.char 'y', false⟩, .report 0 promptReply, .report 0 promptReply]

/-- An hour later the clock starts no pass, though nothing is being performed. -/
theorem clock_starts_pass_iff_submitted :
    let s := runFrom (step Model.bareInterface)
      (start (Model.new Model.sampleEnv (5 * 10 ^ 9) 0 Model.bareSnapshot ⟨[], ()⟩)) submitOnce
    s.outstanding = [] ∧
      { s.screen with now := 3600 * 10 ^ 9 }.due ∧
      Effect.refresh ∉ (s.screen.update Model.bareInterface (.tick (3600 * 10 ^ 9))).2 := by
  intro s
  refine ⟨by decide, by decide, fun hstart => ?_⟩
  have hidle := ((clock_starts_pass_iff Model.bareInterface Model.sampleEnv (5 * 10 ^ 9) 0
    Model.bareSnapshot ⟨[], ()⟩ submitOnce (3600 * 10 ^ 9)).2.2.2 (by decide)).mp hstart
  exact absurd hidle.2.2 (by decide)

end Session

end Terminal
end SwFactory
