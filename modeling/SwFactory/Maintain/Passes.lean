import SwFactory.Maintain.Ledger

/-!
# No incident is filed twice, and which ones are lost

An entry of the ledger is never changed by a later pass, and a pass that
completes leaves a receipt at every entry it made.  So no issue is created
twice, and a pass loses an incident exactly when it acts on one whose filing an
earlier pass began and did not settle.

Source: `maintain.py` (`run`).
-/

namespace SwFactory
namespace Maintain

open Lexical
open Machine

section Invariants

variable (digest : Digested → Text)
variable (p : Pass)
variable (l₀ : IncidentLedger)

/-- What holds of the ledger and the issues between any two statements. -/
structure Sound (w : World) : Prop where
  once : (w.created.map (IncidentIdentity.key digest)).Nodup
  known : ∀ i ∈ w.created, i.key digest ∈ w.file.states.keys
  real : ∀ k, (w.file.receipts.get? k).isSome → ∃ i ∈ w.created, i.key digest = k
  receipt : ∀ k, (w.file.receipts.get? k).isSome ↔ w.file.states.get? k = some .opened
  notClosed : ∀ k, w.file.states.get? k ≠ some .closed

/-- The pass calls an incident filed without a receipt only if an earlier one left it so. -/
def Told (printed : List Notice) : Prop :=
  ∀ k, .alreadyFiled k none ∈ printed →
    l₀.Unsettled k ∧ ∃ b ∈ p.breaches, b.action ≠ .log ∧ p.key digest b = k

/-- What holds between any two statements of a pass that loads `l₀`. -/
structure Since (w : World) : Prop extends Sound digest w where
  kept : ∀ k ∈ l₀.states.keys, w.file.states.get? k = l₀.states.get? k ∧
    w.file.receipts.get? k = l₀.receipts.get? k
  told : Told digest p l₀ w.printed

/-- The breaches `done` have been handled; at most the incident `current` is being filed. -/
structure Going (done : List Breach) (current : Option Text) (w : World) : Prop
    extends Since digest p l₀ w where
  settled : ∀ k, k ∉ l₀.states.keys → k ∈ w.file.states.keys → current ≠ some k →
    (w.file.receipts.get? k).isSome
  filed : ∀ b ∈ done, b.action ≠ .log → p.key digest b ∈ w.file.states.keys

end Invariants

variable {digest : Digested → Text}
variable {digit : Char → Option Nat}
variable {p : Pass}
variable {l₀ : IncidentLedger}

theorem IncidentLedger.get?_of_mem {l : IncidentLedger} {k : Text} (h : k ∈ l.states.keys) :
    ∃ s, l.states.get? k = some s := by
  cases hget : l.states.get? k with
  | none => exact absurd h (Dict.get?_eq_none_iff.mp hget)
  | some s => exact ⟨s, rfl⟩

theorem IncidentLedger.mem_of_get? {l : IncidentLedger} {k : Text} {s : IncidentState}
    (h : l.states.get? k = some s) : k ∈ l.states.keys := by
  by_contra hk
  rw [Dict.get?_eq_none_iff.mpr hk] at h
  cases h

/-! ## What the methods do to the ledger -/

section Methods

variable {l l' : IncidentLedger}
variable {identity : IncidentIdentity}

theorem beginCreate_eq_ok (h : l.beginCreate digest identity = .ok l') :
    l' = l.mark (identity.key digest) .creating := by
  unfold IncidentLedger.beginCreate at h
  dsimp only at h
  split at h
  · cases h
    rfl
  · cases h

theorem markUnknown_eq_ok (h : l.markUnknown digest identity = .ok l') :
    l' = l.mark (identity.key digest) .inDoubt := by
  unfold IncidentLedger.markUnknown at h
  dsimp only at h
  split at h
  · cases h
    rfl
  · cases h

theorem recordCreated_eq_ok {number : Nat} {url : Text} {content : Digested}
    (h : l.recordCreated digest identity number url content = .ok l') :
    ∃ receipt, l' = { l with receipts := l.receipts.assign (identity.key digest) receipt }.mark
      (identity.key digest) .opened := by
  unfold IncidentLedger.recordCreated at h
  dsimp only at h
  split at h
  · cases h
  · split at h
    · cases h
    · cases h
      exact ⟨_, rfl⟩

end Methods

/-! ## What a change of the world keeps -/

section Changes

variable {done : List Breach}
variable {current : Option Text}
variable {w : World}
variable {k : Text}

theorem Going.print (h : Going digest p l₀ done current w) (notice : Notice)
    (hnotice : ∀ k, notice = .alreadyFiled k none →
      l₀.Unsettled k ∧ ∃ b ∈ p.breaches, b.action ≠ .log ∧ p.key digest b = k) :
    Going digest p l₀ done current { w with printed := w.printed ++ [notice] } where
  toSince := { h.toSince with
    told := fun k hk => by
      rcases List.mem_append.mp hk with hk | hk
      · exact h.told k hk
      · exact hnotice k (List.mem_singleton.mp hk).symm }
  settled := h.settled
  filed := h.filed

/-- The filing of a new incident goes on. -/
theorem Going.mark (h : Going digest p l₀ done current w) (hcurrent : ∀ j, current = some j → j = k)
    (hnew : k ∉ l₀.states.keys) (hnone : w.file.receipts.get? k = none) {s : IncidentState}
    (hopened : s ≠ .opened) (hclosed : s ≠ .closed) :
    Going digest p l₀ done (some k) { w with file := w.file.mark k s } where
  once := h.once
  known i hi := Dict.mem_keys_assign.mpr (Or.inr (h.known i hi))
  real := h.real
  receipt j := by
    show (w.file.receipts.get? j).isSome ↔ (w.file.states.assign k s).get? j = _
    rw [Dict.get?_assign]
    split
    · next hj =>
        subst hj
        simp [hnone, hopened]
    · exact h.receipt j
  notClosed j := by
    show (w.file.states.assign k s).get? j ≠ _
    rw [Dict.get?_assign]
    split
    · simp [hclosed]
    · exact h.notClosed j
  kept j hj := by
    have hne : j ≠ k := fun heq => hnew (heq ▸ hj)
    refine ⟨?_, (h.kept j hj).2⟩
    show (w.file.states.assign k s).get? j = _
    rw [Dict.get?_assign, if_neg hne, (h.kept j hj).1]
  told := h.told
  settled j hj hmem hne := by
    have hother : j ≠ k := fun heq => hne (heq ▸ rfl)
    refine h.settled j hj ((Dict.mem_keys_assign.mp hmem).resolve_left hother) fun heq => ?_
    exact hother (hcurrent j heq)
  filed b hb hlog := Dict.mem_keys_assign.mpr (Or.inr (h.filed b hb hlog))

/-- An issue is created for an incident that has none. -/
theorem Going.created (h : Going digest p l₀ done current w) {identity : IncidentIdentity}
    (hnone : identity.key digest ∉ w.created.map (IncidentIdentity.key digest))
    (hmem : identity.key digest ∈ w.file.states.keys) :
    Going digest p l₀ done current { w with created := identity :: w.created } where
  once := List.nodup_cons.mpr ⟨hnone, h.once⟩
  known i hi := by
    rcases List.mem_cons.mp hi with rfl | hi
    · exact hmem
    · exact h.known i hi
  real k hk := by
    obtain ⟨i, hi, heq⟩ := h.real k hk
    exact ⟨i, List.mem_cons_of_mem _ hi, heq⟩
  receipt := h.receipt
  notClosed := h.notClosed
  kept := h.kept
  told := h.told
  settled := h.settled
  filed := h.filed

/-- The incident that was being filed gets its receipt. -/
theorem Going.recorded (h : Going digest p l₀ done (some k) w) (hnew : k ∉ l₀.states.keys)
    (hreal : ∃ i ∈ w.created, i.key digest = k) (receipt : IncidentReceipt) :
    Going digest p l₀ done none { w with
      file := { w.file with receipts := w.file.receipts.assign k receipt }.mark k .opened } where
  once := h.once
  known i hi := Dict.mem_keys_assign.mpr (Or.inr (h.known i hi))
  real j hj := by
    change ((w.file.receipts.assign k receipt).get? j).isSome at hj
    rw [Dict.get?_assign] at hj
    split at hj
    · next heq => exact heq ▸ hreal
    · exact h.real j hj
  receipt j := by
    show ((w.file.receipts.assign k receipt).get? j).isSome ↔
      (w.file.states.assign k .opened).get? j = _
    rw [Dict.get?_assign, Dict.get?_assign]
    split
    · simp
    · exact h.receipt j
  notClosed j := by
    show (w.file.states.assign k .opened).get? j ≠ _
    rw [Dict.get?_assign]
    split
    · simp
    · exact h.notClosed j
  kept j hj := by
    have hne : j ≠ k := fun heq => hnew (heq ▸ hj)
    show (w.file.states.assign k .opened).get? j = _ ∧
      (w.file.receipts.assign k receipt).get? j = _
    rw [Dict.get?_assign, Dict.get?_assign, if_neg hne, if_neg hne]
    exact h.kept j hj
  told := h.told
  settled j hj hmem _ := by
    show ((w.file.receipts.assign k receipt).get? j).isSome
    rw [Dict.get?_assign]
    split
    · rfl
    · next hne =>
        exact h.settled j hj ((Dict.mem_keys_assign.mp hmem).resolve_left hne)
          fun heq => hne (Option.some.inj heq).symm
  filed b hb hlog := Dict.mem_keys_assign.mpr (Or.inr (h.filed b hb hlog))

/-- An entry without a receipt is one that the pass has loaded so. -/
theorem Going.unsettled (h : Going digest p l₀ done none w) (hmem : k ∈ w.file.states.keys)
    (hnone : w.file.receipts.get? k = none) : l₀.Unsettled k := by
  have hold : k ∈ l₀.states.keys := by
    by_contra hnew
    have hsome := h.settled k hnew hmem (by rintro ⟨⟩)
    rw [hnone] at hsome
    cases hsome
  obtain ⟨s, hs⟩ := IncidentLedger.get?_of_mem hmem
  have hopened : s ≠ .opened := by
    rintro rfl
    have hsome := (h.receipt k).mpr hs
    rw [hnone] at hsome
    cases hsome
  have hclosed : s ≠ .closed := fun heq => h.notClosed k (heq ▸ hs)
  rw [(h.kept k hold).1] at hs
  unfold IncidentLedger.Unsettled
  rw [hs]
  cases s <;> simp_all

end Changes

/-! ## The statements -/

section Statements

variable {α : Type}
variable {Q : Except Failure α → World → Prop}
variable {w : World}

/-- The pass may be killed behind every statement, and `Q` holds where the program ends. -/
abbrev Runs (digest : Digested → Text) (p : Pass) (l₀ : IncidentLedger)
    (Q : Except Failure α → World → Prop) (prog : Script α) (w : World) : Prop :=
  Survives exec (Since digest p l₀) Q prog w

theorem Runs.print {f : Unit → Script α} {notice : Notice}
    (hsince : Since digest p l₀ { w with printed := w.printed ++ [notice] })
    (h : Runs digest p l₀ Q (f ⟨⟩) { w with printed := w.printed ++ [notice] }) :
    Runs digest p l₀ Q (Maintain.print notice >>= f) w :=
  fun _ => ⟨hsince, h⟩

theorem Runs.save {f : Unit → Script α} {l : IncidentLedger}
    (hraised : ∀ e, Q (.error e) w)
    (hbefore : Since digest p l₀ w)
    (hsince : Since digest p l₀ { w with file := l })
    (h : Runs digest p l₀ Q (f ⟨⟩) { w with file := l }) :
    Runs digest p l₀ Q (Maintain.save l >>= f) w := by
  intro i
  cases hi : i.raises with
  | true =>
      simp only [exec, hi, if_true]
      exact ⟨hbefore, hraised _⟩
  | false =>
      simp only [exec, hi]
      exact ⟨hsince, h⟩

theorem Runs.diagnose {f : Diagnosed → Script α} {b : Breach}
    (hraised : ∀ e, Q (.error e) w)
    (hsince : Since digest p l₀ w)
    (h : ∀ d, Runs digest p l₀ Q (f d) w) :
    Runs digest p l₀ Q (Maintain.diagnose b >>= f) w := by
  intro i
  cases hi : i.raises with
  | true =>
      simp only [exec, hi, if_true]
      exact ⟨hsince, hraised _⟩
  | false =>
      simp only [exec, hi]
      exact ⟨hsince, h _⟩

theorem Runs.load {f : IncidentLedger → Script α}
    (hraised : ∀ e, Q (.error e) w)
    (hsince : Since digest p l₀ w)
    (h : Runs digest p l₀ Q (f w.file) w) :
    Runs digest p l₀ Q (Maintain.load >>= f) w := by
  intro i
  cases hi : i.raises with
  | true =>
      simp only [exec, hi, if_true]
      exact ⟨hsince, hraised _⟩
  | false =>
      simp only [exec, hi]
      exact ⟨hsince, h⟩

/-- The issue is opened, or the request fails behind or in front of its creation. -/
theorem Runs.openIssue {f : Except Failure Text → Script α} {identity : IncidentIdentity}
    {issue : Issue}
    (hbefore : Since digest p l₀ w)
    (hsince : Since digest p l₀ { w with created := identity :: w.created })
    (hopened : ∀ url, Runs digest p l₀ Q (f (.ok url)) { w with created := identity :: w.created })
    (hlanded : ∀ e, Runs digest p l₀ Q (f (.error e)) { w with created := identity :: w.created })
    (hfailed : ∀ e, Runs digest p l₀ Q (f (.error e)) w) :
    Runs digest p l₀ Q (Prog.perform (.openIssue identity issue) >>= f) w := by
  intro i
  cases hraises : i.raises with
  | false =>
      simp only [exec, hraises]
      exact ⟨hsince, hopened _⟩
  | true =>
      cases hcreated : i.created with
      | true =>
          simp only [exec, hraises, hcreated]
          exact ⟨hsince, hlanded _⟩
      | false =>
          simp only [exec, hraises, hcreated]
          exact ⟨hbefore, hfailed _⟩

theorem Runs.ofExcept {β : Type} {f : β → Script α} {x : Except Failure β}
    (hraised : ∀ e, Q (.error e) w)
    (h : ∀ a, x = .ok a → Runs digest p l₀ Q (f a) w) :
    Runs digest p l₀ Q (Prog.ofExcept x >>= f) w := by
  cases x with
  | ok a => exact h a rfl
  | error e => exact hraised e

end Statements

/-! ## The run of a pass -/

section Breaches

variable {done : List Breach}
variable {w : World}
variable {identity : IncidentIdentity}

/-- Where a breach was handled without an exception, the ledger in memory is the one saved. -/
def Ends (digest : Digested → Text) (p : Pass) (l₀ : IncidentLedger) (done : List Breach)
    (r : Except Failure IncidentLedger) (w : World) : Prop :=
  ∀ l, r = .ok l → w.file = l ∧ Going digest p l₀ done none w

theorem Ends.error (e : Failure) : Ends digest p l₀ done (.error e) w := by
  rintro l ⟨⟩

theorem settle_runs (h : Going digest p l₀ done (some (identity.key digest)) w)
    (hnew : identity.key digest ∉ l₀.states.keys)
    (hnone : w.file.receipts.get? (identity.key digest) = none)
    {answer : Except Failure Text}
    (hreal : ∀ url, answer = .ok url → ∃ i ∈ w.created, i.key digest = identity.key digest)
    (b : Breach) (d : Diagnosed) :
    Runs digest p l₀ (Ends digest p l₀ done)
      (settle digest digit w.file identity b d answer) w := by
  cases answer with
  | error e =>
      refine Runs.ofExcept .error fun l hl => ?_
      obtain rfl := markUnknown_eq_ok hl
      have hmarked := h.mark (s := .inDoubt) (fun j hj => (Option.some.inj hj).symm) hnew hnone
        (by rintro ⟨⟩) (by rintro ⟨⟩)
      exact Runs.save .error h.toSince hmarked.toSince (.error e)
  | ok url =>
      refine Runs.ofExcept .error fun number _ => Runs.ofExcept .error fun l hl => ?_
      obtain ⟨receipt, rfl⟩ := recordCreated_eq_ok hl
      have hrecorded := h.recorded hnew (hreal url rfl) receipt
      have htold := hrecorded.print (.opened url) (by rintro k ⟨⟩)
      refine Runs.save .error h.toSince hrecorded.toSince (Runs.print htold.toSince ?_)
      rintro l ⟨⟩
      exact ⟨rfl, htold⟩

theorem create_runs (h : Going digest p l₀ done (some (identity.key digest)) w)
    (hnew : identity.key digest ∉ l₀.states.keys)
    (hnone : w.file.receipts.get? (identity.key digest) = none)
    (hunfiled : identity.key digest ∉ w.created.map (IncidentIdentity.key digest))
    (b : Breach) (d : Diagnosed) :
    Runs digest p l₀ (Ends digest p l₀ done) (create digest digit w.file identity b d) w := by
  refine Runs.ofExcept .error fun l hl => ?_
  obtain rfl := beginCreate_eq_ok hl
  have hmarked := h.mark (s := .creating) (fun j hj => (Option.some.inj hj).symm) hnew hnone
    (by rintro ⟨⟩) (by rintro ⟨⟩)
  have hcreated := hmarked.created hunfiled
    (Dict.mem_keys_assign.mpr (Or.inl rfl))
  refine Runs.save .error h.toSince hmarked.toSince
    (Runs.openIssue hmarked.toSince hcreated.toSince (fun url => ?_) (fun e => ?_) (fun e => ?_))
  · exact settle_runs hcreated hnew hnone (fun _ _ => ⟨identity, List.mem_cons_self, rfl⟩) b d
  · exact settle_runs hcreated hnew hnone (by rintro _ ⟨⟩) b d
  · exact settle_runs hmarked hnew hnone (by rintro _ ⟨⟩) b d

/-- **One breach.** -/
theorem handle_runs (h : Going digest p l₀ done none w) {b : Breach} (hb : b ∈ p.breaches) :
    Runs digest p l₀ (Ends digest p l₀ (b :: done)) (p.handle digest digit w.file b) w := by
  have hsaid := h.print (.breach b) (by rintro k ⟨⟩)
  refine Runs.print hsaid.toSince ?_
  dsimp only
  split
  · next hlog =>
      rintro l ⟨⟩
      exact ⟨rfl, { hsaid with
        filed := fun b' hb' hnot => by
          rcases List.mem_cons.mp hb' with rfl | hb'
          · exact absurd hlog hnot
          · exact hsaid.filed b' hb' hnot }⟩
  · next hact =>
      refine Runs.diagnose .error hsaid.toSince fun d => ?_
      have hwrote := hsaid.print (.wrote b.metric) (by rintro k ⟨⟩)
      refine Runs.print hwrote.toSince ?_
      unfold IncidentLedger.propose
      dsimp only
      split
      · next hmem =>
          have hdone : Going digest p l₀ (b :: done) none _ := { hwrote with
            filed := fun b' hb' hnot => by
              rcases List.mem_cons.mp hb' with rfl | hb'
              · exact hmem
              · exact hwrote.filed b' hb' hnot }
          have htold := hdone.print
            (.alreadyFiled ((p.incidentIdentity digest b).key digest)
              ((w.file.receipts.get? ((p.incidentIdentity digest b).key digest)).map
                IncidentReceipt.issueUrl))
            (fun k hk => by
              injection hk with hkey hurl
              subst hkey
              exact ⟨hdone.unsettled hmem (Option.map_eq_none_iff.mp hurl), b, hb, hact, rfl⟩)
          refine Runs.save .error hwrote.toSince hwrote.toSince (Runs.print htold.toSince ?_)
          rintro l ⟨⟩
          exact ⟨rfl, htold⟩
      · next hfresh =>
          have hnew : (p.incidentIdentity digest b).key digest ∉ l₀.states.keys := by
            intro hold
            obtain ⟨s, hs⟩ := IncidentLedger.get?_of_mem hold
            exact hfresh (IncidentLedger.mem_of_get? ((h.kept _ hold).1.trans hs))
          have hnone : w.file.receipts.get? ((p.incidentIdentity digest b).key digest) = none := by
            rw [← Option.not_isSome_iff_eq_none, h.receipt, Dict.get?_eq_none_iff.mpr hfresh]
            rintro ⟨⟩
          have hproposed := hwrote.mark (s := .proposed) (by rintro j ⟨⟩) hnew hnone
            (by rintro ⟨⟩) (by rintro ⟨⟩)
          have hdone : Going digest p l₀ (b :: done) _ _ := { hproposed with
            filed := fun b' hb' hnot => by
              rcases List.mem_cons.mp hb' with rfl | hb'
              · exact Dict.mem_keys_assign.mpr (Or.inl rfl)
              · exact hproposed.filed b' hb' hnot }
          refine Runs.save .error hwrote.toSince hdone.toSince
            (create_runs hdone hnew hnone (fun hfiled => ?_) b d)
          obtain ⟨i, hi, hkey⟩ := List.mem_map.mp hfiled
          exact hfresh (hkey ▸ h.known i hi)

/-- **All the breaches.** -/
theorem handleAll_runs (digit : Char → Option Nat) (bs : List Breach) :
    ∀ (done : List Breach) (w : World), (∀ b ∈ bs, b ∈ p.breaches) →
      Going digest p l₀ done none w →
      Runs digest p l₀ (fun r w => r = .ok ⟨⟩ → Going digest p l₀ (bs.reverse ++ done) none w)
        (p.handleAll digest digit bs w.file) w := by
  induction bs with
  | nil => exact fun done w _ h _ => h
  | cons b bs ih =>
      intro done w hbs h
      refine Survives.bind (handle_runs h (hbs b List.mem_cons_self)) ?_ (by rintro e w _ ⟨⟩)
      intro l w' hw'
      obtain ⟨rfl, hgoing⟩ := hw' l rfl
      have hrest := ih (b :: done) w' (fun b' hb' => hbs b' (List.mem_cons_of_mem _ hb')) hgoing
      rw [List.reverse_cons, List.append_assoc]
      exact hrest

end Breaches

section Whole

variable {w : World}

theorem Sound.start (h : Sound digest w) :
    Going digest p w.file [] none { w with printed := [] } where
  toSound := { h with }
  kept _ _ := ⟨rfl, rfl⟩
  told := by rintro k ⟨⟩
  settled k hnew hmem := absurd hmem hnew
  filed := by rintro b ⟨⟩

theorem run_runs (digit : Char → Option Nat) (h : Sound digest w) :
    Runs digest p w.file
      (fun r w' => (∃ bs, r = .ok bs) → Going digest p w.file p.breaches.reverse none w')
      (p.run digest digit) { w with printed := [] } := by
  have hsaid := h.start.print (p := p) (.window p.runs.length p.breaches.length)
    (by rintro k ⟨⟩)
  have hraised : ∀ (e : Failure) (w' : World), (∃ bs, (.error e : Except Failure (List Breach)) =
      .ok bs) → Going digest p w.file p.breaches.reverse none w' := by
    rintro e w' ⟨bs, ⟨⟩⟩
  refine Runs.print hsaid.toSince (Runs.load (fun e => hraised e _) hsaid.toSince ?_)
  have hall := handleAll_runs digit p.breaches [] _ (fun b hb => hb) hsaid
  rw [List.append_nil] at hall
  exact Survives.bind hall (fun _ w' hw' _ => hw' rfl) fun e w' _ => hraised e w'

theorem perform_since (digit : Char → Option Nat) (h : Sound digest w) :
    Since digest p w.file (p.perform digest digit w).2 ∧
      (p.Completes digest digit w →
        Going digest p w.file p.breaches.reverse none (p.perform digest digit w).2) := by
  obtain ⟨hsince, hends⟩ := (run_runs digit h).play h.start.toSince p.inputs
  exact ⟨hsince, fun hdone => Exists.elim hdone fun bs hbs => hends _ hbs ⟨bs, rfl⟩⟩

theorem sound_after (digest : Digested → Text) (digit : Char → Option Nat) (passes : List Pass) :
    Sound digest (after digest digit passes) := by
  have hall : ∀ w, Sound digest w →
      Sound digest (passes.foldl (fun w p => (p.perform digest digit w).2) w) := by
    induction passes with
    | nil => exact fun w h => h
    | cons p passes ih => exact fun w h => ih _ (perform_since digit h).1.toSound
  refine hall _ ⟨List.nodup_nil, ?_, ?_, ?_, ?_⟩
  · rintro i ⟨⟩
  · rintro k ⟨⟩
  · exact fun k => ⟨nofun, nofun⟩
  · rintro k ⟨⟩

/-- An incident that no earlier pass left unsettled has a receipt once it is handled. -/
theorem filed_of_clear (h : Sound digest w) (hclear : p.Clear digest w.file)
    (hdone : p.Completes digest digit w) :
    p.Filed digest (p.perform digest digit w).2.file := by
  intro b hb hact
  have hgoing := (perform_since digit h).2 hdone
  have hmem := hgoing.filed b (List.mem_reverse.mpr hb) hact
  by_cases hold : p.key digest b ∈ w.file.states.keys
  · obtain ⟨s, hs⟩ := IncidentLedger.get?_of_mem hold
    have hnot := hclear b hb hact
    unfold IncidentLedger.Unsettled at hnot
    have hopened : s = .opened := by
      have hclosed : s ≠ .closed := fun heq => h.notClosed _ (heq ▸ hs)
      rw [hs] at hnot
      cases s <;> simp_all
    rw [(hgoing.kept _ hold).2]
    exact (h.receipt _).mpr (hopened ▸ hs)
  · exact hgoing.settled _ hold hmem (by rintro ⟨⟩)

/-- A pass that completes touches no entry that it has loaded. -/
theorem clear_of_filed (h : Sound digest w) (hfiled : p.Filed digest (p.perform digest digit w).2.file) :
    p.Clear digest w.file := by
  intro b hb hact hunsettled
  have hold : p.key digest b ∈ w.file.states.keys := by
    rcases hunsettled with hs | hs | hs <;> exact IncidentLedger.mem_of_get? hs
  have hsome := hfiled b hb hact
  rw [((perform_since digit h).1.kept _ hold).2, h.receipt] at hsome
  rcases hunsettled with hs | hs | hs <;> simp [hs] at hsome

/-- **No incident is filed twice, and a pass loses one exactly if an earlier pass left it
unsettled.** -/
theorem incident_kept_iff
    (digest : Digested → Text)
    (digit : Char → Option Nat)
    (passes : List Pass)
    (p : Pass) :
    (∀ identity, (after digest digit passes).created.count identity ≤ 1) ∧
      (∀ k, ((after digest digit passes).file.receipts.get? k).isSome →
        ∃ i ∈ (after digest digit passes).created, i.key digest = k) ∧
      (p.Clear digest (after digest digit passes).file →
        p.Keeps digest digit (after digest digit passes)) ∧
      (p.Completes digest digit (after digest digit passes) →
        (p.Keeps digest digit (after digest digit passes) ↔
          p.Clear digest (after digest digit passes).file)) := by
  have hsound := sound_after digest digit passes
  have hkeeps : p.Clear digest (after digest digit passes).file →
      p.Keeps digest digit (after digest digit passes) := fun hclear =>
    { filed := filed_of_clear hsound hclear
      honest := fun k hk => by
        obtain ⟨hunsettled, b, hb, hact, rfl⟩ := (perform_since digit hsound).1.told k hk
        exact hclear b hb hact hunsettled }
  refine ⟨fun identity => ?_, hsound.real, hkeeps, fun hdone => ⟨fun h => ?_, hkeeps⟩⟩
  · exact List.nodup_iff_count_le_one.mp (List.Nodup.of_map _ hsound.once) identity
  · exact clear_of_filed hsound (h.filed hdone)

section Failing

/-- Keys that are told apart by the metric. -/
def metricOf : Digested → Text
  | .identity identity => identity.metric
  | _ => []

def blockers : Breach :=
  ⟨"blockers".toList, 3, "9".toList, "1".toList, "1".toList, .propose⟩

def answers (raises : Bool) : Input :=
  ⟨raises, false, [], ⟨[], []⟩⟩

/-- The request for the issue fails, and nothing was created. -/
def refused : Pass where
  repo := "o/r".toList
  runs := [⟨"r1".toList, []⟩]
  bands := []
  breaches := [blockers]
  inputs := List.replicate 7 (answers false) ++ [answers true, answers false]

/-- The same evidence, and an outside that is well again. -/
def again : Pass :=
  { refused with inputs := List.replicate 7 (answers false) }

/-- The second pass completes, and the incident has no issue. -/
theorem refused_incident_lost :
    ¬ ∀ passes p, Pass.Keeps metricOf (fun _ => none) p (after metricOf (fun _ => none) passes) := by
  intro h
  have hkeeps := h [refused] again
  have hsome := hkeeps.filed ⟨again.breaches, rfl⟩ blockers List.mem_cons_self (by rintro ⟨⟩)
  exact absurd hsome (by decide)

end Failing

end Whole

end Maintain
end SwFactory
