import SwFactory.Cells.Store

/-!
# Factory Cells: effects

What each operation has found and written when it returns, and what it raises.
The rest of the development uses these lemmas and not the definitions.
-/

namespace SwFactory
namespace Cells

open Text Machine

/-- No two Cells share an id. -/
def Store.Keyed (s : Store) : Prop :=
  Machine.Keyed Cell.cellId s.cells

/-- The key stands on the timeline of the Cell. -/
def Store.HasKey (s : Store) (cellId operationKey : String) : Prop :=
  ∃ e ∈ s.events, e.cellId = cellId ∧ e.operationKey = operationKey

instance (s : Store) (cellId operationKey : String) :
    Decidable (s.HasKey cellId operationKey) :=
  inferInstanceAs (Decidable (∃ e ∈ s.events, _))

/-- The store with one more event. -/
def Store.push (m : Mutation) (now : Time) (s : Store) : Store :=
  { s with
    events := s.events ++
      [{ m with seq := s.events.length + 1, createdAt := now }] }

namespace Store

variable {stableId : CellIdentity → String}
variable {s : Store} {cellId : String} {c : Cell}

@[simp] theorem push_cells (m : Mutation) (now : Time) :
    (s.push m now).cells = s.cells :=
  rfl

@[simp] theorem find_push (m : Mutation) (now : Time) (x : String) :
    (s.push m now).find x = s.find x :=
  rfl

theorem mem_push_events {m : Mutation} {now : Time} {e : Event} :
    e ∈ (s.push m now).events ↔
      e ∈ s.events ∨
        e = { m with seq := s.events.length + 1, createdAt := now } := by
  simp [push]

theorem find_some (h : s.find cellId = some c) :
    c ∈ s.cells ∧ c.cellId = cellId :=
  lookup_some h

theorem Keyed.find_eq (hs : s.Keyed) (hc : c ∈ s.cells) :
    s.find c.cellId = some c :=
  Machine.Keyed.lookup_eq hs hc

/-- The rows behind an `UPDATE`. -/
theorem find_updateWhere {guard : Cell → Bool} {f : Cell → Cell}
    (hf : ∀ c, (f c).cellId = c.cellId) (x : String) :
    (s.updateWhere cellId guard f).2.find x =
      if x = cellId then (s.find x).map (fun c => if guard c then f c else c)
      else s.find x := by
  have hkey : ∀ c : Cell, (if guard c then f c else c).cellId = c.cellId := by
    intro c
    split
    · exact hf c
    · rfl
  have hfind : (s.updateWhere cellId guard f).2.find x =
      (s.find x).map (fun c =>
        if c.cellId = cellId then (if guard c then f c else c) else c) :=
    lookup_updateRows hkey x
  rw [hfind]
  cases hx : s.find x with
  | none => simp
  | some c =>
      obtain ⟨-, rfl⟩ := find_some hx
      by_cases hc : c.cellId = cellId
      · simp [hc]
      · simp [hc]

/-- An `UPDATE` counts the row it finds. -/
theorem rowcount_updateWhere (hs : s.Keyed) {guard : Cell → Bool}
    {f : Cell → Cell} :
    (s.updateWhere cellId guard f).1 =
      if (s.find cellId).any guard then 1 else 0 := by
  have hcount : ∀ c, s.find cellId = some c → guard c = true →
      (s.updateWhere cellId guard f).1 = 1 := by
    intro c hc hguard
    obtain ⟨hmem, rfl⟩ := find_some hc
    refine Machine.Keyed.countP_eq_one hs hmem (by simp [hguard]) ?_
    intro b hb
    simp only [Bool.and_eq_true, decide_eq_true_eq] at hb
    exact hb.1
  split
  · rename_i hany
    obtain ⟨c, hc, hguard⟩ := (Option.any_eq_true _ _).mp hany
    exact hcount c hc hguard
  · rename_i hany
    refine List.countP_eq_zero.mpr (fun c hc hguard => hany ?_)
    simp only [Bool.and_eq_true, decide_eq_true_eq] at hguard
    obtain ⟨rfl, hguard⟩ := hguard
    rw [hs.find_eq hc]
    exact hguard

@[simp] theorem updateWhere_events (guard : Cell → Bool) (f : Cell → Cell) :
    (s.updateWhere cellId guard f).2.events = s.events :=
  rfl

theorem Keyed.updateWhere (hs : s.Keyed) {guard : Cell → Bool}
    {f : Cell → Cell} (hf : ∀ c, (f c).cellId = c.cellId) :
    (s.updateWhere cellId guard f).2.Keyed := by
  refine Machine.Keyed.updateRows hs (fun c => ?_)
  split
  · exact hf c
  · rfl

@[simp] theorem insertIdentity_events (identity : CellIdentity) (now : Time) :
    (s.insertIdentity stableId identity now).events = s.events := by
  unfold insertIdentity
  split <;> rfl

/-- The row that `_insert_identity` makes. -/
def newCell (stableId : CellIdentity → String) (identity : CellIdentity)
    (now : Time) : Cell where
  cellId := stableId identity
  identity := identity
  epoch := 1
  state := .created
  createdAt := now
  updatedAt := now

/-- `_insert_identity` leaves the table alone, or adds a new key to it. -/
theorem insertIdentity_cases (stableId : CellIdentity → String)
    (identity : CellIdentity) (now : Time) (s : Store) :
    s.insertIdentity stableId identity now = s ∨
      ((∀ c ∈ s.cells, c.cellId ≠ stableId identity) ∧
        s.insertIdentity stableId identity now =
          { s with cells := s.cells ++ [newCell stableId identity now] }) := by
  unfold insertIdentity
  split
  · exact Or.inl rfl
  · rename_i hany
    refine Or.inr ⟨fun c hc hid => hany ?_, rfl⟩
    exact List.any_eq_true.mpr ⟨c, hc, by simp [hid]⟩

theorem Keyed.insertIdentity (hs : s.Keyed) (identity : CellIdentity)
    (now : Time) : (s.insertIdentity stableId identity now).Keyed := by
  rcases insertIdentity_cases stableId identity now s with
    heq | ⟨hfresh, heq⟩
  · rw [heq]
    exact hs
  · rw [heq, Store.Keyed, Machine.Keyed, List.map_append]
    refine List.nodup_append'.mpr ⟨hs, by simp, ?_⟩
    intro x hx hx'
    obtain ⟨c, hc, rfl⟩ := List.mem_map.mp hx
    exact hfresh c hc (by simpa [newCell] using hx')

/-- A Cell that exists stays as it is. -/
theorem find_insertIdentity (identity : CellIdentity) (now : Time)
    (h : s.find cellId = some c) :
    (s.insertIdentity stableId identity now).find cellId = some c := by
  rcases insertIdentity_cases stableId identity now s with
    heq | ⟨-, heq⟩
  · rw [heq]
    exact h
  · rw [heq]
    unfold find lookup at h ⊢
    rw [List.find?_append, h]
    rfl

/-- A Cell that is found behind the insertion was there, or is new. -/
theorem find_insertIdentity_cases (identity : CellIdentity) (now : Time)
    (h : (s.insertIdentity stableId identity now).find cellId = some c) :
    s.find cellId = some c ∨
      (s.find cellId = none ∧ cellId = stableId identity ∧
        c = newCell stableId identity now) := by
  cases hfind : s.find cellId with
  | some c' =>
      rw [find_insertIdentity identity now hfind] at h
      exact Or.inl h
  | none =>
      rcases insertIdentity_cases stableId identity now s with heq | ⟨-, heq⟩
      · rw [heq, hfind] at h
        cases h
      · rw [heq] at h
        unfold find lookup at h hfind
        rw [List.find?_append, hfind] at h
        have hnew : lookup Cell.cellId cellId
            [newCell stableId identity now] = some c := h
        obtain ⟨hmem, hkey⟩ := lookup_some hnew
        obtain rfl := List.mem_singleton.mp hmem
        exact Or.inr ⟨rfl, hkey.symm, rfl⟩

end Store

section Operations

variable {stableId : CellIdentity → String}
variable {s s' : Store} {cellId : String}

theorem get_ok {c : Cell} :
    get cellId s = .ok c ↔ s.find cellId = some c := by
  unfold get
  split
  · rename_i hnone
    simp [hnone]
  · rename_i c' hsome
    simp [hsome]

/-- The Cell stands at the epoch. -/
def Store.At (s : Store) (cellId : String) (epoch : Int) : Prop :=
  ∃ c ∈ s.cells, c.cellId = cellId ∧ c.epoch = epoch

theorem Store.Keyed.at_iff (hs : s.Keyed) {epoch : Int} :
    s.At cellId epoch ↔ ∃ c, s.find cellId = some c ∧ c.epoch = epoch := by
  constructor
  · rintro ⟨c, hc, rfl, hepoch⟩
    exact ⟨c, hs.find_eq hc, hepoch⟩
  · rintro ⟨c, hc, hepoch⟩
    obtain ⟨hmem, hid⟩ := Store.find_some hc
    exact ⟨c, hmem, hid, hepoch⟩

/-- Everything `_append` can do. -/
theorem append_cases (m : Mutation) (now : Time) (s : Store) :
    (s.At m.cellId m.epoch ∧ ¬ s.HasKey m.cellId m.operationKey ∧
        append m now s = .ok (s.push m now)) ∨
      (s.At m.cellId m.epoch ∧ s.HasKey m.cellId m.operationKey ∧
        append m now s = .error (.duplicateOperation m.operationKey)) ∨
      (¬ s.At m.cellId m.epoch ∧
        append m now s =
          .error (.staleEpoch m.cellId (.notCurrent m.epoch))) := by
  by_cases hat : s.At m.cellId m.epoch
  · have hany : s.cells.any (fun c =>
        decide (c.cellId = m.cellId ∧ c.epoch = m.epoch)) = true := by
      obtain ⟨c, hc, hid⟩ := hat
      exact List.any_eq_true.mpr ⟨c, hc, by simpa using hid⟩
    by_cases hkey : s.HasKey m.cellId m.operationKey
    · have hdup : s.events.any (fun e =>
          decide (e.cellId = m.cellId ∧ e.operationKey = m.operationKey)) =
            true := by
        obtain ⟨e, he, hid⟩ := hkey
        exact List.any_eq_true.mpr ⟨e, he, by simpa using hid⟩
      refine Or.inr (Or.inl ⟨hat, hkey, ?_⟩)
      simp only [append, Store.insertEvent, hany, hdup, if_true, checkInserted]
      rfl
    · have hfresh : ¬ s.events.any (fun e =>
          decide (e.cellId = m.cellId ∧ e.operationKey = m.operationKey)) =
            true := by
        intro hdup
        obtain ⟨e, he, hid⟩ := List.any_eq_true.mp hdup
        exact hkey ⟨e, he, by simpa using hid⟩
      refine Or.inl ⟨hat, hkey, ?_⟩
      simp only [append, Store.insertEvent, hany, if_true, if_neg hfresh,
        checkInserted]
      rfl
  · have hnone : ¬ s.cells.any (fun c =>
        decide (c.cellId = m.cellId ∧ c.epoch = m.epoch)) = true := by
      intro hany
      obtain ⟨c, hc, hid⟩ := List.any_eq_true.mp hany
      exact hat ⟨c, hc, by simpa using hid⟩
    refine Or.inr (Or.inr ⟨hat, ?_⟩)
    simp only [append, Store.insertEvent, if_neg hnone, checkInserted]
    rfl

/-- What a successful `_append` found and wrote. -/
theorem append_ok {m : Mutation} {now : Time}
    (h : append m now s = .ok s') :
    s.At m.cellId m.epoch ∧ ¬ s.HasKey m.cellId m.operationKey ∧
      s' = s.push m now := by
  rcases append_cases m now s with
    ⟨hat, hkey, heq⟩ | ⟨-, -, heq⟩ | ⟨-, heq⟩
  · rw [heq] at h
    exact ⟨hat, hkey, (Except.ok.inj h).symm⟩
  · rw [heq] at h
    cases h
  · rw [heq] at h
    cases h

/--
What every writing operation has done behind the insertion of an identity: the
row of one Cell is rewritten at the epoch of one new event.
-/
structure Rewrites (m : Mutation) (c c' : Cell) (s s' : Store) : Prop where
  found : s.find m.cellId = some c
  written : s'.find m.cellId = some c'
  other : ∀ x, x ≠ m.cellId → s'.find x = s.find x
  events : ∃ now, s'.events = (s.push m now).events
  fresh : ¬ s.HasKey m.cellId m.operationKey
  epoch : c'.epoch = m.epoch
  keyed : s'.Keyed

/-- `record`. -/
theorem record_ok {m : Mutation} {now : Time} (hs : s.Keyed)
    (h : append m now s = .ok s') :
    ∃ c, Rewrites m c c s s' := by
  obtain ⟨hat, hfresh, rfl⟩ := append_ok h
  obtain ⟨c, hc, hepoch⟩ := hs.at_iff.mp hat
  exact ⟨c, hc, hc, fun _ _ => rfl, ⟨now, rfl⟩, hfresh, hepoch, hs⟩

/-- An `UPDATE` of the one row, and the event at its new epoch. -/
theorem append_updateWhere_ok {m : Mutation} {now : Time}
    {guard : Cell → Bool} {f : Cell → Cell}
    (hs : s.Keyed)
    (hf : ∀ c, (f c).cellId = c.cellId)
    (hcount : (s.updateWhere m.cellId guard f).1 = 1)
    (h : append m now (s.updateWhere m.cellId guard f).2 = .ok s') :
    ∃ c, guard c ∧ Rewrites m c (f c) s s' := by
  rw [Store.rowcount_updateWhere hs] at hcount
  obtain ⟨hat, hfresh, rfl⟩ := append_ok h
  have hs' : (s.updateWhere m.cellId guard f).2.Keyed := hs.updateWhere hf
  cases hfind : s.find m.cellId with
  | none => simp [hfind] at hcount
  | some c =>
      have hguard : guard c = true := by
        by_contra hno
        simp [hfind, hno] at hcount
      have hwritten : (s.updateWhere m.cellId guard f).2.find m.cellId =
          some (f c) := by
        rw [Store.find_updateWhere hf, if_pos rfl, hfind]
        simp [hguard]
      obtain ⟨c', hc', hepoch⟩ := hs'.at_iff.mp hat
      obtain rfl : f c = c' := Option.some.inj (hwritten.symm.trans hc')
      refine ⟨c, hguard, hfind, hwritten, fun x hx => ?_, ⟨now, rfl⟩, hfresh,
        hepoch, hs'⟩
      rw [Store.find_push, Store.find_updateWhere hf, if_neg hx]

/-- `activate`. -/
theorem activate_ok {identity : CellIdentity} {actor : String}
    {now eventAt : Time} {row : Cell} (hs : s.Keyed)
    (h : activate stableId identity actor now eventAt s = .ok (row, s')) :
    ∃ c, (c.isFresh = true ∨ c.state.isTerminal = true) ∧
      row = Store.rearm c.nextEpoch now c ∧
      Rewrites (activation (stableId identity) c.nextEpoch actor) c row
        (s.insertIdentity stableId identity now) s' := by
  have hs₁ : (s.insertIdentity stableId identity now).Keyed :=
    hs.insertIdentity identity now
  simp only [activate, bind, Except.bind] at h
  split at h
  · cases h
  rename_i c hget
  split at h
  · cases h
  rename_i hfree
  split at h
  · cases h
  rename_i hcount
  split at h
  · cases h
  rename_i s₂ happend
  split at h
  · cases h
  rename_i row' hrow
  cases h
  obtain ⟨c', hguard, hrewrites⟩ := append_updateWhere_ok
    (m := activation (stableId identity) c.nextEpoch actor)
    (f := Store.rearm c.nextEpoch now) hs₁ (fun _ => rfl)
    (not_not.mp hcount) happend
  obtain rfl : c = c' :=
    Option.some.inj ((get_ok.mp hget).symm.trans hrewrites.found)
  obtain rfl : Store.rearm c.nextEpoch now c = row :=
    Option.some.inj (hrewrites.written.symm.trans (get_ok.mp hrow))
  refine ⟨c, ?_, rfl, hrewrites⟩
  simp only [Bool.and_eq_true, Bool.not_eq_true', not_and,
    Bool.not_eq_false] at hfree
  cases hfresh : c.isFresh with
  | true => exact Or.inl rfl
  | false => exact Or.inr (hfree hfresh)

/-- `take_epoch`. -/
theorem takeEpoch_ok {expected epoch : Int} {actor : String}
    {now eventAt : Time} (hs : s.Keyed)
    (h : takeEpoch cellId expected actor now eventAt s = .ok (epoch, s')) :
    ∃ c, c.epoch = expected ∧ epoch = expected + 1 ∧
      Rewrites (takeover cellId (expected + 1) actor) c
        { c with
          epoch := expected + 1, policyDigest := none, updatedAt := now }
        s s' := by
  simp only [takeEpoch, bind, Except.bind] at h
  split at h
  · cases h
  rename_i hcount
  split at h
  · cases h
  rename_i s₁ happend
  cases h
  obtain ⟨c, hguard, hrewrites⟩ := append_updateWhere_ok
    (m := takeover cellId (expected + 1) actor)
    (f := fun c => { c with
      epoch := expected + 1, policyDigest := none, updatedAt := now })
    hs (fun _ => rfl) (not_not.mp hcount) happend
  exact ⟨c, by simpa using hguard, rfl, hrewrites⟩

/-- The row behind a patch. -/
def Cell.patched (fields : Fields) (now : Time) (c : Cell) : Cell :=
  if fields = {} then c else fields.assign now c

/-- The transaction of `patch`. -/
theorem patchWrite_ok {expected : Int} {operationKey : String}
    {fields : Fields} {now eventAt : Time} (hs : s.Keyed)
    (h : patchWrite cellId expected operationKey fields now eventAt s =
      .ok s') :
    ∃ c, c.epoch = expected ∧
      Rewrites (patching cellId expected operationKey fields) c
        (c.patched fields now) s s' := by
  simp only [patchWrite, bind, Except.bind] at h
  split at h
  · cases h
  rename_i s₁ happend
  obtain ⟨c, hrewrites⟩ := record_ok hs happend
  split at h
  · rename_i hempty
    cases h
    refine ⟨c, hrewrites.epoch, ?_⟩
    rw [Cell.patched, if_pos hempty]
    exact hrewrites
  · rename_i hempty
    split at h
    · cases h
    cases h
    have hpatched : c.patched fields now = fields.assign now c :=
      if_neg hempty
    have hepoch : c.epoch = expected := hrewrites.epoch
    have hf : ∀ c : Cell, (fields.assign now c).cellId = c.cellId :=
      fun _ => rfl
    refine ⟨c, hepoch, hrewrites.found, ?_, fun x hx => ?_, hrewrites.events,
      hrewrites.fresh, ?_, hrewrites.keyed.updateWhere hf⟩
    · have hwritten : s₁.find cellId = some c := hrewrites.written
      show (s₁.patchRow cellId expected fields now).2.find cellId = _
      rw [Store.patchRow, Store.find_updateWhere hf, if_pos rfl, hwritten,
        hpatched]
      simp [hepoch]
    · have hx' : x ≠ cellId := hx
      rw [Store.patchRow, Store.find_updateWhere hf, if_neg hx']
      exact hrewrites.other x hx
    · rw [hpatched]
      exact hrewrites.epoch

/-- `patch`. -/
theorem patch_ok {expected : Int} {operationKey : String} {fields : Fields}
    {now eventAt : Time} {updated : Cell} (hs : s.Keyed)
    (h : patch cellId expected operationKey fields now eventAt s =
      .ok (updated, s')) :
    ∃ c, c.epoch = expected ∧ updated = c.patched fields now ∧
      Rewrites (patching cellId expected operationKey fields) c updated s s' := by
  simp only [patch, bind, Except.bind] at h
  split at h
  · cases h
  split at h
  · cases h
  split at h
  · cases h
  rename_i s₁ hwrite
  split at h
  · cases h
  rename_i row hget
  cases h
  obtain ⟨c, hepoch, hrewrites⟩ := patchWrite_ok hs hwrite
  obtain rfl : c.patched fields now = updated :=
    Option.some.inj (hrewrites.written.symm.trans (get_ok.mp hget))
  exact ⟨c, hepoch, rfl, hrewrites⟩

/-- A patch is a duplicate only of a key on the timeline of its Cell. -/
theorem patch_duplicate {expected : Int} {operationKey key : String}
    {fields : Fields} {now eventAt : Time}
    (h : patch cellId expected operationKey fields now eventAt s =
      .error (.duplicateOperation key)) :
    s.HasKey cellId operationKey := by
  simp only [patch, patchWrite, bind, Except.bind] at h
  split at h
  · rename_i e hget
    unfold get at hget
    split at hget <;> cases hget
    cases h
  split at h
  · rename_i e hcheck
    unfold checkEpoch at hcheck
    split at hcheck <;> cases hcheck
    cases h
  rcases append_cases (patching cellId expected operationKey fields) eventAt s
    with ⟨-, -, heq⟩ | ⟨-, hkey, -⟩ | ⟨-, heq⟩
  · simp only [heq] at h
    split at h
    · rename_i e hwrite
      split at hwrite
      · cases hwrite
      · split at hwrite <;> cases hwrite
        cases h
    · rename_i s₁ hwrite
      split at h
      · rename_i e hget
        unfold get at hget
        split at hget <;> cases hget
        cases h
      · cases h
  · exact hkey
  · simp only [heq] at h
    cases h

/-- A patch is refused where its Cell has another epoch or has its key. -/
theorem patch_refused {expected : Int} {operationKey : String}
    {fields : Fields} {now eventAt : Time} {e : CellError} (hs : s.Keyed)
    (h : patch cellId expected operationKey fields now eventAt s = .error e)
    (he : e.isRefusal = true) :
    ∃ c, s.find cellId = some c ∧
      (c.epoch ≠ expected ∨ s.HasKey cellId operationKey) := by
  simp only [patch, bind, Except.bind] at h
  split at h
  · rename_i e' hget
    cases h
    unfold get at hget
    split at hget <;> cases hget
    cases he
  rename_i c hget
  have hfind := get_ok.mp hget
  refine ⟨c, hfind, ?_⟩
  by_cases hepoch : c.epoch = expected
  · right
    by_contra hkey
    have hat : s.At cellId expected := hs.at_iff.mpr ⟨c, hfind, hepoch⟩
    have hwrite : ∃ s₁, patchWrite cellId expected operationKey fields now
        eventAt s = .ok s₁ := by
      rcases append_cases (patching cellId expected operationKey fields) eventAt
        s with ⟨-, -, heq⟩ | ⟨-, hused, -⟩ | ⟨hnot, -⟩
      · have hpushed : (s.push (patching cellId expected operationKey fields)
            eventAt).Keyed := hs
        have hcount : ((s.push (patching cellId expected operationKey fields)
            eventAt).patchRow cellId expected fields now).1 = 1 := by
          rw [Store.patchRow, Store.rowcount_updateWhere hpushed,
            Store.find_push, hfind]
          simp [hepoch]
        simp only [patchWrite, bind, Except.bind, heq]
        split
        · exact ⟨_, rfl⟩
        · rw [hcount]
          exact ⟨_, rfl⟩
      · exact absurd hused hkey
      · exact absurd hat hnot
    obtain ⟨s₁, hok⟩ := hwrite
    obtain ⟨c', -, hrewrites⟩ := patchWrite_ok hs hok
    have hwritten : s₁.find cellId = some (c'.patched fields now) :=
      hrewrites.written
    simp only [checkEpoch, hepoch, ne_eq, not_true_eq_false, if_false, hok,
      get, hwritten] at h
    cases h
  · exact Or.inl hepoch

/-- The transaction of `ensure`. -/
theorem ensureWrite_ok {identity : CellIdentity} {fields : Fields}
    {now patchAt eventAt : Time} (hs : s.Keyed)
    (h : ensureWrite stableId identity fields now patchAt eventAt s =
      .ok s') :
    s' = s.insertIdentity stableId identity now ∨
      ∃ c, c.epoch = 1 ∧
        Rewrites (patching (stableId identity) 1 "ensure:init" fields) c
          (c.patched fields patchAt)
          (s.insertIdentity stableId identity now) s' := by
  simp only [ensureWrite, bind, Except.bind] at h
  split at h
  · cases h
  split at h
  · cases h
    exact Or.inl rfl
  split at h
  · cases h
  exact Or.inr (patchWrite_ok (hs.insertIdentity identity now) h)

end Operations

end Cells
end SwFactory
