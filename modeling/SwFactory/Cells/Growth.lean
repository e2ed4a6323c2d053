import SwFactory.Cells.Timeline

/-!
# Factory Cells: what one write adds

The composed systems use the Cell store through one relation: a write adds one
event, at the epoch its Cell then stands at, and no Cell goes back.

`take_epoch` and `activate` return behind their commit.  From then on the
committed store has the Cell at the reported epoch or at a later one, whatever
the other connections do.
-/

namespace SwFactory
namespace Cells

open Text Machine

variable {stableId : CellIdentity → String}
variable {s s' : Store}

/-- The Cell has reached the epoch. -/
def Store.Reached (s : Store) (cellId : String) (epoch : Int) : Prop :=
  ∃ c, s.find cellId = some c ∧ epoch ≤ c.epoch

/-- One more event; every Cell stays, at no earlier epoch. -/
structure Grows (m : Mutation) (s s' : Store) : Prop where
  consistent : Consistent s'
  cells : ∀ cellId c, s.find cellId = some c →
    ∃ c', s'.find cellId = some c' ∧ c.epoch ≤ c'.epoch
  events : ∃ now, s'.events = (s.push m now).events
  written : ∃ c', s'.find m.cellId = some c' ∧ c'.epoch = m.epoch

namespace Grows

variable {m : Mutation}

theorem of_rewrites {c c' : Cell} (hs : Consistent s)
    (h : Rewrites m c c' s s') (hepoch : c.epoch ≤ c'.epoch) :
    Grows m s s' where
  consistent := hs.rewrites h hepoch
  cells := by
    intro cellId d hd
    by_cases hid : cellId = m.cellId
    · subst hid
      cases h.found.symm.trans hd
      exact ⟨c', h.written, hepoch⟩
    · exact ⟨d, (h.other cellId hid).trans hd, le_rfl⟩
  events := h.events
  written := ⟨c', h.written, h.epoch⟩

theorem of_insertIdentity {identity : CellIdentity} {now : Time}
    (h : Grows m (s.insertIdentity stableId identity now) s') :
    Grows m s s' where
  consistent := h.consistent
  cells := fun cellId c hc =>
    h.cells cellId c (Store.find_insertIdentity identity now hc)
  events := by
    obtain ⟨at_, hevents⟩ := h.events
    refine ⟨at_, hevents.trans ?_⟩
    simp only [Store.push, Store.insertIdentity_events]
  written := h.written

/-- The events behind a write. -/
theorem mem_events (h : Grows m s s') {e : Event} (he : e ∈ s'.events) :
    e ∈ s.events ∨ e.toMutation = m := by
  obtain ⟨now, hevents⟩ := h.events
  rw [hevents, Store.mem_push_events] at he
  rcases he with he | rfl
  · exact Or.inl he
  · exact Or.inr rfl

theorem event_kept (h : Grows m s s') {e : Event} (he : e ∈ s.events) :
    e ∈ s'.events := by
  obtain ⟨now, hevents⟩ := h.events
  rw [hevents, Store.mem_push_events]
  exact Or.inl he

theorem event_added (h : Grows m s s') :
    ∃ e ∈ s'.events, e.toMutation = m := by
  obtain ⟨now, hevents⟩ := h.events
  refine ⟨{ m with seq := s.events.length + 1, createdAt := now }, ?_, rfl⟩
  rw [hevents, Store.mem_push_events]
  exact Or.inr rfl

theorem reached (h : Grows m s s') {cellId : String} {epoch : Int}
    (hr : s.Reached cellId epoch) : s'.Reached cellId epoch := by
  obtain ⟨c, hc, hepoch⟩ := hr
  obtain ⟨c', hc', hle⟩ := h.cells cellId c hc
  exact ⟨c', hc', le_trans hepoch hle⟩

end Grows

theorem activate_grows {identity : CellIdentity} {actor : String}
    {now eventAt : Time} {row : Cell} (hs : Consistent s)
    (h : activate stableId identity actor now eventAt s = .ok (row, s')) :
    Grows (activation (stableId identity) row.epoch actor) s s' ∧
      s'.find (stableId identity) = some row := by
  obtain ⟨c, hopen, hrow, hrewrites⟩ := activate_ok hs.keyed h
  have hrowEpoch : row.epoch = c.nextEpoch := by
    rw [hrow]
    rfl
  rw [← hrowEpoch] at hrewrites
  refine ⟨(Grows.of_rewrites (hs.insertIdentity identity now) hrewrites
    ?_).of_insertIdentity, hrewrites.written⟩
  rcases nextEpoch_cases hopen with hsame | ⟨hnext, -⟩
  · omega
  · omega

theorem takeEpoch_grows {cellId actor : String} {expected epoch : Int}
    {now eventAt : Time} (hs : Consistent s)
    (h : takeEpoch cellId expected actor now eventAt s = .ok (epoch, s')) :
    Grows (takeover cellId (expected + 1) actor) s s' := by
  obtain ⟨c, hexpected, -, hrewrites⟩ := takeEpoch_ok hs.keyed h
  refine Grows.of_rewrites hs hrewrites ?_
  show c.epoch ≤ expected + 1
  omega

theorem patch_grows {cellId operationKey : String} {expected : Int}
    {fields : Fields} {now eventAt : Time} {updated : Cell} (hs : Consistent s)
    (h : patch cellId expected operationKey fields now eventAt s =
      .ok (updated, s')) :
    Grows (patching cellId expected operationKey fields) s s' ∧
      s'.find cellId = some updated := by
  obtain ⟨c, hepoch, hupdated, hrewrites⟩ := patch_ok hs.keyed h
  refine ⟨Grows.of_rewrites hs hrewrites ?_, hrewrites.written⟩
  rw [hupdated, patched_epoch]

theorem record_grows {m : Mutation} {now : Time} (hs : Consistent s)
    (h : append m now s = .ok s') : Grows m s s' := by
  obtain ⟨c, hrewrites⟩ := record_ok hs.keyed h
  exact Grows.of_rewrites hs hrewrites le_rfl

/-! ## What an advance of the epoch reports -/

/-- The Cell and the epoch that an advance returns. -/
def Call.announces : Call → Returned → Option (String × Int)
  | .takeEpoch cellId _ _, .epoch epoch => some (cellId, epoch)
  | .activate _ _, .cell row => some (row.cellId, row.epoch)
  | _, _ => none

/-- The call may advance an epoch. -/
def Call.isAdvance : Call → Bool
  | .takeEpoch _ _ _ | .activate _ _ => true
  | .ensure _ _ | .patch _ _ _ _ | .record _ => false

/-- What the call returns stands in the store, as a row or on the timeline. -/
def Call.Reports (call : Call) (r : Returned) (s : Store) : Prop :=
  ∀ cellId epoch, call.announces r = some (cellId, epoch) →
    s.Reached cellId epoch ∨
    ∃ e ∈ s.events, e.cellId = cellId ∧ e.epoch = epoch

section Reports

variable {call : Call} {r : Returned}

theorem Call.Reports.reached (hs : Consistent s) (h : call.Reports r s)
    {cellId : String} {epoch : Int}
    (hann : call.announces r = some (cellId, epoch)) :
    s.Reached cellId epoch := by
  rcases h cellId epoch hann with hreached | ⟨e, he, rfl, rfl⟩
  · exact hreached
  · exact hs.reached e he

/-- No call takes a Cell back. -/
theorem Call.Fenced.reached (h : call.Fenced stableId s s')
    {cellId : String} {epoch : Int} (hreached : s.Reached cellId epoch) :
    s'.Reached cellId epoch := by
  obtain ⟨c, hc, hle⟩ := hreached
  obtain ⟨c', hc', hsame | ⟨hnext, -⟩⟩ := h cellId c hc
  · exact ⟨c', hc', hle.trans hsame.ge⟩
  · exact ⟨c', hc', by omega⟩

/-- The event of a takeover stands on the timeline it is committed with. -/
theorem takeEpoch_reports {cellId actor : String} {expected epoch : Int}
    {now eventAt : Text.Time}
    (h : takeEpoch cellId expected actor now eventAt s = .ok (epoch, s')) :
    (Call.takeEpoch cellId expected actor).Reports (.epoch epoch) s' := by
  rintro _ _ ⟨⟩
  right
  simp only [takeEpoch, bind, Except.bind] at h
  split at h
  · cases h
  split at h
  · cases h
  rename_i s₁ happend
  cases h
  obtain ⟨-, -, rfl⟩ := append_ok happend
  exact ⟨_, Store.mem_push_events.mpr (.inr rfl), rfl, rfl⟩

/-- The row of an activation is the one it is committed with. -/
theorem activate_reports {identity : CellIdentity} {actor : String}
    {now eventAt : Text.Time} {row : Cell}
    (h : activate stableId identity actor now eventAt s = .ok (row, s')) :
    (Call.activate identity actor).Reports (.cell row) s' := by
  rintro _ _ ⟨⟩
  left
  simp only [activate, bind, Except.bind] at h
  split at h
  · cases h
  split at h
  · cases h
  split at h
  · cases h
  split at h
  · cases h
  split at h
  · cases h
  rename_i hrow
  cases h
  have hfind := get_ok.mp hrow
  rw [← (Store.find_some hfind).2] at hfind
  exact ⟨row, hfind, le_rfl⟩

/-- An advance returns right behind its commit. -/
theorem Call.tells (call : Call) (hadvance : call.isAdvance = true) :
    Tells (engine stableId) call.Reports .before (call.prog stableId) := by
  cases call with
  | takeEpoch cellId expected actor =>
      intro now
      refine Tells.map (Keeps.tells (by simp)
        ((keeps_takeEpochBody cellId expected actor now).mono
          fun _ _ => Until.mono ?_))
      rintro _ epoch ⟨base, draft, rfl, eventAt, hok⟩
      exact ⟨base, draft, rfl, takeEpoch_reports hok⟩
  | activate identity actor =>
      intro now
      refine Tells.map (Keeps.tells (by simp)
        ((keeps_activateBody identity actor now).mono
          fun _ _ => Until.mono ?_))
      rintro _ row ⟨base, draft, rfl, eventAt, hok⟩
      exact ⟨base, draft, rfl, activate_reports hok⟩
  | ensure identity fields => cases hadvance
  | patch cellId expected operationKey fields => cases hadvance
  | record m => cases hadvance

end Reports

section Runs

variable {calls : Nat → Call}

/-- The invariant of the connections. -/
structure Orderly (stableId : CellIdentity → String) (calls : Nat → Call)
    (c : Configuration) : Prop where
  sound : Sound (engine stableId) (fun p => (calls p).Performs stableId) isLate c
  consistent : Consistent c.shared.committed
  reporting : ∀ q, (calls q).isAdvance = true →
    Reporting (engine stableId) (calls q).Reports q c

theorem start_orderly : Orderly stableId calls (start stableId calls) where
  sound := start_sound
  consistent := Consistent.empty
  reporting := by
    intro q hadvance prog hq
    cases hq
    exact (calls q).tells hadvance

theorem Orderly.step {c : Configuration} (h : Orderly stableId calls c)
    (m : Move Input) : Orderly stableId calls (Cells.step stableId c m) := by
  obtain ⟨hconsistent, hfenced⟩ := step_keeps m h.sound h.consistent
  refine ⟨(engine stableId).sound_step h.sound m, hconsistent, ?_⟩
  intro q hadvance
  refine (engine stableId).reporting_step m ?_ (h.reporting q hadvance)
  intro r hr cellId epoch hann
  exact .inl (hfenced.reached (hr.reached h.consistent hann))

/-- A move takes no Cell back. -/
theorem Orderly.reached {c : Configuration} (h : Orderly stableId calls c)
    (m : Move Input) {cellId : String} {epoch : Int}
    (hreached : c.shared.committed.Reached cellId epoch) :
    (Cells.step stableId c m).shared.committed.Reached cellId epoch :=
  (step_keeps m h.sound h.consistent).2.reached hreached

/-- A call that has returned has brought the Cell to the epoch it returns. -/
theorem Orderly.returned {c : Configuration} (h : Orderly stableId calls c)
    {q : Nat} {r : Returned} (hq : c.procs q = .running (.ret r))
    {cellId : String} {epoch : Int}
    (hann : (calls q).announces r = some (cellId, epoch)) :
    c.shared.committed.Reached cellId epoch := by
  have hadvance : (calls q).isAdvance = true := by
    cases hcall : calls q with
    | takeEpoch cellId' expected actor => rfl
    | activate identity actor => rfl
    | ensure identity fields => rw [hcall] at hann; cases r <;> cases hann
    | patch cellId' expected key fields => rw [hcall] at hann; cases r <;> cases hann
    | record m => rw [hcall] at hann; cases r <;> cases hann
  exact ((h.reporting q hadvance).returned hq).reached h.consistent hann

end Runs

end Cells
end SwFactory
