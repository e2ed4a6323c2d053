import SwFactory.Factory.Transition

/-!
# The factory: a release follows an ended Cell

A transition whose operation key is new on the timeline of its Cell writes the
requested state, and then releases the capacity of a Cell that has ended.  The
deliveries that it resumes may activate the Cell again, at the next epoch.
-/

namespace SwFactory
namespace Factory

open Text Machine Cells

variable {stableId : CellIdentity → String}
variable {s s' : Store}

/-- The Cell has ended this epoch: it stands at it in a terminal state, or later. -/
def EndedAt (s : Store) (cellId : String) (epoch : Int) : Prop :=
  ∃ row, s.find cellId = some row ∧ epoch ≤ row.epoch ∧
    (row.epoch = epoch → row.state.isTerminal = true)

/-- The Cell stands in the state. -/
def StandsIn (s : Store) (cellId : String) (state : CellState) : Prop :=
  ∃ row, s.find cellId = some row ∧ row.state = state

section Deliveries

theorem keyed_deliver (hs : s.Keyed) (d : Delivery) :
    (deliver stableId s d).Keyed := by
  unfold deliver
  split
  · rename_i row s' hok
    obtain ⟨c, -, -, hrewrites⟩ := activate_ok hs hok
    exact hrewrites.keyed
  · exact hs

/-- A delivery is no business of the other Cells. -/
theorem find_deliver_of_ne (hs : s.Keyed) {d : Delivery} {cellId : String}
    (hne : stableId d.identity ≠ cellId) {row : Cell}
    (h : s.find cellId = some row) :
    (deliver stableId s d).find cellId = some row := by
  unfold deliver
  split
  · rename_i row' s' hok
    obtain ⟨c, -, -, hrewrites⟩ := activate_ok hs hok
    rw [hrewrites.other cellId (Ne.symm hne)]
    exact Store.find_insertIdentity d.identity d.now h
  · exact h

/-- A delivery activates a Cell that has ended at a later epoch. -/
theorem endedAt_deliver (hs : s.Keyed) {cellId : String} {epoch : Int}
    (h : EndedAt s cellId epoch) (d : Delivery) :
    EndedAt (deliver stableId s d) cellId epoch := by
  obtain ⟨row, hrow, hepoch, hended⟩ := h
  by_cases hne : stableId d.identity = cellId
  · unfold deliver
    split
    · rename_i row' s' hok
      obtain ⟨c, hopen, hrow', hrewrites⟩ := activate_ok hs hok
      subst hne
      have hc : c = row := Option.some.inj (hrewrites.found.symm.trans
        (Store.find_insertIdentity d.identity d.now hrow))
      subst hc
      refine ⟨row', hrewrites.written, ?_⟩
      -- a Cell that stands at this epoch is terminal, so it advances
      have hnext : row'.epoch = c.nextEpoch := hrewrites.epoch
      have hfresh : c.isFresh = true → c.state.isTerminal = false := by
        intro hfresh
        have hstate : c.state = .created := by
          simp only [Cell.isFresh, decide_eq_true_eq] at hfresh
          exact hfresh.1
        rw [hstate]
        rfl
      unfold Cell.nextEpoch at hnext
      split at hnext
      · rename_i hc
        have hlater : c.epoch ≠ epoch := by
          intro heq
          rw [hended heq] at hfresh
          cases hfresh hc
        exact ⟨by omega, by omega⟩
      · exact ⟨by omega, by omega⟩
    · exact ⟨row, hrow, hepoch, hended⟩
  · exact ⟨row, find_deliver_of_ne hs hne hrow, hepoch, hended⟩

/-- What one delivery keeps, all of them keep. -/
theorem foldl_deliver {P : Store → Prop} {ds : List Delivery}
    (hstep : ∀ s d, d ∈ ds → s.Keyed → P s → P (deliver stableId s d))
    (hs : s.Keyed) (h : P s) :
    (ds.foldl (deliver stableId) s).Keyed ∧ P (ds.foldl (deliver stableId) s) := by
  induction ds generalizing s with
  | nil =>
      exact ⟨hs, h⟩
  | cons d ds ih =>
      apply ih (fun s d hd => hstep s d (List.mem_cons_of_mem _ hd))
      · exact keyed_deliver hs d
      · exact hstep s d List.mem_cons_self hs h

theorem resumeDispatch_keeps {P : Store → Prop} {env : Surroundings}
    (hstep : env.released = true → ∀ s d, d ∈ env.resumed → s.Keyed → P s →
      P (deliver stableId s d))
    (hs : s.Keyed) (h : P s) :
    (resumeDispatch stableId env s).Keyed ∧ P (resumeDispatch stableId env s) := by
  unfold resumeDispatch
  split
  · rename_i hreleased
    exact foldl_deliver (hstep hreleased) hs h
  · exact ⟨hs, h⟩

end Deliveries

section Calls

theorem cellAt_ok {cellId : String} {epoch : Int} {c : Cell}
    (h : cellAt cellId epoch s = .ok c) :
    s.find cellId = some c ∧ c.epoch = epoch := by
  unfold cellAt readCell at h
  cases hfind : s.find cellId with
  | none =>
      rw [hfind] at h
      cases h
  | some row =>
      rw [hfind] at h
      simp only [bind, Except.bind] at h
      split at h
      · cases h
      · rename_i hepoch
        cases h
        exact ⟨rfl, not_not.mp hepoch⟩

/-- The patch of `_transition` writes, or finds its key on the timeline. -/
theorem patchOnce_ok {r : Request} {fields : Fields} {env : Surroundings}
    {current updated : Cell} (hs : s.Keyed)
    (hcurrent : cellAt r.cellId r.epoch s = .ok current)
    (h : patchOnce r fields env s = .ok (updated, s')) :
    s'.Keyed ∧ s'.find r.cellId = some updated ∧ updated.epoch = r.epoch ∧
      (updated = current.patched fields env.now ∨
        (updated = current ∧ s.HasKey r.cellId r.operationKey)) := by
  obtain ⟨hfind, hepoch⟩ := cellAt_ok hcurrent
  unfold patchOnce at h
  split at h
  · rename_i row store hok
    cases h
    obtain ⟨c, -, hupdated, hrewrites⟩ := patch_ok hs hok
    cases hfind.symm.trans hrewrites.found
    exact ⟨hrewrites.keyed, hrewrites.written, hrewrites.epoch,
      Or.inl hupdated⟩
  · rename_i key hdup
    simp only [readCell, hfind] at h
    cases h
    exact ⟨hs, hfind, hepoch, Or.inr ⟨rfl, patch_duplicate hdup⟩⟩
  · cases h

/--
What a call promises: a release is for a Cell that has ended its epoch, and a
call that returns has left the Cell in the state that was requested.
-/
structure Honest (r : Request) (out : Outcome) : Prop where
  released : ∀ cellId epoch state, out.release = some (cellId, epoch, state) →
    EndedAt out.store cellId epoch
  returned : r.requested ≠ .cleaned → ∀ c, out.answer = .ok c →
    StandsIn out.store r.cellId r.requested

/-- A call that raises before the release promises nothing. -/
theorem honest_error {r : Request} {e : TransitionError} :
    Honest r { answer := .error e, store := s } where
  released := by simp
  returned := by simp

/-- The release of a Cell that stands in a terminal state. -/
theorem endedAt_releaseCell {r : Request} {state : CellState}
    {env : Surroundings} {updated : Cell} (hs : s.Keyed)
    (hfind : s.find r.cellId = some updated) (hepoch : updated.epoch = r.epoch)
    (hended : updated.state.isTerminal = true) :
    ∀ cellId epoch state', (releaseCell stableId r state env updated s).release =
        some (cellId, epoch, state') →
      EndedAt (releaseCell stableId r state env updated s).store cellId epoch := by
  rintro cellId epoch state' ⟨⟩
  have hnow : EndedAt s r.cellId r.epoch :=
    ⟨updated, hfind, hepoch.ge, fun _ => hended⟩
  exact (resumeDispatch_keeps
    (fun _ s d _ hs h => endedAt_deliver hs h d) hs hnow).2

theorem clean_honest {r : Request} {current : Cell} (env : Surroundings)
    (hs : s.Keyed) (hcurrent : cellAt r.cellId r.epoch s = .ok current)
    (hrequested : r.requested = .cleaned) :
    Honest r (clean stableId r env s) := by
  unfold clean
  split
  · exact honest_error
  · rename_i updated s' hok
    obtain ⟨hs', hfind, hepoch, -⟩ := patchOnce_ok hs hcurrent hok
    split
    · rename_i hended
      exact ⟨endedAt_releaseCell hs' hfind hepoch hended,
        fun hne => absurd hrequested hne⟩
    · exact ⟨by simp, fun hne => absurd hrequested hne⟩

/-- The key of the call is new on the timeline, or the state is as requested. -/
def KeyFresh (s : Store) (r : Request) (current : Cell) : Prop :=
  ¬ s.HasKey r.cellId r.operationKey ∨ current.state = r.requested

/-- The deliveries that the call resumes are for other Cells. -/
def ResumesOthers (stableId : CellIdentity → String) (r : Request)
    (env : Surroundings) : Prop :=
  env.released = true → ∀ d ∈ env.resumed, stableId d.identity ≠ r.cellId

theorem move_honest {r : Request} {current : Cell} {env : Surroundings}
    (hs : s.Keyed) (hcurrent : cellAt r.cellId r.epoch s = .ok current)
    (hfresh : KeyFresh s r current) (hothers : ResumesOthers stableId r env) :
    Honest r (move stableId r current env s) := by
  unfold move
  split
  · exact honest_error
  split
  · exact honest_error
  rename_i updated s' hok
  obtain ⟨hs', hfind, hepoch, hupdated⟩ := patchOnce_ok hs hcurrent hok
  have hstate : updated.state = r.requested := by
    rcases hupdated with rfl | ⟨rfl, hkey⟩
    · rfl
    · exact hfresh.resolve_left (not_not.mpr hkey)
  split
  · exact honest_error
  split
  · rename_i hended
    refine ⟨endedAt_releaseCell hs' hfind hepoch (hstate ▸ hended), ?_⟩
    intro _ c _
    have hnow : StandsIn s' r.cellId r.requested := ⟨updated, hfind, hstate⟩
    refine (resumeDispatch_keeps
      (P := fun s => StandsIn s r.cellId r.requested) ?_ hs' hnow).2
    rintro hreleased s d hd hs ⟨row, hrow, hstate⟩
    exact ⟨row, find_deliver_of_ne hs (hothers hreleased d hd) hrow, hstate⟩
  · exact ⟨by simp, fun _ c _ => ⟨updated, hfind, hstate⟩⟩

/-- Every store behind a call has its keys. -/
theorem keyed_transition (hs : s.Keyed) (body : Body) (env : Surroundings) :
    (transition stableId body env s).store.Keyed := by
  have hrelease : ∀ {r : Request} {state : CellState} {updated : Cell}
      {s : Store}, s.Keyed →
        (releaseCell stableId r state env updated s).store.Keyed := by
    intro r state updated s hs
    exact (resumeDispatch_keeps (P := fun _ => True)
      (fun _ _ _ _ _ _ => trivial) hs trivial).1
  unfold transition
  split
  · exact hs
  rename_i r hparse
  split
  · exact hs
  rename_i current hcurrent
  split
  · unfold clean
    split
    · exact hs
    rename_i updated s' hok
    have hs' := (patchOnce_ok hs hcurrent hok).1
    split
    · exact hrelease hs'
    · exact hs'
  · unfold move
    split
    · exact hs
    split
    · exact hs
    rename_i updated s' hok
    have hs' := (patchOnce_ok hs hcurrent hok).1
    split
    · exact hs'
    split
    · exact hrelease hs'
    · exact hs'

end Calls

section Runs

/-- What happens to the Cells of a factory, one call after the other. -/
inductive Act
  | transition (body : Body) (env : Surroundings)
  | activate (delivery : Delivery)
  | takeEpoch (cellId : String) (expected : Int) (actor : String)
      (now eventAt : Time)
  | patch (cellId : String) (expected : Int) (operationKey : String)
      (fields : Fields) (now eventAt : Time)
  | record (m : Mutation) (now : Time)

/-- The store behind an operation; one that raises writes nothing. -/
def written {α : Type} (s : Store) : Except CellError (α × Store) → Store
  | .ok (_, s') => s'
  | .error _ => s

/-- One call. -/
def step (stableId : CellIdentity → String) (s : Store) : Act → Store
  | .transition body env => (Factory.transition stableId body env s).store
  | .activate d => deliver stableId s d
  | .takeEpoch cellId expected actor now eventAt =>
      written s (Cells.takeEpoch cellId expected actor now eventAt s)
  | .patch cellId expected operationKey fields now eventAt =>
      written s (Cells.patch cellId expected operationKey fields now eventAt s)
  | .record m now => written s ((append m now s).map (fun s' => ((), s')))

theorem keyed_written {α : Type} {x : Except CellError (α × Store)}
    (hs : s.Keyed) (h : ∀ a s', x = .ok (a, s') → s'.Keyed) :
    (written s x).Keyed := by
  cases x with
  | ok out => exact h out.1 out.2 rfl
  | error e => exact hs

/-- The keys of the Cells stay unique. -/
theorem keyed_step (hs : s.Keyed) (act : Act) : (step stableId s act).Keyed := by
  cases act with
  | transition body env =>
      exact keyed_transition hs body env
  | activate d =>
      exact keyed_deliver hs d
  | takeEpoch cellId expected actor now eventAt =>
      refine keyed_written hs (fun epoch s' hok => ?_)
      obtain ⟨c, -, -, hrewrites⟩ := takeEpoch_ok hs hok
      exact hrewrites.keyed
  | patch cellId expected operationKey fields now eventAt =>
      refine keyed_written hs (fun updated s' hok => ?_)
      obtain ⟨c, -, -, hrewrites⟩ := patch_ok hs hok
      exact hrewrites.keyed
  | record m now =>
      refine keyed_written hs (fun u s' hok => ?_)
      cases happend : append m now s with
      | error e =>
          rw [happend] at hok
          cases hok
      | ok s₁ =>
          rw [happend] at hok
          cases hok
          obtain ⟨c, hrewrites⟩ := record_ok hs happend
          exact hrewrites.keyed

/-- Every transition of the run keeps its promise. -/
def Promises (stableId : CellIdentity → String) (s : Store) : Act → Prop
  | .transition body env => ∀ r, body.parse = .ok r →
      Honest r (Factory.transition stableId body env s)
  | _ => True

/--
A transition to a state other than `cleaned` that is let through comes with an
operation key that is not on the timeline of the Cell, or finds the Cell in the
requested state; and the work it releases is for other Cells.
-/
def KeysFresh (stableId : CellIdentity → String) (s : Store) : Act → Prop
  | .transition body env => ∀ r current, body.parse = .ok r →
      r.requested ≠ .cleaned → cellAt r.cellId r.epoch s = .ok current →
      checkTransition current.state r.requested = .ok () →
      KeyFresh s r current ∧ ResumesOthers stableId r env
  | _ => True

theorem step_promises (hs : s.Keyed) (act : Act)
    (hfresh : KeysFresh stableId s act) : Promises stableId s act := by
  cases act with
  | transition body env =>
      intro r hparse
      unfold Factory.transition
      rw [hparse]
      dsimp only
      split
      · exact honest_error
      rename_i current hcurrent
      split
      · rename_i hcleaned
        exact clean_honest env hs hcurrent hcleaned
      · rename_i hcleaned
        cases hcheck : checkTransition current.state r.requested with
        | error e =>
            rw [move, hcheck]
            exact honest_error
        | ok _ =>
            obtain ⟨hkey, hothers⟩ :=
              hfresh r current hparse hcleaned hcurrent hcheck
            exact move_honest hs hcurrent hkey hothers
  | activate | takeEpoch | patch | record =>
      trivial

section Sample

/-- The identity digest of the one Cell of the sample. -/
def sampleId (_ : CellIdentity) : String := "cell_0769b1604171d921fa6d6ffa"

def sampleDelivery : Delivery where
  identity := ⟨"repo", "main", "1"⟩
  actor := "backend:operator:submit_1"
  now := 0
  eventAt := 0

/-- A request to fail the Cell, under the default key. -/
def failBody (epoch : Int) : Body where
  cellId := .text "cell_0769b1604171d921fa6d6ffa"
  epoch := some epoch
  state := .text "failed"

def failRequest (epoch : Int) : Request where
  cellId := "cell_0769b1604171d921fa6d6ffa"
  epoch := epoch
  requested := .failed
  operationKey := "operator:failed"

theorem failBody_parse : (failBody 1).parse = .ok (failRequest 1) := by
  decide +kernel

theorem failAgain_parse : (failBody 2).parse = .ok (failRequest 2) := by
  decide +kernel

/-- The Cell is activated and fails. -/
def failOnce : List Act :=
  [.activate sampleDelivery, .transition (failBody 1) {}]

/-- The Cell is activated again and fails under the same default key. -/
def failTwice : List Act :=
  [.activate sampleDelivery, .transition (failBody 1) {},
    .activate sampleDelivery, .transition (failBody 2) {}]

/-- The store in front of the second failure. -/
def activatedTwice : Store :=
  runFrom (step sampleId) {}
    [.activate sampleDelivery, .transition (failBody 1) {},
      .activate sampleDelivery]

end Sample

end Runs

end Factory
end SwFactory
