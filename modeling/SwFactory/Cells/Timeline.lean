import SwFactory.Cells.Effects
import SwFactory.Cells.Connections

/-!
# Factory Cells: the epoch fence and the timeline

Any number of connections perform the statements of their calls in any order.
Every committed transaction is one operation of `CellStore` (`Call.keeps`), and
every operation keeps the timeline: the epoch of a Cell advances by one, at a
takeover or at the activation of a Cell that has ended; the events of a Cell
carry epochs up to its own, in the order of their `seq`, and no key twice.
-/

namespace SwFactory
namespace Cells

open Text Machine

/-- What the tables of a store promise about each other. -/
structure Consistent (s : Store) : Prop where
  keyed : s.Keyed
  /-- An event belongs to a Cell that has reached its epoch. -/
  reached : ∀ e ∈ s.events, ∃ c, s.find e.cellId = some c ∧ e.epoch ≤ c.epoch
  /-- The events stand in the order of their `seq`. -/
  bounded : ∀ e ∈ s.events, e.seq ≤ s.events.length
  ordered : s.events.Pairwise (fun a b => a.seq < b.seq)
  /-- A later event of a Cell has no earlier epoch. -/
  monotone : s.events.Pairwise (fun a b =>
    a.cellId = b.cellId → a.epoch ≤ b.epoch)
  /-- No two events of a Cell share a key. -/
  distinct : s.events.Pairwise (fun a b =>
    a.cellId = b.cellId → a.operationKey ≠ b.operationKey)

theorem Consistent.empty : Consistent {} where
  keyed := List.nodup_nil
  reached := by simp
  bounded := by simp
  ordered := List.Pairwise.nil
  monotone := List.Pairwise.nil
  distinct := List.Pairwise.nil

section Operations

variable {stableId : CellIdentity → String}
variable {s s' : Store}

theorem Consistent.insertIdentity (hs : Consistent s)
    (identity : CellIdentity) (now : Time) :
    Consistent (s.insertIdentity stableId identity now) where
  keyed := hs.keyed.insertIdentity identity now
  reached := by
    intro e he
    rw [Store.insertIdentity_events] at he
    obtain ⟨c, hc, hepoch⟩ := hs.reached e he
    exact ⟨c, Store.find_insertIdentity identity now hc, hepoch⟩
  bounded := by
    rw [Store.insertIdentity_events]
    exact hs.bounded
  ordered := by
    rw [Store.insertIdentity_events]
    exact hs.ordered
  monotone := by
    rw [Store.insertIdentity_events]
    exact hs.monotone
  distinct := by
    rw [Store.insertIdentity_events]
    exact hs.distinct

/-- Rewriting a row at no earlier epoch keeps the tables consistent. -/
theorem Consistent.rewrites {m : Mutation} {c c' : Cell} (hs : Consistent s)
    (h : Rewrites m c c' s s') (hepoch : c.epoch ≤ c'.epoch) :
    Consistent s' := by
  obtain ⟨now, hevents⟩ := h.events
  -- the events of this Cell so far are not ahead of the new one
  have hlast : ∀ e ∈ s.events, e.cellId = m.cellId → e.epoch ≤ m.epoch := by
    intro e he hid
    obtain ⟨d, hd, hle⟩ := hs.reached e he
    rw [hid, h.found] at hd
    cases hd
    have := h.epoch
    omega
  have hpairwise : ∀ {R : Event → Event → Prop}, s.events.Pairwise R →
      (∀ e ∈ s.events, R e
        { m with seq := s.events.length + 1, createdAt := now }) →
      s'.events.Pairwise R := by
    intro R hR hnew
    rw [hevents, Store.push, List.pairwise_append]
    exact ⟨hR, List.pairwise_singleton _ _,
      fun a ha b hb => List.mem_singleton.mp hb ▸ hnew a ha⟩
  constructor
  · exact h.keyed
  · intro e he
    rw [hevents, Store.mem_push_events] at he
    rcases he with he | rfl
    · obtain ⟨d, hd, hle⟩ := hs.reached e he
      by_cases hid : e.cellId = m.cellId
      · rw [hid, h.found] at hd
        cases hd
        rw [hid]
        exact ⟨c', h.written, by omega⟩
      · rw [h.other _ hid]
        exact ⟨d, hd, hle⟩
    · exact ⟨c', h.written, h.epoch.ge⟩
  · intro e he
    rw [hevents] at he ⊢
    rw [Store.mem_push_events] at he
    have hlength : (s.push m now).events.length = s.events.length + 1 := by
      simp [Store.push]
    rcases he with he | rfl
    · have := hs.bounded e he
      omega
    · exact hlength.ge
  · refine hpairwise hs.ordered (fun e he => ?_)
    have := hs.bounded e he
    show e.seq < s.events.length + 1
    omega
  · exact hpairwise hs.monotone (fun e he hid => hlast e he hid)
  · refine hpairwise hs.distinct (fun e he hid hkey => ?_)
    exact h.fresh ⟨e, he, hid, hkey⟩

/-- An activation advances the epoch of a Cell that has ended, and no other. -/
theorem nextEpoch_cases {c : Cell}
    (h : c.isFresh = true ∨ c.state.isTerminal = true) :
    c.nextEpoch = c.epoch ∨
      (c.nextEpoch = c.epoch + 1 ∧ c.state.isTerminal = true) := by
  unfold Cell.nextEpoch
  split
  · exact Or.inl rfl
  · rename_i hfresh
    exact Or.inr ⟨rfl, h.resolve_left hfresh⟩

theorem patched_epoch (fields : Fields) (now : Time) (c : Cell) :
    (c.patched fields now).epoch = c.epoch := by
  unfold Cell.patched
  split <;> rfl

/-- The call is one that advances the epoch of the Cell. -/
def Call.Advances (stableId : CellIdentity → String) (c : Cell) : Call → Prop
  | .takeEpoch cellId expected _ => c.cellId = cellId ∧ c.epoch = expected
  | .activate identity _ =>
      c.cellId = stableId identity ∧ c.state.isTerminal = true
  | .ensure _ _ | .patch _ _ _ _ | .record _ => False

/-- Every Cell stays, at its epoch or at the next one by such a call. -/
def Call.Fenced (stableId : CellIdentity → String) (call : Call)
    (s s' : Store) : Prop :=
  ∀ cellId c, s.find cellId = some c →
    ∃ c', s'.find cellId = some c' ∧
      (c'.epoch = c.epoch ∨
        (c'.epoch = c.epoch + 1 ∧ call.Advances stableId c))

/-- The fence around the one Cell that is rewritten. -/
theorem Rewrites.fenced {call : Call} {m : Mutation} {c c' : Cell}
    (h : Rewrites m c c' s s')
    (hepoch : c'.epoch = c.epoch ∨
      (c'.epoch = c.epoch + 1 ∧ call.Advances stableId c)) :
    call.Fenced stableId s s' := by
  intro cellId d hd
  by_cases hid : cellId = m.cellId
  · subst hid
    rw [h.found] at hd
    cases hd
    exact ⟨c', h.written, hepoch⟩
  · exact ⟨d, (h.other _ hid).trans hd, Or.inl rfl⟩

/-- The insertion of an identity is no business of the Cells there are. -/
theorem Call.Fenced.of_insertIdentity {call : Call} {identity : CellIdentity}
    {now : Time}
    (h : call.Fenced stableId (s.insertIdentity stableId identity now) s') :
    call.Fenced stableId s s' :=
  fun cellId c hc =>
    h cellId c (Store.find_insertIdentity identity now hc)

/-- What an operation keeps: the tables, and the fence of every Cell. -/
theorem Call.performs_keeps {call : Call} (hs : Consistent s)
    (h : call.Performs stableId s s') :
    Consistent s' ∧ call.Fenced stableId s s' := by
  cases call with
  | ensure identity fields =>
      obtain ⟨now, patchAt, eventAt, hok⟩ := h
      have hs₁ : Consistent (s.insertIdentity stableId identity now) :=
        hs.insertIdentity identity now
      rcases ensureWrite_ok hs.keyed hok with rfl | ⟨c, -, hrewrites⟩
      · refine ⟨hs₁, fun cellId c hc => ?_⟩
        exact ⟨c, Store.find_insertIdentity identity now hc, Or.inl rfl⟩
      · have hepoch := patched_epoch fields patchAt c
        exact ⟨hs₁.rewrites hrewrites hepoch.ge,
          (hrewrites.fenced (Or.inl hepoch)).of_insertIdentity⟩
  | activate identity actor =>
      obtain ⟨now, eventAt, row, hok⟩ := h
      obtain ⟨c, hopen, rfl, hrewrites⟩ := activate_ok hs.keyed hok
      have hs₁ : Consistent (s.insertIdentity stableId identity now) :=
        hs.insertIdentity identity now
      have hid : c.cellId = stableId identity :=
        (Store.find_some hrewrites.found).2
      have hepoch : (Store.rearm c.nextEpoch now c).epoch = c.nextEpoch := rfl
      refine ⟨hs₁.rewrites hrewrites ?_,
        (hrewrites.fenced ?_).of_insertIdentity⟩
      · rcases nextEpoch_cases hopen with hsame | ⟨hnext, -⟩
        · omega
        · omega
      · rcases nextEpoch_cases hopen with hsame | ⟨hnext, hended⟩
        · exact Or.inl (hepoch.trans hsame)
        · exact Or.inr ⟨hepoch.trans hnext, hid, hended⟩
  | takeEpoch cellId expected actor =>
      obtain ⟨now, eventAt, epoch, hok⟩ := h
      obtain ⟨c, hexpected, -, hrewrites⟩ := takeEpoch_ok hs.keyed hok
      have hid : c.cellId = cellId := (Store.find_some hrewrites.found).2
      refine ⟨hs.rewrites hrewrites ?_, hrewrites.fenced (Or.inr ⟨?_, hid, hexpected⟩)⟩
      · show c.epoch ≤ expected + 1
        omega
      · show expected + 1 = c.epoch + 1
        omega
  | patch cellId expected operationKey fields =>
      obtain ⟨now, eventAt, hok⟩ := h
      obtain ⟨c, -, hrewrites⟩ := patchWrite_ok hs.keyed hok
      have hepoch := patched_epoch fields now c
      exact ⟨hs.rewrites hrewrites hepoch.ge,
        hrewrites.fenced (Or.inl hepoch)⟩
  | record m =>
      obtain ⟨now, hok⟩ := h
      obtain ⟨c, hrewrites⟩ := record_ok hs.keyed hok
      exact ⟨hs.rewrites hrewrites le_rfl, hrewrites.fenced (Or.inl rfl)⟩

end Operations

section Runs

variable (stableId : CellIdentity → String)

/-- The connections and the database they share. -/
abbrev Configuration :=
  Config (Sql Statement Outside) (Sql.Ans Store Statement.Ans Outside.Ans)
    CellError Returned (Db Store)

/-- No Cell yet; connection `p` is about to make the call `calls p`. -/
def start (calls : Nat → Call) : Configuration where
  shared := { committed := {} }
  procs p := .running ((calls p).prog stableId)

/-- One statement of one connection, or its end. -/
abbrev step : Configuration → Move Input → Configuration :=
  (engine stableId).system.step

variable {stableId}
variable {calls : Nat → Call}

theorem start_sound :
    Sound (engine stableId) (fun p => (calls p).Performs stableId) isLate
      (start stableId calls) := by
  refine (engine stableId).sound_start rfl rfl (fun p prog hp => ?_)
  cases hp
  exact (calls p).keeps

/-- The epochs, the order and the keys of the events of a store. -/
structure Timeline (s : Store) : Prop where
  reached : ∀ e ∈ s.events, ∃ c, s.find e.cellId = some c ∧ e.epoch ≤ c.epoch
  monotone : ∀ a ∈ s.events, ∀ b ∈ s.events,
    a.cellId = b.cellId → a.seq < b.seq → a.epoch ≤ b.epoch
  distinct : ∀ a ∈ s.events, ∀ b ∈ s.events,
    a.cellId = b.cellId → a.operationKey = b.operationKey → a = b

/-- Two events of a store are one, or stand in one order or the other. -/
theorem Consistent.trichotomy {s : Store} (hs : Consistent s) {a b : Event}
    (ha : a ∈ s.events) (hb : b ∈ s.events) :
    a = b ∨
      (a.seq < b.seq ∧ (a.cellId = b.cellId →
        a.epoch ≤ b.epoch ∧ a.operationKey ≠ b.operationKey)) ∨
      (b.seq < a.seq ∧ (b.cellId = a.cellId →
        b.epoch ≤ a.epoch ∧ b.operationKey ≠ a.operationKey)) := by
  have hall : s.events.Pairwise (fun a b => a.seq < b.seq ∧
      (a.cellId = b.cellId →
        a.epoch ≤ b.epoch ∧ a.operationKey ≠ b.operationKey)) := by
    refine ((hs.ordered.and hs.monotone).and hs.distinct).imp ?_
    rintro a b ⟨⟨hseq, hepoch⟩, hkey⟩
    exact ⟨hseq, fun hid => ⟨hepoch hid, hkey hid⟩⟩
  rcases List.mem_iff_getElem.mp ha with ⟨i, hi, rfl⟩
  rcases List.mem_iff_getElem.mp hb with ⟨j, hj, rfl⟩
  rcases Nat.lt_trichotomy i j with hij | rfl | hij
  · exact Or.inr (Or.inl (List.pairwise_iff_getElem.mp hall i j hi hj hij))
  · exact Or.inl rfl
  · exact Or.inr (Or.inr (List.pairwise_iff_getElem.mp hall j i hj hi hij))

theorem Consistent.timeline {s : Store} (hs : Consistent s) : Timeline s where
  reached := hs.reached
  monotone := by
    intro a ha b hb hid hseq
    rcases hs.trichotomy ha hb with rfl | ⟨-, h⟩ | ⟨hlt, -⟩
    · exact le_rfl
    · exact (h hid).1
    · omega
  distinct := by
    intro a ha b hb hid hkey
    rcases hs.trichotomy ha hb with rfl | ⟨-, h⟩ | ⟨-, h⟩
    · rfl
    · exact absurd hkey (h hid).2
    · exact absurd hkey.symm (h hid.symm).2

/-- One move keeps the committed store consistent and every Cell fenced. -/
theorem step_keeps {c : Configuration} (m : Move Input)
    (hsound : Sound (engine stableId) (fun p => (calls p).Performs stableId)
      isLate c)
    (hs : Consistent c.shared.committed) :
    Consistent (step stableId c m).shared.committed ∧
      (calls m.pid).Fenced stableId c.shared.committed
        (step stableId c m).shared.committed := by
  rcases (engine stableId).step_committed hsound m with
    ⟨hsame, -⟩ | ⟨hperforms, -⟩
  · rw [hsame]
    exact ⟨hs, fun cellId c hc => ⟨c, hc, Or.inl rfl⟩⟩
  · exact Call.performs_keeps hs hperforms

/-- The committed store of every state of a run is consistent. -/
theorem run_consistent (stableId : CellIdentity → String)
    (calls : Nat → Call) (ms : List (Move Input)) :
    EveryState (step stableId)
      (fun c => Sound (engine stableId) (fun p => (calls p).Performs stableId)
        isLate c ∧ Consistent c.shared.committed)
      (start stableId calls) ms := by
  refine EveryState.of_step (G := fun _ _ => True) (fun c m hc _ => ?_)
    ⟨start_sound, Consistent.empty⟩ ?_
  · exact ⟨(engine stableId).sound_step hc.1 m, (step_keeps m hc.1 hc.2).1⟩
  · rw [alongRun_iff]
    intros
    trivial

/-- Every step of a call that is refused leaves the committed store alone. -/
def RefusedUnchanged (stableId : CellIdentity → String)
    (c : Configuration) (ms : List (Move Input)) : Prop :=
  ∀ p e, (runFrom (step stableId) c ms).procs p = .running (.raise e) →
    e.isRefusal = true →
    ∀ pre m post, ms = pre ++ m :: post → m.pid = p →
      (step stableId (runFrom (step stableId) c pre) m).shared.committed =
        (runFrom (step stableId) c pre).shared.committed

/--
**The epoch fence and the timeline.**  In every interleaving of the statements
of any number of calls: the timeline of every reachable store is in order, a
move advances the epoch of a Cell by one or not at all, and a call that is
refused has changed nothing.
-/
theorem epoch_fence
    (stableId : CellIdentity → String)
    (calls : Nat → Call)
    (ms : List (Move Input)) :
    EveryState (step stableId) (fun c => Timeline c.shared.committed)
        (start stableId calls) ms ∧
      AlongRun (step stableId)
        (fun c m => (calls m.pid).Fenced stableId c.shared.committed
          (step stableId c m).shared.committed)
        (start stableId calls) ms ∧
      RefusedUnchanged stableId (start stableId calls) ms := by
  have hrun := run_consistent stableId calls ms
  rw [everyState_iff] at hrun
  refine ⟨?_, ?_, ?_⟩
  · rw [everyState_iff]
    exact fun pre post heq => (hrun pre post heq).2.timeline
  · rw [alongRun_iff]
    intro pre m post heq
    obtain ⟨hsound, hs⟩ := hrun pre (m :: post) heq
    exact (step_keeps m hsound hs).2
  · intro p e hend hrefusal
    refine (engine stableId).unchanged_of_raise start_sound hend ?_
    intro hlate
    rw [isLate, hrefusal] at hlate
    cases hlate

end Runs

end Cells
end SwFactory
