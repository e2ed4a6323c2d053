import SwFactory.Batch.Reread
import SwFactory.Batch.Schedule
import Mathlib.Data.List.Range

/-!
# What a batch does

The loop keeps its books: every ready row is waiting, put off or handed out, the
runs of the tasks are different, and a lost task is found again by its id.  A
weight that every pass lowers ends the loop.
-/

namespace SwFactory
namespace Batch

open Identities
open Machine
open Rollup

section Loops

variable {console : Console}
variable {rows : List Selected}

/-- The books of the loop. -/
structure Sound (rows : List Selected) (s : Loop) : Prop where
  each : ∀ index, s.pending.count index + s.deferred.count index + s.handed.count index =
    (readyRows rows).count index
  book : s.inFlight = s.running
  tasks : (s.running.map InFlight.task).Nodup
  fresh : ∀ flight ∈ s.running, flight.task < s.spawned
  runs : (s.running.map (fun flight => runKey rows flight.index)).Nodup
  busy : ∀ run, run ∈ s.busy ↔ some run ∈ s.running.map (fun flight => runKey rows flight.index)
  bound : s.running.length ≤ batchConcurrency
  slots : s.slots.length = rows.length
  lines : ∀ (index : Nat) (item : BatchItem), s.slots[index]? = some (some item) →
    ∃ row : Selected, rows[index]? = some row ∧ item.id = row.gate.id
  waiting : s.deferred ≠ [] → s.running ≠ []
  closed : s.phase ≠ .filling → s.deferred = []
  exhausted : s.phase ≠ .filling → s.cancelled = false → s.running = [] → s.pending = []
  ended : s.phase = .done → s.running = []

theorem nodup_readyRows (rows : List Selected) : (readyRows rows).Nodup :=
  List.nodup_range.filter _

theorem mem_readyRows {index : Nat} :
    index ∈ readyRows rows ↔ ∃ row, rows[index]? = some row ∧ row.gate.ready = true := by
  simp only [readyRows, List.mem_filter, List.mem_range, Option.any_eq_true]
  constructor
  · rintro ⟨-, row, hrow, hready⟩
    exact ⟨row, hrow, hready⟩
  · rintro ⟨row, hrow, hready⟩
    exact ⟨(List.getElem?_eq_some_iff.mp hrow).1, row, hrow, hready⟩

theorem Sound.perm {s : Loop} (h : Sound rows s) :
    (s.pending ++ s.deferred ++ s.handed).Perm (readyRows rows) := by
  rw [List.perm_iff_count]
  intro index
  rw [List.count_append, List.count_append, h.each]

theorem Sound.mem_handed {s : Loop} (h : Sound rows s) {index : Nat} (hmem : index ∈ s.handed) :
    index ∈ readyRows rows :=
  h.perm.mem_iff.mp (List.mem_append_right _ hmem)

theorem Sound.nodup_handed {s : Loop} (h : Sound rows s) : s.handed.Nodup :=
  (List.nodup_append.mp (h.perm.nodup_iff.mpr (nodup_readyRows rows))).2.1

theorem Sound.length_le {s : Loop} (h : Sound rows s) :
    s.pending.length + s.deferred.length + s.handed.length ≤ rows.length := by
  have hperm := h.perm.length_eq
  have hready : (readyRows rows).length ≤ rows.length := by
    have := List.length_filter_le
      (fun index => (rows[index]?).any (fun row => row.gate.ready)) (List.range rows.length)
    rwa [List.length_range] at this
  simp only [List.length_append] at hperm
  omega

theorem sound_start : Sound rows (start console rows) where
  each := by simp [start]
  book := rfl
  tasks := List.nodup_nil
  fresh := by rintro _ ⟨⟩
  runs := List.nodup_nil
  busy := by simp [start]
  bound := by simp [start]
  slots := by simp [start]
  lines := by
    intro index item hitem
    simp only [start, List.getElem?_map, Option.map_eq_some_iff] at hitem
    obtain ⟨row, hrow, hline⟩ := hitem
    split at hline
    · cases hline
    · cases hline
      exact ⟨row, hrow, rfl⟩
  waiting := by simp [start]
  closed := by simp [start]
  exhausted := by simp [start]
  ended := by simp [start]

theorem Sound.close {s : Loop} (h : Sound rows s)
    (hfull : s.cancelled = false → s.running = [] → s.pending = []) :
    Sound rows s.close where
  each := by
    intro index
    have := h.each index
    simp only [Loop.close, List.count_append, List.count_nil]
    omega
  book := h.book
  tasks := h.tasks
  fresh := h.fresh
  runs := h.runs
  busy := h.busy
  bound := h.bound
  slots := h.slots
  lines := h.lines
  waiting := fun hne => absurd rfl hne
  closed := fun _ => rfl
  exhausted := by
    intro _ hcancelled hidle
    have hdeferred : s.deferred = [] := by
      by_contra hne
      exact h.waiting hne hidle
    change s.deferred ++ s.pending = []
    rw [hdeferred, hfull hcancelled hidle]
    rfl
  ended := by rintro ⟨⟩

theorem Sound.defer {s : Loop} (h : Sound rows s) {index : Nat} {rest : List Nat}
    {run : RunRef} (hpending : s.pending = index :: rest) (hphase : s.phase = .filling)
    (hbusy : run ∈ s.busy) :
    Sound rows (s.defer index rest) where
  each := by
    intro i
    have := h.each i
    rw [hpending, List.count_cons] at this
    simp only [Loop.defer, List.count_append, List.count_cons, List.count_nil]
    omega
  book := h.book
  tasks := h.tasks
  fresh := h.fresh
  runs := h.runs
  busy := h.busy
  bound := h.bound
  slots := h.slots
  lines := h.lines
  waiting := by
    intro _ hidle
    change s.running = [] at hidle
    have := (h.busy run).mp hbusy
    rw [hidle] at this
    cases this
  closed := fun hne => absurd hphase hne
  exhausted := fun hne => absurd hphase hne
  ended := by
    intro hdone
    change s.phase = .done at hdone
    rw [hphase] at hdone
    cases hdone

theorem Sound.spawn {s : Loop} (h : Sound rows s) {index : Nat} {rest : List Nat}
    {run : RunRef} (hpending : s.pending = index :: rest) (hphase : s.phase = .filling)
    (hkey : runKey rows index = some run) (hfree : run ∉ s.busy)
    (hroom : s.running.length < batchConcurrency) :
    Sound rows (s.spawn run index rest) where
  each := by
    intro i
    have := h.each i
    rw [hpending, List.count_cons] at this
    simp only [Loop.spawn, List.count_append, List.count_cons, List.count_nil]
    omega
  book := congrArg (· ++ [_]) h.book
  tasks := by
    simp only [Loop.spawn, List.map_append, List.map_cons, List.map_nil]
    refine List.nodup_append.mpr ⟨h.tasks, List.nodup_singleton _, ?_⟩
    rintro a ha b hb rfl
    obtain ⟨flight, hflight, rfl⟩ := List.mem_map.mp ha
    have := h.fresh flight hflight
    rw [List.mem_singleton.mp hb] at this
    exact absurd this (lt_irrefl _)
  fresh := by
    intro flight hflight
    rcases List.mem_append.mp hflight with hold | hnew
    · exact Nat.lt_succ_of_lt (h.fresh flight hold)
    · rw [List.mem_singleton.mp hnew]
      exact Nat.lt_succ_self _
  runs := by
    simp only [Loop.spawn, List.map_append, List.map_cons, List.map_nil, hkey]
    refine List.nodup_append.mpr ⟨h.runs, List.nodup_singleton _, ?_⟩
    rintro a ha b hb rfl
    rw [List.mem_singleton.mp hb] at ha
    exact hfree ((h.busy run).mpr ha)
  busy := by
    intro other
    simp only [Loop.spawn, List.map_append, List.map_cons, List.map_nil, List.mem_cons,
      List.mem_append, List.not_mem_nil, or_false, h.busy other, hkey, Option.some.injEq]
    exact or_comm
  bound := by
    simp only [Loop.spawn, List.length_append, List.length_cons, List.length_nil]
    omega
  slots := h.slots
  lines := h.lines
  waiting := fun _ => by simp [Loop.spawn]
  closed := fun hne => absurd hphase hne
  exhausted := fun hne => absurd hphase hne
  ended := by
    intro hdone
    change s.phase = .done at hdone
    rw [hphase] at hdone
    cases hdone

/-- A pass closes the filling, puts a row off or hands it out. -/
theorem Sound.fill_cases {s : Loop} (h : Sound rows s) :
    (s.fill rows = s.close ∧ (s.cancelled = false → s.running = [] → s.pending = [])) ∨
      ∃ index rest run, s.pending = index :: rest ∧ runKey rows index = some run ∧
        s.running.length < batchConcurrency ∧
        (run ∈ s.busy ∧ s.fill rows = s.defer index rest ∨
          run ∉ s.busy ∧ s.fill rows = s.spawn run index rest) := by
  by_cases hroom : s.running.length < batchConcurrency ∧ s.cancelled = false
  · unfold Loop.fill
    rw [if_pos hroom]
    cases hpending : s.pending with
    | nil => exact Or.inl ⟨rfl, fun _ _ => rfl⟩
    | cons index rest =>
        have hready : index ∈ readyRows rows := by
          refine h.perm.mem_iff.mp (List.mem_append_left _ (List.mem_append_left _ ?_))
          rw [hpending]
          exact List.mem_cons_self
        obtain ⟨row, hrow, -⟩ := mem_readyRows.mp hready
        have hkey : runKey rows index = some row.gate.run := by simp [runKey, hrow]
        refine Or.inr ⟨index, rest, row.gate.run, rfl, hkey, hroom.1, ?_⟩
        simp only [hkey]
        by_cases hbusy : row.gate.run ∈ s.busy
        · exact Or.inl ⟨hbusy, if_pos hbusy⟩
        · exact Or.inr ⟨hbusy, if_neg hbusy⟩
  · refine Or.inl ⟨if_neg hroom, fun hcancelled hidle => ?_⟩
    rw [hidle] at hroom
    exact absurd ⟨by decide, hcancelled⟩ hroom

theorem Sound.fill {s : Loop} (h : Sound rows s) (hphase : s.phase = .filling) :
    Sound rows (s.fill rows) := by
  obtain ⟨hfill, hfull⟩ | ⟨index, rest, run, hpending, hkey, hroom, hfill⟩ := h.fill_cases
  · rw [hfill]
    exact h.close hfull
  · obtain ⟨hbusy, hfill⟩ | ⟨hfree, hfill⟩ := hfill
    · rw [hfill]
      exact h.defer hpending hphase hbusy
    · rw [hfill]
      exact h.spawn hpending hphase hkey hfree hroom

theorem exists_split {α : Type} {xs : List α} {place : Nat} {x : α} (h : xs[place]? = some x) :
    ∃ pre post, xs = pre ++ x :: post ∧ xs.eraseIdx place = pre ++ post := by
  obtain ⟨hlt, rfl⟩ := List.getElem?_eq_some_iff.mp h
  refine ⟨xs.take place, xs.drop (place + 1), ?_, List.eraseIdx_eq_take_drop_succ xs place⟩
  rw [List.getElem_cons_drop, List.take_append_drop]

/-- A task leaves the join set, and its row has a line. -/
theorem Sound.leave {s : Loop} (h : Sound rows s) (hphase : s.phase = .joining)
    {pre post : List InFlight} {ended : InFlight} (hrunning : s.running = pre ++ ended :: post)
    (line : Selected → BatchItem) (hline : ∀ row, (line row).id = row.gate.id) :
    Sound rows { s.settle rows ended.index line with
      phase := .filling
      running := pre ++ post
      inFlight := pre ++ post } := by
  have hclosed : s.deferred = [] := h.closed (by rw [hphase]; decide)
  have hsub : (pre ++ post).Sublist s.running := by
    rw [hrunning]
    exact List.Sublist.append_left (List.sublist_cons_self _ _) _
  have hruns := h.runs
  rw [hrunning, List.map_append, List.map_cons, List.nodup_middle, List.nodup_cons] at hruns
  refine ⟨h.each, rfl, h.tasks.sublist (hsub.map _), fun flight hflight =>
    h.fresh flight (hsub.subset hflight), h.runs.sublist (hsub.map _), fun run => ?_, ?_, ?_, ?_,
    fun hne => absurd hclosed hne, fun hne => absurd rfl hne, fun hne => absurd rfl hne, ?_⟩
  · have hbusy := h.busy run
    rw [hrunning, List.map_append, List.map_cons, List.mem_append, List.mem_cons] at hbusy
    simp only [Loop.settle, List.mem_filter, hbusy, decide_eq_true_eq, List.map_append,
      List.mem_append]
    constructor
    · rintro ⟨hmem | heq | hmem, hne⟩
      · exact Or.inl hmem
      · exact absurd heq hne
      · exact Or.inr hmem
    · intro hmem
      refine ⟨hmem.imp_right Or.inr, fun heq => hruns.1 ?_⟩
      rw [← heq]
      exact List.mem_append.mpr hmem
  · exact le_trans hsub.length_le h.bound
  · rw [← h.slots]
    exact List.length_set
  · intro index item hitem
    change (s.slots.set ended.index ((rows[ended.index]?).map line))[index]? = _ at hitem
    rw [List.getElem?_set] at hitem
    split at hitem
    · rename_i heq
      subst heq
      split at hitem
      · obtain ⟨row, hrow, rfl⟩ := Option.map_eq_some_iff.mp (Option.some.inj hitem)
        exact ⟨row, hrow, hline row⟩
      · cases hitem
    · exact h.lines index item hitem
  · rintro ⟨⟩

theorem Sound.joined {s : Loop} (h : Sound rows s) (hphase : s.phase = .joining)
    {place : Nat} {ended : InFlight} (hplace : s.running[place]? = some ended)
    (result : Joined) :
    Sound rows (s.joined console rows ended place result) ∧
      (s.joined console rows ended place result).phase = .filling ∧
      (s.joined console rows ended place result).running = s.running.eraseIdx place ∧
      (s.joined console rows ended place result).pending = s.pending ∧
      (s.joined console rows ended place result).deferred = s.deferred := by
  obtain ⟨pre, post, hrunning, herase⟩ := exists_split hplace
  have htasks := h.tasks
  rw [hrunning, List.map_append, List.map_cons, List.nodup_middle, List.nodup_cons] at htasks
  have hother : ∀ flight ∈ pre ++ post, flight.task ≠ ended.task := by
    intro flight hflight heq
    refine htasks.1 ?_
    rw [← List.map_append, ← heq]
    exact List.mem_map_of_mem hflight
  cases result with
  | finished outcome =>
      have hbook : s.inFlight.filter (fun flight => flight.task ≠ ended.task) = pre ++ post := by
        rw [h.book, hrunning, List.filter_append, List.filter_cons_of_neg (by simp),
          ← List.filter_append, List.filter_eq_self]
        intro flight hflight
        simpa using hother flight hflight
      refine ⟨?_, rfl, rfl, rfl, rfl⟩
      have hsound := h.leave hphase hrunning (fun row => itemOf row outcome)
        (fun row => by cases outcome <;> rfl)
      simp only [Loop.joined, hbook, herase]
      exact hsound
  | died reason =>
      have hfind : s.inFlight.find? (fun flight => flight.task = ended.task) = some ended := by
        rw [h.book, hrunning, List.find?_append, List.find?_eq_none.mpr, Option.none_or,
          List.find?_cons_of_pos (by simp)]
        intro flight hflight
        simpa using hother flight (List.mem_append_left _ hflight)
      have hbook : s.inFlight.eraseP (fun flight => flight.task = ended.task) = pre ++ post := by
        rw [h.book, hrunning, List.eraseP_append_right, List.eraseP_cons_of_pos (by simp)]
        intro flight hflight
        simpa using hother flight (List.mem_append_left _ hflight)
      have hsound := h.leave hphase hrunning (fun row => diedItem console row reason)
        (fun row => rfl)
      simp only [Loop.joined, hfind, hbook, herase]
      exact ⟨hsound, trivial, trivial, rfl, rfl⟩

theorem Sound.step {s : Loop} (h : Sound rows s) (m : Move) :
    Sound rows (step console rows s m) := by
  cases m with
  | cancel =>
      exact ⟨h.each, h.book, h.tasks, h.fresh, h.runs, h.busy, h.bound, h.slots, h.lines,
        h.waiting, h.closed, (by rintro _ ⟨⟩), h.ended⟩
  | proceed =>
      unfold Batch.step
      cases hphase : s.phase with
      | filling => exact h.fill hphase
      | joining =>
          dsimp only
          split
          · rename_i hidle
            have hne : s.phase ≠ .filling := by rw [hphase]; decide
            exact ⟨h.each, h.book, h.tasks, h.fresh, h.runs, h.busy, h.bound, h.slots, h.lines,
              h.waiting, fun _ => h.closed hne, fun _ => h.exhausted hne, fun _ => hidle⟩
          · exact h
      | done => exact h
  | join place result =>
      unfold Batch.step
      dsimp only
      split
      · rename_i hphase
        cases hplace : s.running[place]? with
        | none => exact h
        | some ended => exact (h.joined hphase hplace result).1
      · exact h

theorem sound_run (moves : List Move) :
    Sound rows (runFrom (Batch.step console rows) (start console rows) moves) := by
  refine runFrom_invariant (G := fun _ _ => True) (fun s m h _ => h.step m) sound_start ?_
  rw [alongRun_iff]
  exact fun _ _ _ _ => trivial

/-! ## The end of the loop -/

def phaseWeight (s : Loop) : Nat :=
  match s.phase with
  | .filling => s.pending.length + 2
  | .joining => 1
  | .done => 0

/-- Every pass of the loop lowers the weight. -/
def weight (rows : List Selected) (s : Loop) : Nat :=
  (s.pending.length + s.deferred.length + s.running.length) * (rows.length + 3) + phaseWeight s

def Move.ofLoop : Move → Bool
  | .cancel => false
  | _ => true

theorem weight_fill {s : Loop} (h : Sound rows s) (hphase : s.phase = .filling) :
    weight rows (s.fill rows) < weight rows s := by
  have hbefore : phaseWeight s = s.pending.length + 2 := by rw [phaseWeight, hphase]
  obtain ⟨hfill, -⟩ | ⟨index, rest, run, hpending, -, -, hfill⟩ := h.fill_cases
  · have hsum : s.close.pending.length + s.close.deferred.length + s.close.running.length =
        s.pending.length + s.deferred.length + s.running.length := by
      simp only [Loop.close, List.length_append, List.length_nil]
      omega
    rw [hfill, weight, weight, hsum, hbefore, phaseWeight]
    exact Nat.add_lt_add_left (by simp [Loop.close]) _
  · obtain ⟨-, hfill⟩ | ⟨-, hfill⟩ := hfill
    · have hsum : (s.defer index rest).pending.length + (s.defer index rest).deferred.length +
          (s.defer index rest).running.length =
          s.pending.length + s.deferred.length + s.running.length := by
        simp only [Loop.defer, hpending, List.length_append, List.length_cons, List.length_nil]
        omega
      have hafter : phaseWeight (s.defer index rest) = rest.length + 2 := by
        simp only [phaseWeight, Loop.defer, hphase]
      rw [hfill, weight, weight, hsum, hbefore, hafter, hpending]
      exact Nat.add_lt_add_left (by simp) _
    · have hsum : (s.spawn run index rest).pending.length +
          (s.spawn run index rest).deferred.length + (s.spawn run index rest).running.length =
          s.pending.length + s.deferred.length + s.running.length := by
        simp only [Loop.spawn, hpending, List.length_append, List.length_cons, List.length_nil]
        omega
      have hafter : phaseWeight (s.spawn run index rest) = rest.length + 2 := by
        simp only [phaseWeight, Loop.spawn, hphase]
      rw [hfill, weight, weight, hsum, hbefore, hafter, hpending]
      exact Nat.add_lt_add_left (by simp) _

theorem weight_joined {s : Loop} (h : Sound rows s) (hphase : s.phase = .joining)
    {place : Nat} {ended : InFlight} (hplace : s.running[place]? = some ended)
    (result : Joined) :
    weight rows (s.joined console rows ended place result) < weight rows s := by
  obtain ⟨-, hfilling, hrunning, hpending, hdeferred⟩ :=
    @Sound.joined console rows s h hphase place ended hplace result
  obtain ⟨hlt, -⟩ := List.getElem?_eq_some_iff.mp hplace
  have hlength : (s.joined console rows ended place result).running.length + 1 =
      s.running.length := by
    rw [hrunning, List.length_eraseIdx_of_lt hlt]
    omega
  have hbefore : phaseWeight s = 1 := by rw [phaseWeight, hphase]
  have hafter : phaseWeight (s.joined console rows ended place result) = s.pending.length + 2 := by
    rw [phaseWeight, hfilling, hpending]
  have hpendingLe := h.length_le
  have hproduct : (s.pending.length + s.deferred.length + s.running.length) * (rows.length + 3) =
      (s.pending.length + s.deferred.length +
        (s.joined console rows ended place result).running.length) * (rows.length + 3) +
        (rows.length + 3) := by
    rw [← hlength, ← Nat.add_assoc, Nat.succ_mul]
  rw [weight, weight, hpending, hdeferred, hbefore, hafter, hproduct]
  omega

theorem weight_step {s : Loop} (h : Sound rows s) {m : Move} (henabled : Enabled s m)
    (hloop : m.ofLoop = true) :
    weight rows (step console rows s m) < weight rows s := by
  cases m with
  | cancel => cases hloop
  | proceed =>
      rcases henabled with hphase | ⟨hphase, hidle⟩
      · have hstep : step console rows s .proceed = s.fill rows := by simp [step, hphase]
        rw [hstep]
        exact weight_fill h hphase
      · have hstep : step console rows s .proceed = { s with phase := .done } := by
          simp [step, hphase, hidle]
        rw [hstep]
        simp [weight, phaseWeight, hphase]
  | join place result =>
      obtain ⟨hphase, hlt⟩ := henabled
      have hplace : s.running[place]? = some s.running[place] := List.getElem?_eq_getElem hlt
      have hstep : step console rows s (.join place result) =
          s.joined console rows s.running[place] place result := by
        simp [step, hphase, hlt]
      rw [hstep]
      exact weight_joined h hphase hplace result

/-- The weight bounds the moves of the loop. -/
theorem moves_le_weight {s : Loop} (h : Sound rows s) {moves : List Move}
    (halong : AlongRun (step console rows) Enabled s moves) :
    moves.countP Move.ofLoop ≤ weight rows s := by
  induction moves generalizing s with
  | nil => exact Nat.zero_le _
  | cons m rest ih =>
      have hrest := ih (h.step m) halong.2
      rw [List.countP_cons]
      split
      · rename_i hloop
        have := @weight_step console rows s h m halong.1 hloop
        omega
      · rename_i hcancel
        cases m with
        | cancel => exact hrest
        | proceed => exact absurd rfl hcancel
        | join place result => exact absurd rfl hcancel

theorem weight_start :
    weight rows (start console rows) ≤ rows.length * (rows.length + 3) + rows.length + 2 := by
  have hlength := (@sound_start console rows).length_le
  simp only [start, List.length_nil, Nat.add_zero] at hlength
  simp only [weight, phaseWeight, start, List.length_nil, Nat.add_zero]
  have := Nat.mul_le_mul_right (rows.length + 3) hlength
  omega

/-- The report has the line of every row, in order. -/
theorem Sound.report {s : Loop} (h : Sound rows s) :
    (report console rows s).map BatchItem.id = rows.map (fun row => row.gate.id) := by
  refine List.ext_getElem? fun index => ?_
  rw [Batch.report, List.map_map, List.getElem?_map, List.getElem?_map]
  cases hrow : rows[index]? with
  | none =>
      have hzip : (s.slots.zip rows)[index]? = none := by
        have hlength := List.getElem?_eq_none_iff.mp hrow
        rw [List.getElem?_eq_none_iff, List.length_zip]
        omega
      rw [hzip]
      rfl
  | some row =>
      have hlt := (List.getElem?_eq_some_iff.mp hrow).1
      obtain ⟨slot, hslot⟩ : ∃ slot, s.slots[index]? = some slot :=
        ⟨_, List.getElem?_eq_getElem (h.slots ▸ hlt)⟩
      have hzip : (s.slots.zip rows)[index]? = some (slot, row) :=
        List.getElem?_zip_eq_some.mpr ⟨hslot, hrow⟩
      rw [hzip]
      cases slot with
      | none => rfl
      | some item =>
          obtain ⟨row', hrow', hid⟩ := h.lines index item hslot
          rw [hrow] at hrow'
          cases hrow'
          simp [hid]

/-- The loop is done, or it can go on: a task that ends can be joined whichever it is. -/
theorem Sound.continues {s : Loop} (hnot : s.phase ≠ .done) :
    Enabled s .proceed ∨
      (s.running ≠ [] ∧ ∀ place < s.running.length, ∀ result, Enabled s (.join place result)) := by
  cases hphase : s.phase with
  | filling => exact Or.inl (Or.inl hphase)
  | joining =>
      by_cases hidle : s.running = []
      · exact Or.inl (Or.inr ⟨hphase, hidle⟩)
      · exact Or.inr ⟨hidle, fun place hlt result => ⟨hphase, hlt⟩⟩
  | done => exact absurd hphase hnot

end Loops

theorem revisionOf_ne_empty (subject body : String) : revisionOf subject body ≠ "" := by
  intro h
  have hdigits : Nat.toDigits 16 _ = [] :=
    (List.append_eq_nil_iff.mp (String.ofList_eq_empty_iff.mp h)).2
  exact Nat.toDigits_ne_nil hdigits

def plainConsole : Console :=
  ⟨id, id, id, 0⟩

def planGate : Gate :=
  ⟨"factory".toList, "run".toList, "job.approve_plan".toList, unmapped, "Approve plan?", "", none,
    [], true⟩

def planTask : TaskState :=
  ⟨"job.approve_plan", -1, some "awaiting_input"⟩

def planRow : Selected :=
  ⟨planGate, "awaiting_input", none⟩

def serverError : OpsError :=
  ⟨.unreachable, "HTTP 500"⟩

/-- The reads of an answer that is written and refused. -/
def planReads : Log :=
  [⟨.pendingGates, .ok [planGate]⟩, ⟨.taskStates planGate.run, .ok [planTask]⟩,
    ⟨.record planGate.id, ⟨2, 0⟩⟩, ⟨.serverNow, (0 : Int)⟩]

theorem ParkedRead.ne_empty {console : Console} {id : GateId} {revision : String} {log : Log}
    (h : ParkedRead console id revision log) : revision ≠ "" := by
  obtain ⟨pre, listing, tasks, post, gate, -, -, -, rfl⟩ := h
  exact revisionOf_ne_empty _ _

end Batch
end SwFactory
