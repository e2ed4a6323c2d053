import SwFactory.Batch.Answer

/-!
# A write is made after a parked read

The log of a call is followed through its methods: whatever the answers are, a
write that is not forced comes after a read that found the gate pending and
parked, and the revision that is reported is the one that was read.
-/

namespace SwFactory
namespace Batch

open Identities
open Machine
open Rollup

/-- The log has a read that found the gate pending and parked, with this revision. -/
def ParkedRead (console : Console) (id : GateId) (revision : String) (log : Log) : Prop :=
  ∃ pre listing tasks post gate,
    log = pre ++ ⟨.pendingGates, .ok listing⟩ :: ⟨.taskStates id.job.run, .ok tasks⟩ :: post ∧
      listing.find? (fun gate => gate.id = id) = some gate ∧
      isReady gate tasks = true ∧ shownRevision console gate = revision

def isRespond : Stmt → Bool
  | .respond _ _ => true
  | _ => false

/-- Nothing has been written. -/
def Quiet (log : Log) : Prop :=
  ∀ e ∈ log, isRespond e.1 = false

/-- A write of an unforced call answers the gate, which a read found parked before. -/
def allow (console : Console) (id : GateId) (forced : Bool) (log : Log) : Stmt → Prop
  | .respond id' _ =>
      id' = id ∧ (forced = false → ∃ revision, ParkedRead console id revision log)
  | _ => True

/-- Every write of the log was made after a parked read with the revision. -/
def Written (console : Console) (id : GateId) (revision : String) (log : Log) : Prop :=
  ∀ pre stmt reply post, log = pre ++ ⟨stmt, reply⟩ :: post → isRespond stmt = true →
    ParkedRead console id revision pre

section Rules

variable {console : Console}
variable {id : GateId}
variable {forced : Bool}

theorem ParkedRead.append {revision : String} {log : Log}
    (h : ParkedRead console id revision log) (more : Log) :
    ParkedRead console id revision (log ++ more) := by
  obtain ⟨pre, listing, tasks, post, gate, rfl, hfind, hready, hrevision⟩ := h
  exact ⟨pre, listing, tasks, post ++ more, gate, by simp, hfind, hready, hrevision⟩

theorem Quiet.append {log more : Log} (h : Quiet log) (hmore : Quiet more) :
    Quiet (log ++ more) := by
  intro e he
  rcases List.mem_append.mp he with he | he
  · exact h e he
  · exact hmore e he

theorem quiet_single {e : Event Stmt Reply} (h : isRespond e.1 = false) : Quiet [e] := by
  intro e' he'
  rw [List.mem_singleton.mp he']
  exact h

/-- What a read has done to the log, and what it reports. -/
def ReadFrom (console : Console) (id : GateId) (before : Log) (log : Log)
    (r : Except OpsError (Gate × Bool × String)) : Prop :=
  (∃ more, log = before ++ more ∧ Quiet more) ∧
    ∀ found, r = .ok found → found.2.1 = true →
      ParkedRead console id (shownRevision console found.1) log

theorem read_spec (before : Log) :
    Obeys (history (allow console id forced)) (ReadFrom console id before)
      (read console id) before := by
  refine ⟨trivial, fun listing _ => ?_⟩
  have hlisting : Quiet [(⟨.pendingGates, listing⟩ : Event Stmt Reply)] := quiet_single rfl
  cases listing with
  | error e => exact ⟨⟨_, rfl, hlisting⟩, by rintro _ ⟨⟩⟩
  | ok rows =>
      change List Gate at rows
      change Obeys _ _ (Prog.bind (Prog.bind (.ret rows) _) _) _
      simp only [Prog.bind]
      cases hfind : rows.find? (fun gate => gate.id = id) with
      | none => exact ⟨⟨_, rfl, hlisting⟩, by rintro _ ⟨⟩⟩
      | some gate =>
          refine ⟨trivial, fun tasks _ => ⟨⟨_, List.append_assoc _ _ _,
            hlisting.append (quiet_single rfl)⟩, ?_⟩⟩
          rintro found ⟨⟩ hready
          cases tasks with
          | error e => cases hready
          | ok tasks =>
              exact ⟨before, rows, tasks, [], gate, by simp [history], hfind, hready, rfl⟩

/-- The statements of the program write nothing, whatever it reports. -/
def Silent {α : Type} (before : Log) (log : Log) (_ : Except OpsError α) : Prop :=
  ∃ more, log = before ++ more ∧ Quiet more

theorem confirm_spec (revision : String) (wait : Nat) (before : Log) :
    Obeys (history (allow console id forced))
      (fun log r => Silent before log r ∧
        ∀ count, r = .ok count → ParkedRead console id revision log)
      (confirm console id revision wait) before := by
  have hwait : Obeys (history (allow console id forced)) (Silent before)
      (if wait = 0 then .ret false else .step (.wait wait) (fun (stopped : Bool) => .ret stopped))
      before := by
    split
    · exact ⟨[], by simp, by rintro _ ⟨⟩⟩
    · exact ⟨trivial, fun stopped _ => ⟨_, rfl, quiet_single rfl⟩⟩
  refine Obeys.bind hwait (fun log stopped h => ?_) (fun log e h => ⟨h, by rintro _ ⟨⟩⟩)
  obtain ⟨more, rfl, hmore⟩ := h
  cases stopped with
  | true => exact ⟨⟨more, rfl, hmore⟩, by rintro _ ⟨⟩⟩
  | false =>
      refine Obeys.bind (read_spec (before ++ more)) (fun log again h => ?_)
        (fun log e h => ?_)
      · obtain ⟨⟨read, rfl, hread⟩, hparked⟩ := h
        have hsilent : Quiet (more ++ read) := hmore.append hread
        split
        · exact ⟨⟨_, List.append_assoc _ _ _, hsilent⟩, by rintro _ ⟨⟩⟩
        rename_i hrevision
        split
        · exact ⟨⟨_, List.append_assoc _ _ _, hsilent⟩, by rintro _ ⟨⟩⟩
        rename_i hready
        refine ⟨trivial, fun seen _ => ⟨⟨(more ++ read) ++ [⟨.record id, seen⟩], ?_,
          hsilent.append (quiet_single rfl)⟩, fun count _ => ?_⟩⟩
        · simp [history]
        rw [not_not] at hrevision
        rw [← hrevision]
        exact (hparked again rfl (by simpa using hready)).append _
      · obtain ⟨⟨read, rfl, hread⟩, -⟩ := h
        exact ⟨⟨_, List.append_assoc _ _ _, hmore.append hread⟩, by rintro _ ⟨⟩⟩

/-- A log with one write is cut at a write in one way. -/
theorem Quiet.cut {log more pre post : Log} {e e' : Event Stmt Reply}
    (hlog : Quiet log) (hmore : Quiet more) (he' : isRespond e'.1 = true)
    (h : log ++ e :: more = pre ++ e' :: post) : pre = log := by
  induction log generalizing pre with
  | nil =>
      cases pre with
      | nil => rfl
      | cons first rest =>
          obtain ⟨-, h⟩ := List.cons.inj h
          have hquiet := hmore e' (h ▸ List.mem_append_right rest List.mem_cons_self)
          rw [he'] at hquiet
          cases hquiet
  | cons a log ih =>
      cases pre with
      | nil =>
          obtain ⟨rfl, -⟩ := List.cons.inj h
          have hquiet := hlog a List.mem_cons_self
          rw [he'] at hquiet
          cases hquiet
      | cons first rest =>
          obtain ⟨rfl, htail⟩ := List.cons.inj h
          rw [ih (fun e he => hlog e (List.mem_cons_of_mem _ he)) htail]

/-- After a quiet log, the write is the only one, and the read is before it. -/
theorem write_spec (decision : Decision) (revision : String) (count : Nat) {log : Log}
    (hquiet : Quiet log)
    (hparked : forced = false → ParkedRead console id revision log) :
    Obeys (history (allow console id forced))
      (fun log r => ∀ answered, r = .ok answered → forced = false →
        Written console id answered.revision log)
      (write id decision revision forced count) log := by
  refine ⟨⟨rfl, fun h => ⟨revision, hparked h⟩⟩, fun reply _ => ?_⟩
  cases reply with
  | error e => rintro _ ⟨⟩
  | ok done =>
      refine ⟨trivial, fun forgotten _ => ?_⟩
      rintro answered ⟨⟩ hforced pre stmt reply post hsplit hrespond
      simp only [history, List.append_assoc, List.cons_append, List.nil_append] at hsplit
      rw [hquiet.cut (quiet_single rfl) hrespond hsplit]
      exact hparked hforced

theorem answer_spec (decision : Decision) (opts : AnswerOpts) :
    Obeys (history (allow console id opts.force))
      (fun log r => ∀ answered, r = .ok answered → opts.force = false →
        Written console id answered.revision log)
      (answer console id decision opts) [] := by
  refine Obeys.bind (read_spec []) (fun log first h => ?_) (fun log e _ => by rintro _ ⟨⟩)
  obtain ⟨⟨more, hlog, hmore⟩, hparked⟩ := h
  rw [List.nil_append] at hlog
  subst hlog
  dsimp only
  cases opts.expect.filter (fun expected => expected ≠ shownRevision console first.1) with
  | some expected => rintro _ ⟨⟩
  | none =>
      dsimp only
      split
      · rintro _ ⟨⟩
      have hseen : Obeys (history (allow console id opts.force)) (Silent log)
          (if first.2.1 then .step (.record id) (fun (seen : Seen) => .ret seen)
            else .ret ⟨0, 0⟩) log := by
        split
        · exact ⟨trivial, fun seen _ => ⟨_, rfl, quiet_single rfl⟩⟩
        · exact ⟨[], by simp, by rintro _ ⟨⟩⟩
      refine Obeys.bind hseen (fun _ seen h => ?_) (fun _ e _ => by rintro _ ⟨⟩)
      obtain ⟨counted, rfl, hcounted⟩ := h
      split
      · rintro _ ⟨⟩
      rename_i hready
      simp only [Bool.and_eq_true, Bool.not_eq_true', not_and, Bool.not_eq_false] at hready
      have hage : Obeys (history (allow console id opts.force)) (Silent (log ++ counted))
          (ageOf first.1 seen) (log ++ counted) :=
        ⟨trivial, fun now _ => ⟨_, rfl, quiet_single rfl⟩⟩
      refine Obeys.bind hage (fun _ age h => ?_) (fun _ e _ => by rintro _ ⟨⟩)
      obtain ⟨clock, rfl, hclock⟩ := h
      -- the log is quiet up to here, and an unforced call has read a parked gate
      have hquiet : Quiet ((log ++ counted) ++ clock) := (hmore.append hcounted).append hclock
      have hread : opts.force = false →
          ParkedRead console id (shownRevision console first.1) ((log ++ counted) ++ clock) := by
        intro hforced
        have hparkedNow : first.2.1 = true := by
          by_contra hnot
          rw [Bool.not_eq_true] at hnot
          rw [hready hnot] at hforced
          cases hforced
        exact ((hparked first rfl hparkedNow).append counted).append clock
      have hconfirm : Obeys (history (allow console id opts.force))
          (Silent ((log ++ counted) ++ clock))
          (if first.2.1 && !opts.force && (seen.count < requiredSightings ||
                age < opts.confirmDelay.getD console.settleWindow) then
              confirm console id (shownRevision console first.1)
                (opts.confirmDelay.getD console.settleWindow - age)
            else .ret seen.count) ((log ++ counted) ++ clock) := by
        split
        · exact (confirm_spec _ _ _).mono fun log' r h => h.1
        · exact ⟨[], by simp, by rintro _ ⟨⟩⟩
      refine Obeys.bind hconfirm (fun _ count h => ?_) (fun _ e _ => by rintro _ ⟨⟩)
      obtain ⟨confirmed, rfl, hconfirmed⟩ := h
      exact write_spec decision _ count (hquiet.append hconfirmed)
        (fun hforced => (hread hforced).append confirmed)

/-- A write of an unforced call was made after a read that found the gate pending and
parked, and the revision that an answered gate reports is the one of such a read. -/
theorem respond_after_parked_read {decision : Decision} {opts : AnswerOpts} {log : Log}
    {rest : Call GateAnswer} (hlog : (answer console id decision opts).Logs log rest)
    (hforce : opts.force = false)
    {pre post : Log} {id' : GateId} {approve : Bool} {reply : Reply (.respond id' approve)}
    (hsplit : log = pre ++ ⟨.respond id' approve, reply⟩ :: post) :
    id' = id ∧ (∃ revision, ParkedRead console id revision pre) ∧
      ∀ answered, rest = .ret answered → ParkedRead console id answered.revision pre := by
  have hspec := @answer_spec console id decision opts
  obtain ⟨hid, hparked⟩ := hspec.allowed hlog hsplit
  refine ⟨hid, hparked hforce, ?_⟩
  rintro answered rfl
  have hend := hspec.of_logs hlog
  exact hend answered rfl hforce pre _ _ post hsplit rfl

end Rules

end Batch
end SwFactory
