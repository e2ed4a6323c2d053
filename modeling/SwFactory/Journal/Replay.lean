import SwFactory.Journal.Attempts

/-!
# The operation journal: no blind replay

`execute` promises that a provider effect is invoked again only behind an
observation that it is absent.  The decision to observe, the observation, the
claim and the invocation are separate statements, and nothing ties them to one
version of the row: another process can claim, fail and release in between.

`no_blind_replay` says what is enough: as long as no other process gets between
the observation of an `execute` call, its claim and its invocation, every
invocation after the first is preceded by an observation `definitely_absent` of
the invoking process that came after the previous invocation had ended.
-/

namespace SwFactory
namespace Journal

open Text Machine

variable {V : Type}

section History

/-- The event ends the invocation of process `q`. -/
def Event.ends (q : Nat) : Event → Bool
  | returned p => p == q
  | raised p => p == q
  | crashed p => p == q
  | lostLease p => p == q
  | _ => false

/-- The last invocation of the log, if there is one, has ended. -/
def LastEnded (log : List Event) : Prop :=
  ∀ newer q older, log = newer ++ .invoked q :: older →
    (∀ r, .invoked r ∉ newer) → ∃ e ∈ newer, e.ends q

/--
Process `p` has observed that the effect is absent, after the previous
invocation had ended, and nobody has invoked the provider since.
-/
def Cleared (p : Nat) (past : List Event) : Prop :=
  ∃ newer older, past = newer ++ .reconciled p .definitelyAbsent :: older ∧
    (∀ q, .invoked q ∉ newer) ∧ LastEnded older

/-- Every invocation after the first one was cleared by its own process. -/
def NoBlindReplay (log : List Event) : Prop :=
  ∀ newer p past, log = newer ++ .invoked p :: past →
    (∃ q, .invoked q ∈ past) → Cleared p past

/-- Process `q` has entered the provider callback and not left it. -/
def inCallback : List Event → Nat → Bool
  | [], _ => false
  | e :: log, q =>
      if e = .invoked q then true
      else if e.ends q then false
      else inCallback log q

/-- The status of the latest observation that process `p` made. -/
def lastSeen (p : Nat) : List Event → Option OutcomeStatus
  | [] => none
  | .reconciled q status :: log =>
      if q = p then some status else lastSeen p log
  | _ :: log => lastSeen p log

/-- The event is an observation by process `p`. -/
def Event.observedBy (p : Nat) : Event → Bool
  | reconciled q _ => q == p
  | _ => false

/-- What happened since the latest observation of process `p`. -/
def since (p : Nat) (log : List Event) : List Event :=
  log.takeWhile (fun e => !e.observedBy p)

/-- The event is a claim that took the attempt. -/
def Event.isClaim : Event → Bool
  | claimed _ _ => true
  | _ => false

/-- Nobody is in the callback, so the last invocation has ended. -/
theorem lastEnded_of_not_inCallback {log : List Event}
    (h : ∀ q, inCallback log q = false) : LastEnded log := by
  rintro newer q older rfl hnewer
  have hq := h q
  clear h
  induction newer with
  | nil =>
      simp [inCallback] at hq
  | cons e newer ih =>
      have he : e ≠ .invoked q := fun heq => hnewer q (by simp [heq])
      by_cases hend : e.ends q
      · exact ⟨e, by simp, hend⟩
      · rw [List.cons_append, inCallback, if_neg he, if_neg hend] at hq
        obtain ⟨e', hmem, hend'⟩ :=
          ih (fun r hr => hnewer r (List.mem_cons_of_mem e hr)) hq
        exact ⟨e', List.mem_cons_of_mem e hmem, hend'⟩

/-- The log splits at the latest observation of `p`. -/
theorem split_at_lastSeen
    {p : Nat} {status : OutcomeStatus} {log : List Event}
    (h : lastSeen p log = some status) :
    ∃ older, log = since p log ++ .reconciled p status :: older := by
  induction log with
  | nil =>
      cases h
  | cons e log ih =>
      by_cases he : e.observedBy p
      · cases e with
        | reconciled q st =>
            obtain rfl : q = p := by simpa [Event.observedBy] using he
            obtain rfl : st = status := by simpa [lastSeen] using h
            exact ⟨log, by simp [since, Event.observedBy]⟩
        | _ => cases he
      · have hlog : lastSeen p log = some status := by
          cases e with
          | reconciled q st =>
              have hq : q ≠ p := by simpa [Event.observedBy] using he
              simpa [lastSeen, hq] using h
          | _ => exact h
        obtain ⟨older, hsplit⟩ := ih hlog
        refine ⟨older, ?_⟩
        have hsince : since p (e :: log) = e :: since p log := by
          simp [since, he]
        rw [hsince, List.cons_append, ← hsplit]

/-- Without an observation of `p` nothing is cut off. -/
theorem since_of_lastSeen_none {p : Nat} {log : List Event}
    (h : lastSeen p log = none) : since p log = log := by
  induction log with
  | nil =>
      rfl
  | cons e log ih =>
      have he : e.observedBy p = false ∧ lastSeen p log = none := by
        cases e with
        | reconciled q st =>
            by_cases hq : q = p
            · simp [lastSeen, hq] at h
            · simpa [lastSeen, Event.observedBy, hq] using h
        | _ => exact ⟨rfl, h⟩
      have hlog : List.takeWhile (fun e => !e.observedBy p) log = log :=
        ih he.2
      simp [since, he.1, hlog]

theorem Cleared.append
    {p : Nat} {log : List Event}
    (h : Cleared p log)
    (new : List Event) (hnew : ∀ q, .invoked q ∉ new) :
    Cleared p (new ++ log) := by
  obtain ⟨newer, older, rfl, hnewer, hended⟩ := h
  refine ⟨new ++ newer, older, by simp, fun q hq => ?_, hended⟩
  rcases List.mem_append.mp hq with hq | hq
  · exact hnew q hq
  · exact hnewer q hq

/-- Other events leave the promise as it is. -/
theorem NoBlindReplay.cons
    {e : Event} {log : List Event}
    (h : NoBlindReplay log)
    (he : ∀ p, e = .invoked p → (∃ q, .invoked q ∈ log) → Cleared p log) :
    NoBlindReplay (e :: log) := by
  intro newer p past hsplit hearlier
  rcases List.cons_eq_append_iff.mp hsplit with ⟨-, heq⟩ | ⟨newer', -, heq⟩
  · obtain ⟨hhead, rfl⟩ := List.cons.inj heq
    exact he p hhead.symm hearlier
  · exact h newer' p past heq hearlier

end History

section Invariant

/-- Nothing that an invocation, a claim or an observation would record. -/
def Event.quiet : Event → Bool
  | claimed _ _ => false
  | invoked _ => false
  | reconciled _ _ => false
  | _ => true

/--
No other process gets between what an `execute` call of process `p` has seen
and what it does: it observes while nobody holds the attempt, it takes the
attempt while nobody has claimed since its observation (at all, on first
contact), and it calls the provider while it holds the attempt.
-/
def Undisturbed
    (calls : Nat → Call V) (p : Nat) (s : Stmt V) (sh : Shared V) : Prop :=
  (calls p).isExecute = true →
    (s.observes = true → ownerOf sh.row = none) ∧
      (s.takes sh.row = true → ∀ e ∈ since p sh.log, e.isClaim = false) ∧
      (s.invokes = true → ownerOf sh.row = some p)

instance (calls : Nat → Call V) (p : Nat) (s : Stmt V) (sh : Shared V) :
    Decidable (Undisturbed calls p s sh) :=
  inferInstanceAs (Decidable (_ → _ ∧ _ ∧ _))

/-- Log, row and processes fit together. -/
structure ReplayInv
    (calls : Nat → Call V) (loc : Nat → Local) (sh : Shared V) : Prop where
  pid : ∀ p, (loc p).pid = p
  executes : ∀ p, (loc p).executes = (calls p).isExecute
  seen : ∀ p, (loc p).seen = lastSeen p sh.log
  safe : NoBlindReplay sh.log
  /-- Whoever is in the callback holds the attempt. -/
  inside : ∀ q, inCallback sh.log q = true →
    ownerOf sh.row = some q ∧ ∃ n, (loc q).phase = .inside n
  /-- Whoever is about to call the provider may do so. -/
  cleared : ∀ p n, (loc p).phase = .claimed n → (loc p).executes = true →
    ownerOf sh.row = some p →
      (∀ q, .invoked q ∉ sh.log) ∨ Cleared p sh.log
  owned : ∀ q, ownerOf sh.row = some q → ∃ e ∈ sh.log, e.isClaim = true
  backed : ∀ q, .invoked q ∈ sh.log → ∃ e ∈ sh.log, e.isClaim = true
  /-- Observations find nobody in the callback, and stay good until a claim. -/
  observed : ∀ p newer status older, (calls p).isExecute = true →
    sh.log = newer ++ .reconciled p status :: older →
      (∀ q, inCallback older q = false) ∧
        ((∀ e ∈ newer, e.isClaim = false) →
          ownerOf sh.row = none ∧ ∀ q, .invoked q ∉ newer)

theorem lastSeen_append_quiet
    {new : List Event} (hquiet : ∀ e ∈ new, e.quiet = true)
    (p : Nat) (log : List Event) :
    lastSeen p (new ++ log) = lastSeen p log := by
  induction new with
  | nil =>
      rfl
  | cons e new ih =>
      have hrest := ih (fun e' he' => hquiet e' (List.mem_cons_of_mem e he'))
      have he := hquiet e (by simp)
      cases e with
      | reconciled q st => cases he
      | _ => exact hrest

/-- A split at another event lies below the quiet ones. -/
theorem split_below_quiet
    {new log newer older : List Event} {x : Event}
    (hquiet : ∀ e ∈ new, e.quiet = true)
    (hx : x.quiet = false)
    (h : new ++ log = newer ++ x :: older) :
    ∃ newer', newer = new ++ newer' ∧ log = newer' ++ x :: older := by
  induction new generalizing newer with
  | nil =>
      exact ⟨newer, rfl, h⟩
  | cons e new ih =>
      rcases List.cons_eq_append_iff.mp h with ⟨-, heq⟩ | ⟨newer', rfl, heq⟩
      · obtain ⟨rfl, -⟩ := List.cons.inj heq
        have he := hquiet x (by simp)
        rw [hx] at he
        cases he
      · obtain ⟨newer'', rfl, hlog⟩ :=
          ih (fun e' he' => hquiet e' (List.mem_cons_of_mem e he')) heq
        exact ⟨newer'', rfl, hlog⟩

theorem NoBlindReplay.append_quiet
    {new log : List Event}
    (h : NoBlindReplay log) (hquiet : ∀ e ∈ new, e.quiet = true) :
    NoBlindReplay (new ++ log) := by
  intro newer p past hsplit hearlier
  obtain ⟨newer', -, hlog⟩ := split_below_quiet hquiet rfl hsplit
  exact h newer' p past hlog hearlier

variable {calls : Nat → Call V} {loc loc' : Nat → Local} {sh : Shared V}
variable {stored' : Option (Row V)}

/-- A step that claims, invokes and observes nothing. -/
theorem ReplayInv.quiet
    (h : ReplayInv calls loc sh)
    (new : List Event)
    (hquiet : ∀ e ∈ new, e.quiet = true)
    (hpid : ∀ q, (loc' q).pid = q)
    (hexecutes : ∀ q, (loc' q).executes = (loc q).executes)
    (hseen : ∀ q, (loc' q).seen = (loc q).seen)
    (hphase : ∀ q, (loc' q).phase = (loc q).phase ∨ (loc' q).phase = .over)
    (howner : ownerOf stored' = none ∨ ownerOf stored' = ownerOf sh.row)
    (hinside : ∀ q, inCallback (new ++ sh.log) q = true →
      ownerOf stored' = some q ∧ ∃ n, (loc' q).phase = .inside n) :
    ReplayInv calls loc' ⟨stored', new ++ sh.log⟩ := by
  have hnew : ∀ q, .invoked q ∉ new := by
    intro q hq
    have := hquiet _ hq
    cases this
  have hinvoked : ∀ q, .invoked q ∈ new ++ sh.log → .invoked q ∈ sh.log := by
    intro q hq
    rcases List.mem_append.mp hq with hq | hq
    · exact absurd hq (hnew q)
    · exact hq
  have hsome : ∀ q, ownerOf stored' = some q → ownerOf sh.row = some q := by
    intro q hq
    rcases howner with hnone | hsame
    · rw [hnone] at hq
      cases hq
    · rwa [hsame] at hq
  refine ⟨hpid, fun q => (hexecutes q).trans (h.executes q), ?_,
    h.safe.append_quiet hquiet, hinside, ?_, ?_, ?_, ?_⟩
  · intro q
    rw [hseen, lastSeen_append_quiet hquiet]
    exact h.seen q
  · intro p n hp hexec hown
    rcases hphase p with hsame | hover
    · rcases h.cleared p n (hsame ▸ hp) (hexecutes p ▸ hexec) (hsome p hown) with
        hnone | hcleared
      · exact Or.inl (fun q hq => hnone q (hinvoked q hq))
      · exact Or.inr (hcleared.append new hnew)
    · rw [hover] at hp
      cases hp
  · intro q hq
    obtain ⟨e, he, hclaim⟩ := h.owned q (hsome q hq)
    exact ⟨e, List.mem_append_right new he, hclaim⟩
  · intro q hq
    obtain ⟨e, he, hclaim⟩ := h.backed q (hinvoked q hq)
    exact ⟨e, List.mem_append_right new he, hclaim⟩
  · intro p newer status older hexec hsplit
    obtain ⟨newer', rfl, hlog⟩ := split_below_quiet hquiet rfl hsplit
    obtain ⟨hnobody, hgood⟩ := h.observed p newer' status older hexec hlog
    refine ⟨hnobody, fun hclaims => ?_⟩
    obtain ⟨hfree, hnone⟩ :=
      hgood (fun e he => hclaims e (List.mem_append_right new he))
    constructor
    · rcases howner with howner | howner
      · exact howner
      · exact howner.trans hfree
    · intro q hq
      rcases List.mem_append.mp hq with hq | hq
      · exact hnew q hq
      · exact hnone q hq

variable {p : Nat}

/-- The claim of an `execute` call that nobody got in the way of. -/
theorem ReplayInv.takes
    {attempt : Nat}
    (h : ReplayInv calls loc sh)
    (hmay : (loc p).MayClaim)
    (hfree : ownerOf sh.row = none)
    (howner : ownerOf stored' = some p)
    (hcond : (calls p).isExecute = true →
      ∀ e ∈ since p sh.log, e.isClaim = false) :
    ReplayInv calls
      (Function.update loc p { loc p with phase := .claimed attempt })
      ⟨stored', .claimed p attempt :: sh.log⟩ := by
  have hnobody : ∀ q, inCallback sh.log q = false := by
    intro q
    by_contra hq
    rw [(h.inside q (by simpa using hq)).1] at hfree
    cases hfree
  -- the observation the claim rests on: none on first contact, else its own
  have hclear : (calls p).isExecute = true →
      (∀ q, .invoked q ∉ sh.log) ∨ Cleared p sh.log := by
    intro hexec
    have hnoclaim := hcond hexec
    rcases hmay.absent ((h.executes p).trans hexec) with hnone | habsent
    · left
      intro q hq
      obtain ⟨e, he, hclaim⟩ := h.backed q hq
      rw [since_of_lastSeen_none ((h.seen p).symm.trans hnone)] at hnoclaim
      rw [hnoclaim e he] at hclaim
      cases hclaim
    · right
      obtain ⟨older, hsplit⟩ :=
        split_at_lastSeen ((h.seen p).symm.trans habsent)
      obtain ⟨hold, hgood⟩ :=
        h.observed p (since p sh.log) _ older hexec hsplit
      exact ⟨since p sh.log, older, hsplit, (hgood hnoclaim).2,
        lastEnded_of_not_inCallback hold⟩
  refine ⟨fun q => ?_, fun q => ?_, fun q => ?_, h.safe.cons (by simp),
    fun q hq => ?_, fun q n hq hexec hown => ?_, fun q _ => ⟨_, List.mem_cons_self, rfl⟩,
    fun q _ => ⟨_, List.mem_cons_self, rfl⟩,
    fun q newer status older hexec hsplit => ?_⟩
  · exact (proj_update Local.pid loc (by rfl) q).trans (h.pid q)
  · exact (proj_update Local.executes loc (by rfl) q).trans (h.executes q)
  · exact (proj_update Local.seen loc (by rfl) q).trans (h.seen q)
  · simp [inCallback, Event.ends, hnobody q] at hq
  · obtain rfl : p = q := by simpa [howner] using hown
    have hexec' : (calls p).isExecute = true := by
      simpa [h.executes] using hexec
    rcases hclear hexec' with hnone | hcleared
    · exact Or.inl (by simpa using hnone)
    · exact Or.inr (hcleared.append [_] (by simp))
  · rcases List.cons_eq_append_iff.mp hsplit with ⟨-, heq⟩ | ⟨newer', rfl, heq⟩
    · cases heq
    · refine ⟨(h.observed q newer' status older hexec heq).1, fun hclaims => ?_⟩
      have := hclaims _ (List.mem_cons_self)
      cases this

/-- The invocation of a process that still holds its attempt. -/
theorem ReplayInv.enters
    {attempt : Nat}
    (h : ReplayInv calls loc sh)
    (hexecutes : (loc p).executes = true)
    (hclaimed : (loc p).phase = .claimed attempt)
    (howner : ownerOf sh.row = some p) :
    ReplayInv calls
      (Function.update loc p { loc p with phase := .inside attempt })
      ⟨sh.row, .invoked p :: sh.log⟩ := by
  have hclear := h.cleared p attempt hclaimed hexecutes howner
  refine ⟨fun q => ?_, fun q => ?_, fun q => ?_, h.safe.cons ?_,
    fun q hq => ?_, fun q n hq hexec hown => ?_, fun q hq => ?_,
    fun q hq => ?_, fun q newer status older hexec hsplit => ?_⟩
  · exact (proj_update Local.pid loc (by rfl) q).trans (h.pid q)
  · exact (proj_update Local.executes loc (by rfl) q).trans (h.executes q)
  · exact (proj_update Local.seen loc (by rfl) q).trans (h.seen q)
  · rintro _ ⟨⟩ ⟨q, hq⟩
    rcases hclear with hnone | hcleared
    · exact absurd hq (hnone q)
    · exact hcleared
  · by_cases hqp : q = p
    · subst hqp
      exact ⟨howner, attempt, by simp⟩
    · have hlog : inCallback sh.log q = true := by
        simpa [inCallback, Event.ends, Ne.symm hqp] using hq
      obtain ⟨hown, -⟩ := h.inside q hlog
      rw [howner] at hown
      exact absurd (Option.some.inj hown).symm hqp
  · obtain rfl : p = q := by simpa [howner] using hown
    simp at hq
  · obtain ⟨e, he, hclaim⟩ := h.owned q hq
    exact ⟨e, List.mem_cons_of_mem _ he, hclaim⟩
  · obtain ⟨e, he, hclaim⟩ := h.owned p howner
    exact ⟨e, List.mem_cons_of_mem _ he, hclaim⟩
  · rcases List.cons_eq_append_iff.mp hsplit with ⟨-, heq⟩ | ⟨newer', rfl, heq⟩
    · cases heq
    · obtain ⟨hold, hgood⟩ := h.observed q newer' status older hexec heq
      refine ⟨hold, fun hclaims => ?_⟩
      obtain ⟨hfree, -⟩ :=
        hgood (fun e he => hclaims e (List.mem_cons_of_mem _ he))
      rw [howner] at hfree
      cases hfree

/-- An observation; that of an `execute` call finds no attempt held. -/
theorem ReplayInv.observes
    {status : OutcomeStatus}
    (h : ReplayInv calls loc sh)
    (hcond : (calls p).isExecute = true → ownerOf sh.row = none) :
    ReplayInv calls
      (Function.update loc p { loc p with seen := some status })
      ⟨sh.row, .reconciled p status :: sh.log⟩ := by
  have hphase : ∀ q, (Function.update loc p
      { loc p with seen := some status } q).phase = (loc q).phase :=
    proj_update Local.phase loc rfl
  refine ⟨fun q => ?_, fun q => ?_, fun q => ?_, h.safe.cons (by simp),
    fun q hq => ?_, fun q n hq hexec hown => ?_, fun q hq => ?_,
    fun q hq => ?_, fun q newer st older hexec hsplit => ?_⟩
  · exact (proj_update Local.pid loc (by rfl) q).trans (h.pid q)
  · exact (proj_update Local.executes loc (by rfl) q).trans (h.executes q)
  · by_cases hqp : q = p
    · subst hqp
      simp [lastSeen]
    · simpa [hqp, lastSeen, Ne.symm hqp] using h.seen q
  · rw [hphase]
    exact h.inside q (by simpa [inCallback, Event.ends] using hq)
  · have hexec' : (loc q).executes = true :=
      (proj_update Local.executes loc (by rfl) q).symm.trans hexec
    rcases h.cleared q n (hphase q ▸ hq) hexec' hown with hnone | hcleared
    · exact Or.inl (by simpa using hnone)
    · exact Or.inr (hcleared.append [_] (by simp))
  · obtain ⟨e, he, hclaim⟩ := h.owned q hq
    exact ⟨e, List.mem_cons_of_mem _ he, hclaim⟩
  · obtain ⟨e, he, hclaim⟩ := h.backed q (by simpa using hq)
    exact ⟨e, List.mem_cons_of_mem _ he, hclaim⟩
  · rcases List.cons_eq_append_iff.mp hsplit with ⟨rfl, heq⟩ | ⟨newer', rfl, heq⟩
    · obtain ⟨hhead, rfl⟩ := List.cons.inj heq
      obtain ⟨rfl, rfl⟩ := Event.reconciled.inj hhead
      have hfree := hcond hexec
      refine ⟨fun r => ?_, fun _ => ⟨hfree, by simp⟩⟩
      by_contra hr
      rw [(h.inside r (by simpa using hr)).1] at hfree
      cases hfree
    · obtain ⟨hold, hgood⟩ := h.observed q newer' st older hexec heq
      refine ⟨hold, fun hclaims => ?_⟩
      obtain ⟨hfree, hnone⟩ :=
        hgood (fun e he => hclaims e (List.mem_cons_of_mem _ he))
      exact ⟨hfree, by simpa using hnone⟩

/-- Leaving the callback. -/
theorem ReplayInv.leaves
    {attempt : Nat} {e : Event}
    (h : ReplayInv calls loc sh)
    (hinside : (loc p).phase = .inside attempt)
    (hend : e = .returned p ∨ e = .raised p) :
    ReplayInv calls (Function.update loc p { loc p with phase := .over })
      ⟨sh.row, e :: sh.log⟩ := by
  have hends : e.ends p = true := by
    rcases hend with rfl | rfl <;> simp [Event.ends]
  refine h.quiet [e] (by rcases hend with rfl | rfl <;> simp [Event.quiet])
    (fun q => (proj_update Local.pid loc (by rfl) q).trans (h.pid q))
    (proj_update Local.executes loc (by rfl))
    (proj_update Local.seen loc (by rfl)) (fun q => ?_) (Or.inr rfl)
    (fun q hq => ?_)
  · by_cases hqp : q = p
    · subst hqp
      simp
    · simp [hqp]
  · have hne : e ≠ .invoked q := by
      rcases hend with rfl | rfl <;> simp
    by_cases hqp : q = p
    · subst hqp
      simp [inCallback, hne, hends] at hq
    · have hlog : inCallback sh.log q = true := by
        rcases hend with rfl | rfl <;>
          simpa [inCallback, Event.ends, Ne.symm hqp] using hq
      simpa [hqp] using h.inside q hlog

/-- Any other write; an owner it removes has lost its lease. -/
theorem ReplayInv.writes
    (h : ReplayInv calls loc sh)
    (hsettled : (loc p).Settled)
    (howner : ownerOf stored' = none ∨ ownerOf stored' = ownerOf sh.row) :
    ReplayInv calls (Function.update loc p (loc p))
      ⟨stored', displaced p (ownerOf sh.row) (ownerOf stored') ++ sh.log⟩ := by
  rw [Function.update_eq_self]
  have hother : ∀ q, inCallback sh.log q = true → q ≠ p := by
    rintro q hq rfl
    obtain ⟨-, n, hphase⟩ := h.inside q hq
    rcases hsettled with hidle | hover
    · rw [hphase] at hidle
      cases hidle
    · rw [hphase] at hover
      cases hover
  rcases displaced_cases p (ownerOf sh.row) (ownerOf stored') with
    ⟨hnil, hkept⟩ | ⟨q, hqp, hbefore, hafter, hlost⟩
  · rw [hnil]
    refine h.quiet [] (by simp) h.pid (fun _ => rfl) (fun _ => rfl)
      (fun _ => Or.inl rfl) howner (fun r hr => ?_)
    obtain ⟨hown, hphase⟩ := h.inside r hr
    exact ⟨(hkept r hown).resolve_left (hother r hr), hphase⟩
  · rw [hlost]
    refine h.quiet [_] (by simp [Event.quiet]) h.pid (fun _ => rfl) (fun _ => rfl)
      (fun _ => Or.inl rfl) howner (fun r hr => ?_)
    by_cases hrq : q = r
    · subst hrq
      simp [inCallback, Event.ends] at hr
    · have hlog : inCallback sh.log r = true := by
        simpa [inCallback, Event.ends, hrq] using hr
      obtain ⟨hown, -⟩ := h.inside r hlog
      rw [hbefore] at hown
      exact absurd (Option.some.inj hown) hrq

/-- One statement of an obedient and undisturbed process. -/
theorem ReplayInv.exec
    {s : Stmt V} (i : Input V)
    (h : ReplayInv calls loc sh)
    (hallow : attemptAllow none (loc p) s)
    (hcond : Undisturbed calls p s sh) :
    ReplayInv calls
      (Function.update loc p (attemptNext (loc p) s (s.answer p i sh.row)))
      ⟨s.effect sh.row, s.events p i sh.row ++ sh.log⟩ := by
  have hturn := turn_of_allow p s i sh.row hallow
  have hstmt := fun (e : Event) (he : s.events p i sh.row = [e]) =>
    stmt_of_event he
  revert hturn hstmt
  generalize attemptNext (loc p) s (s.answer p i sh.row) = l'
  generalize s.effect sh.row = stored'
  generalize s.events p i sh.row = new
  intro hturn hstmt
  cases hturn with
  | takes hmay hfree howner hcounter =>
      refine h.takes hmay hfree (howner.trans (congrArg some (h.pid p))) ?_
      exact fun hexec => (hcond hexec).2.1 ((hstmt _ rfl).1 _ _ rfl)
  | enters hexecutes hclaimed hbound =>
      refine h.enters hexecutes hclaimed ?_
      exact (hcond ((h.executes p).symm.trans hexecutes)).2.2
        ((hstmt _ rfl).2.1 _ rfl)
  | leaves hinside hend =>
      exact h.leaves hinside hend
  | observes hsettled =>
      exact h.observes fun hexec => (hcond hexec).1 ((hstmt _ rfl).2.2 _ _ rfl)
  | writes hsettled howner hcounter =>
      exact h.writes hsettled howner

/-- A crash ends what the process was doing. -/
theorem ReplayInv.crash (h : ReplayInv calls loc sh) (p : Nat) :
    ReplayInv calls loc ⟨sh.row, .crashed p :: sh.log⟩ := by
  refine h.quiet [.crashed p] (by simp [Event.quiet]) h.pid
    (fun _ => rfl) (fun _ => rfl) (fun _ => Or.inl rfl) (Or.inr rfl)
    (fun q hq => ?_)
  refine h.inside q ?_
  by_cases hqp : p = q
  · subst hqp
    simp [inCallback, Event.ends] at hq
  · simpa [inCallback, Event.ends, hqp] using hq

end Invariant

section Runs

/-- Without a bound the answers say only whose token is given out. -/
theorem attemptAnswers_unbound
    {l : Local} {p : Nat} (s : Stmt V) (i : Input V) (stored : Option (Row V))
    (hpid : l.pid = p) :
    attemptAnswers none l s (s.answer p i stored) := by
  cases s with
  | uuid => exact hpid.symm
  | select => simp [attemptAnswers]
  | intent args => simp [attemptAnswers]
  | _ => trivial

variable [DecidableEq V]

/--
**No blind replay.**  In a run in which every `execute` call is undisturbed
from its observation to its invocation, every invocation of the provider after
the first is cleared, in every state reached.
-/
theorem no_blind_replay
    (calls : Nat → Call V) (ms : List (Move (Input V)))
    (h : AlongRun (step V) (Performs (Undisturbed calls)) (start calls) ms) :
    EveryState (step V) (fun c => NoBlindReplay c.shared.log)
      (start calls) ms := by
  have hcomposed : EveryState (step V)
      (Composed (attemptProtocol V none) (fun _ _ => True) (ReplayInv calls))
      (start calls) ms := by
    refine (system V).composition ?_ ?_ ?_ h
    · intro loc sh p s i hinv hallow hcond
      exact ⟨attemptAnswers_unbound s i sh.row (hinv.pid p),
        hinv.exec i hallow hcond⟩
    · intro loc sh p hinv
      exact hinv.crash p
    · refine ⟨fun p => (calls p).local_ p, ?_, fun p => (calls p).obeys p⟩
      constructor <;>
        simp [start, lastSeen, inCallback, ownerOf, Call.local_, NoBlindReplay]
  rw [everyState_iff] at hcomposed ⊢
  intro pre post heq
  obtain ⟨loc, hinv, -⟩ := hcomposed pre post heq
  exact hinv.safe

/-- Every process publishes and may retry. -/
def publishAndRetry (_p : Nat) : Call Nat :=
  .execute
    { ref := publishRef
      replaySafe := some true
      reconciles := true }

/--
Process 0 fails and is through; process 1 then observes that nothing was
published and tries again.
-/
def retryInOrder : List (Move (Input Nat)) :=
  plain 0 11 ++ [.run 0 { fn := .raised "timeout" }] ++ plain 0 8 ++
    List.replicate 14
      (.run 1 { observed := ⟨.definitelyAbsent, none, none, none⟩ }) ++
    plain 1 1

set_option maxRecDepth 4000 in
/-- A run of two invocations that meets the condition. -/
theorem no_blind_replay_in_order :
    AlongRun (step Nat) (Performs (Undisturbed publishAndRetry))
        (start publishAndRetry) retryInOrder ∧
      (runFrom (step Nat) (start publishAndRetry) retryInOrder).shared.log =
        [.invoked 1, .claimed 1 2, .reconciled 1 .definitelyAbsent,
          .raised 0, .invoked 0, .claimed 0 1] ∧
      NoBlindReplay
        (runFrom (step Nat) (start publishAndRetry) retryInOrder).shared.log :=
  have h : AlongRun (step Nat) (Performs (Undisturbed publishAndRetry))
      (start publishAndRetry) retryInOrder := by
    decide
  ⟨h, by decide, (no_blind_replay publishAndRetry retryInOrder h).last⟩

/--
Both processes find no row.  Process 0 creates it, claims, invokes the provider
and fails; process 1 is still on its first contact and observes nothing.
-/
def firstContactRace : List (Move (Input Nat)) :=
  plain 1 1 ++ plain 0 6 ++ plain 1 5 ++ plain 0 5 ++
    [.run 0 { fn := .raised "timeout" }] ++ plain 0 3 ++ plain 1 5

set_option maxRecDepth 4000 in
/-- The second invocation happens without any observation. -/
theorem blind_replay_on_first_contact :
    ¬ ∀ (calls : Nat → Call Nat) (ms : List (Move (Input Nat))),
      EveryState (step Nat) (fun c => NoBlindReplay c.shared.log)
        (start calls) ms := by
  intro h
  have hlog : (runFrom (step Nat) (start publishAndRetry)
      firstContactRace).shared.log =
        [.invoked 1, .claimed 1 2, .raised 0, .invoked 0, .claimed 0 1] := by
    decide
  have hlast := (h publishAndRetry firstContactRace).last
  rw [hlog] at hlast
  obtain ⟨newer, older, hsplit, -⟩ := hlast [] 1 _ rfl ⟨0, by simp⟩
  have hmem : Event.reconciled 1 .definitelyAbsent ∈
      [Event.claimed 1 2, .raised 0, .invoked 0, .claimed 0 1] := by
    rw [hsplit]
    simp
  simp at hmem

end Runs

end Journal
end SwFactory
