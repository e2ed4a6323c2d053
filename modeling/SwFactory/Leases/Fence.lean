import SwFactory.Leases.Methods

/-!
# Credential leases follow the fence

`Grows` is what any statement may do to the tables: a lease keeps the bearer
and the binding it was minted with, and the process it is bound to.  A thread
that comes to return a credential is followed back to the statement that read
the epoch and to the transaction that returned the credential.
-/

namespace SwFactory
namespace Leases

open Text Machine

section Tables

variable {H : Type}
variable {digests : Digests H}

/-- What a transaction may make of a lease. -/
structure Lease.Becomes (l l' : Lease H) : Prop where
  secret : l'.secretHash = l.secretHash
  binding : l'.binding = l.binding
  digest : l'.bindingDigest = l.bindingDigest
  process : ∀ h, l.processHash = some h → l'.processHash = some h

theorem Lease.Becomes.refl (l : Lease H) : l.Becomes l :=
  ⟨rfl, rfl, rfl, fun _ h => h⟩

theorem Lease.Becomes.trans {l l' l'' : Lease H} (h : l.Becomes l')
    (h' : l'.Becomes l'') : l.Becomes l'' where
  secret := h'.secret.trans h.secret
  binding := h'.binding.trans h.binding
  digest := h'.digest.trans h.digest
  process := fun x hx => h'.process x (h.process x hx)

/-- The lease is the one that was minted with a handle. -/
structure Minted (digests : Digests H) (b : Broker H) (leaseId : String)
    (l : Lease H) : Prop where
  digest : l.bindingDigest = digests.binding l.binding
  handle : ∃ handle, (handle, l.binding) ∈ b.minted ∧
    handle.leaseId = leaseId ∧ l.secretHash = digests.secret handle.bearer

/-- Every lease was minted. -/
def Backed (digests : Digests H) (b : Broker H) : Prop :=
  ∀ leaseId l, b.find leaseId = some l → Minted digests b leaseId l

/-- What a statement may do to the tables. -/
structure Grows (digests : Digests H) (b b' : Broker H) : Prop where
  kept : ∀ leaseId l, b.find leaseId = some l →
    ∃ l', b'.find leaseId = some l' ∧ l.Becomes l'
  origin : ∀ leaseId l', b'.find leaseId = some l' →
    (∃ l, b.find leaseId = some l ∧ l.Becomes l') ∨
      Minted digests b' leaseId l'
  minted : b.minted ⊆ b'.minted

variable {b b' : Broker H}

theorem Minted.becomes {leaseId : String} {l l' : Lease H}
    (h : Minted digests b leaseId l) (hbecomes : l.Becomes l')
    (hminted : b.minted ⊆ b'.minted) : Minted digests b' leaseId l' := by
  obtain ⟨handle, hmem, hid, hsecret⟩ := h.handle
  refine ⟨?_, handle, ?_, hid, hbecomes.secret.trans hsecret⟩
  · rw [hbecomes.digest, hbecomes.binding]
    exact h.digest
  · rw [hbecomes.binding]
    exact hminted hmem

theorem Grows.backed (h : Grows digests b b') (hb : Backed digests b) :
    Backed digests b' := by
  intro leaseId l' hl'
  rcases h.origin leaseId l' hl' with ⟨l, hl, hbecomes⟩ | hminted
  · exact (hb leaseId l hl).becomes hbecomes h.minted
  · exact hminted

theorem Grows.trans {b'' : Broker H} (h : Grows digests b b')
    (h' : Grows digests b' b'') : Grows digests b b'' where
  kept := by
    intro leaseId l hl
    obtain ⟨l', hl', hfirst⟩ := h.kept leaseId l hl
    obtain ⟨l'', hl'', hsecond⟩ := h'.kept leaseId l' hl'
    exact ⟨l'', hl'', hfirst.trans hsecond⟩
  origin := by
    intro leaseId l'' hl''
    rcases h'.origin leaseId l'' hl'' with ⟨l', hl', hsecond⟩ | hminted
    · rcases h.origin leaseId l' hl' with ⟨l, hl, hfirst⟩ | hminted
      · exact .inl ⟨l, hl, hfirst.trans hsecond⟩
      · exact .inr (hminted.becomes hsecond h'.minted)
    · exact .inr hminted
  minted := fun _ hx => h'.minted (h.minted hx)

/-- The leases change one by one, and keep what they were minted with. -/
theorem Grows.of_map {f : Lease H → Lease H}
    (hid : ∀ l, (f l).leaseId = l.leaseId) (hf : ∀ l : Lease H, l.Becomes (f l))
    (hleases : b'.leases = b.leases.map f) (hminted : b'.minted = b.minted) :
    Grows digests b b' := by
  have hfind : ∀ leaseId, b'.find leaseId = (b.find leaseId).map f := by
    intro leaseId
    rw [Broker.find, hleases, lookup_map hid]
    rfl
  refine ⟨?_, ?_, by rw [hminted]; exact List.Subset.refl _⟩
  · intro leaseId l hl
    exact ⟨f l, by rw [hfind, hl]; rfl, hf l⟩
  · intro leaseId l' hl'
    rw [hfind] at hl'
    obtain ⟨l, hl, rfl⟩ := Option.map_eq_some_iff.mp hl'
    exact .inl ⟨l, hl, hf l⟩

theorem Grows.of_same (hleases : b'.leases = b.leases)
    (hminted : b'.minted = b.minted) : Grows digests b b' :=
  Grows.of_map (f := id) (fun _ => rfl) Lease.Becomes.refl
    (by rw [hleases, List.map_id]) hminted

theorem Grows.refl (b : Broker H) : Grows digests b b :=
  Grows.of_same rfl rfl

theorem grows_revoke (which : Lease H → Bool) (reason : String) (clock : Time)
    (b : Broker H) : Grows digests b (b.revoke which reason clock).2 := by
  refine Grows.of_map (f := fun l =>
    if which l && l.revokedAt.isNone then
      { l with revokedAt := some clock, revokeReason := some reason }
    else l) ?_ ?_ rfl rfl
  · intro l
    split <;> rfl
  · intro l
    split
    · exact ⟨rfl, rfl, rfl, fun _ h => h⟩
    · exact Lease.Becomes.refl l

theorem grows_bindProcess (leaseId : String) (processHash : H) (b : Broker H) :
    Grows digests b (b.bindProcess leaseId processHash) := by
  refine Grows.of_map (f := fun l =>
    if l.leaseId = leaseId then
      { l with processHash := l.processHash.or (some processHash) }
    else l) ?_ ?_ rfl rfl
  · intro l
    split <;> rfl
  · intro l
    split
    · refine ⟨rfl, rfl, rfl, fun h hh => ?_⟩
      dsimp only
      rw [hh]
      rfl
    · exact Lease.Becomes.refl l

theorem grows_deny (r : Redeem) (clock : Time) (reason : DenialReason)
    (row : Option (Lease H)) (b : Broker H) :
    Grows digests b (b.deny digests r clock reason row).2 :=
  Grows.of_same rfl rfl

theorem grows_insert (m : Mint) (clock : Time) (handle : LeaseHandle)
    (b : Broker H) :
    Grows digests b (b.insert (newLease digests m clock handle) handle).2 := by
  unfold Broker.insert
  split
  · exact Grows.refl b
  · next hnone =>
      have hfind : ∀ leaseId, lookup Lease.leaseId leaseId
          (b.leases ++ [newLease digests m clock handle]) =
          (b.find leaseId).or
            (if handle.leaseId = leaseId then
              some (newLease digests m clock handle) else none) := by
        intro leaseId
        simp only [Broker.find, lookup, List.find?_append, List.find?_cons,
          List.find?_nil, newLease]
        split <;> simp_all
      refine ⟨?_, ?_, List.subset_append_left _ _⟩
      · intro leaseId l hl
        refine ⟨l, ?_, Lease.Becomes.refl l⟩
        rw [Broker.find, hfind, hl]
        rfl
      · intro leaseId l' hl'
        rw [Broker.find, hfind] at hl'
        cases hold : b.find leaseId with
        | some l =>
            rw [hold] at hl'
            cases hl'
            exact .inl ⟨_, rfl, Lease.Becomes.refl _⟩
        | none =>
            rw [hold, Option.none_or] at hl'
            split at hl'
            · next hid =>
                cases hl'
                exact .inr ⟨rfl, handle, by simp [newLease], hid, rfl⟩
            · cases hl'

end Tables

section Redeeming

variable {H : Type} [DecidableEq H]
variable {digests : Digests H} {providers : List String}
variable {r : Redeem} {clock : Time} {currentEpoch : Int} {provided : Provided}
variable {b b' bound : Broker H} {row : Lease H}

/-- A row that passes every check. -/
theorem refusal_none (h : Broker.refusal digests r clock currentEpoch row = none) :
    row.secretHash = digests.secret r.handle.bearer ∧
    row.revokedAt = none ∧
    clock < row.expiresAt ∧
    row.bindingDigest = digests.binding r.binding ∧
    currentEpoch = r.binding.epoch := by
  unfold Broker.refusal at h
  split at h
  · cases h
  split at h
  · cases h
  split at h
  · cases h
  split at h
  · cases h
  split at h
  · cases h
  exact ⟨by_contra ‹_›, by_contra ‹_›, not_le.mp ‹_›, by_contra ‹_›, by_contra ‹_›⟩

/-- The tables are the old ones, or the draft with or without a denial. -/
theorem materialize_grows (hbound : Grows digests b bound) :
    Grows digests b
      (Broker.materialize digests providers r clock provided bound b).2 := by
  unfold Broker.materialize
  split
  · exact hbound.trans (grows_deny ..)
  · split
    · exact hbound.trans (grows_deny ..)
    · split
      · exact hbound.trans (grows_deny ..)
      · split
        · exact Grows.refl b
        · split
          · exact Grows.refl b
          · exact hbound

theorem redeem_grows (b : Broker H) :
    Grows digests b
      (b.redeem digests providers r clock currentEpoch provided).2 := by
  unfold Broker.redeem
  split
  · exact grows_deny ..
  · split
    · exact grows_deny ..
    · refine materialize_grows ?_
      split
      · exact grows_bindProcess ..
      · exact Grows.refl b

/-- A credential is returned with the lease bound to the process. -/
theorem materialize_ok {credential : String}
    (h : Broker.materialize digests providers r clock provided bound b =
      (.ok credential, b')) :
    b' = bound ∧ ∃ row, bound.find r.handle.leaseId = some row ∧
      row.processHash = some (digests.secret r.processNonce) := by
  unfold Broker.materialize at h
  split at h
  · cases h
  split at h
  · cases h
  rename_i row hrow hprocess
  split at h
  · cases h
  split at h
  · cases h
  split at h
  · cases h
  cases h
  exact ⟨rfl, row, hrow, by_contra hprocess⟩

/-- What a transaction found that returns a credential, and what it leaves. -/
theorem redeem_ok {credential : String}
    (h : b.redeem digests providers r clock currentEpoch provided =
      (.ok credential, b')) :
    (∃ row, b.find r.handle.leaseId = some row ∧
      Broker.refusal digests r clock currentEpoch row = none) ∧
    ∃ row, b'.find r.handle.leaseId = some row ∧
      row.processHash = some (digests.secret r.processNonce) := by
  unfold Broker.redeem at h
  split at h
  · cases h
  rename_i row hrow
  split at h
  · cases h
  rename_i hpasses
  obtain ⟨rfl, hbound⟩ := materialize_ok h
  exact ⟨⟨row, hrow, hpasses⟩, hbound⟩

/-- A call of the provider that returned no credential. -/
def LeaseError.isProviderFailure : LeaseError → Bool
  | .providerFailed | .noCredential => true
  | _ => false

theorem materialize_failed {e : LeaseError} (he : e.isProviderFailure = true)
    (h : (Broker.materialize digests providers r clock provided bound b).1 =
      .error e) :
    (Broker.materialize digests providers r clock provided bound b).2 = b := by
  revert h
  unfold Broker.materialize
  split
  · rintro ⟨⟩
    cases he
  split
  · rintro ⟨⟩
    cases he
  split
  · rintro ⟨⟩
    cases he
  split
  · intro _
    rfl
  split
  · intro _
    rfl
  · rintro ⟨⟩

/-- A provider that fails leaves the tables as they were. -/
theorem redeem_failed {e : LeaseError} (he : e.isProviderFailure = true)
    (h : (b.redeem digests providers r clock currentEpoch provided).1 = .error e) :
    (b.redeem digests providers r clock currentEpoch provided).2 = b := by
  revert h
  unfold Broker.redeem
  split
  · rintro ⟨⟩
    cases he
  split
  · rintro ⟨⟩
    cases he
  · exact materialize_failed he

end Redeeming

section Worlds

variable {H : Type} [DecidableEq H]
variable {digests : Digests H} {service : Service}
variable {stableId : Cells.CellIdentity → String}
variable {cellCalls : Nat → Cells.Call}
variable {w : World H}

theorem exec_grows (cells : Cells.Store) (p : Nat) (s : Stmt) (i : Input)
    (b : Broker H) :
    Grows digests b ((system service digests cells).exec p s i b).2 := by
  cases s with
  | time => exact Grows.refl b
  | tokens => exact Grows.refl b
  | epoch cellId =>
      simp only [system]
      split <;> exact Grows.refl b
  | insert m clock handle => exact grows_insert m clock handle b
  | redeem r clock currentEpoch => exact redeem_grows b
  | revoke which reason clock => exact grows_revoke which.selects reason clock b

/-- Every move lets the tables grow. -/
theorem World.step_grows (m : WorldMove) :
    Grows digests w.broker.shared
      (w.step digests service stableId m).broker.shared := by
  cases m with
  | cell m =>
      simp only [World.step]
      cases callback w.cells m with
      | none => exact Grows.refl _
      | some c => exact grows_revoke ..
  | broker m =>
      simp only [World.step]
      rcases (system service digests w.cells.shared.committed).step_cases w.broker m
        with ⟨-, heq⟩ | ⟨p, i, s, k, rfl, hp, heq⟩ | ⟨p, s, k, rfl, hp, heq⟩
      · rw [heq]
        exact Grows.refl _
      · rw [heq]
        exact exec_grows _ p s i _
      · rw [heq]
        exact Grows.refl _

/-- The invariant of the two stores. -/
structure World.Sound (digests : Digests H)
    (stableId : Cells.CellIdentity → String) (cellCalls : Nat → Cells.Call)
    (w : World H) : Prop where
  cells : Cells.Orderly stableId cellCalls w.cells
  backed : Backed digests w.broker.shared

omit [DecidableEq H] in
theorem World.start_sound (calls : Nat → Call) :
    (World.start service stableId cellCalls calls : World H).Sound digests
      stableId cellCalls where
  cells := Cells.start_orderly
  backed := by
    intro leaseId l hl
    cases hl

theorem World.Sound.step (h : w.Sound digests stableId cellCalls)
    (m : WorldMove) :
    (w.step digests service stableId m).Sound digests stableId cellCalls where
  cells := by
    cases m with
    | cell m => exact h.cells.step m
    | broker m => exact h.cells
  backed := (World.step_grows m).backed h.backed

/-- What a run keeps: the leases grow, and no Cell is taken back. -/
theorem World.Sound.run (h : w.Sound digests stableId cellCalls)
    (ms : List WorldMove) :
    (w.run digests service stableId ms).Sound digests stableId cellCalls ∧
      Grows digests w.broker.shared
        (w.run digests service stableId ms).broker.shared ∧
      ∀ cellId epoch, w.cells.shared.committed.Reached cellId epoch →
        (w.run digests service stableId ms).cells.shared.committed.Reached cellId
          epoch := by
  induction ms generalizing w with
  | nil =>
      exact ⟨h, Grows.refl _, fun _ _ hreached => hreached⟩
  | cons m ms ih =>
      obtain ⟨hsound, hgrows, hreached⟩ := ih (h.step m)
      refine ⟨hsound, (World.step_grows m).trans hgrows, ?_⟩
      intro cellId epoch hbefore
      refine hreached cellId epoch ?_
      cases m with
      | cell m => exact h.cells.reached m hbefore
      | broker m => exact hbefore

/-- The move is one of thread `p`. -/
def WorldMove.isOf (p : Nat) : WorldMove → Prop
  | .cell _ => False
  | .broker m => m.pid = p

/-- A thread acts in its own moves only, and not when it has ended. -/
theorem World.step_procs {p : Nat} {m : WorldMove}
    (h : ¬ m.isOf p ∨ ∀ s k, w.broker.procs p ≠ .running (.step s k)) :
    (w.step digests service stableId m).broker.procs p = w.broker.procs p := by
  cases m with
  | cell m => rfl
  | broker m =>
      simp only [World.step]
      rcases (system service digests w.cells.shared.committed).step_cases w.broker m
        with ⟨-, heq⟩ | ⟨q, i, s, k, rfl, hq, heq⟩ | ⟨q, s, k, rfl, hq, heq⟩
      · rw [heq]
      · rw [heq]
        refine Function.update_of_ne ?_ _ _
        rintro rfl
        rcases h with h | h
        · exact h rfl
        · exact h s k hq
      · rw [heq]
        refine Function.update_of_ne ?_ _ _
        rintro rfl
        rcases h with h | h
        · exact h rfl
        · exact h s k hq

theorem World.run_procs_of_ended {p : Nat} (ms : List WorldMove)
    (h : ∀ s k, w.broker.procs p ≠ .running (.step s k)) :
    (w.run digests service stableId ms).broker.procs p = w.broker.procs p := by
  induction ms generalizing w with
  | nil =>
      rfl
  | cons m ms ih =>
      have hstep : (w.step digests service stableId m).broker.procs p =
          w.broker.procs p := World.step_procs (.inr h)
      exact (ih (by rw [hstep]; exact h)).trans hstep

theorem World.run_append (pre post : List WorldMove) :
    w.run digests service stableId (pre ++ post) =
      (w.run digests service stableId pre).run digests service stableId post :=
  runFrom_append _ _ _ _

/-- A thread that comes to return has performed its next statement. -/
theorem World.turn {p : Nat} {s : Stmt}
    {k : Ans s → Prog Stmt Ans LeaseError Returned}
    {a : Returned} {ms : List WorldMove}
    (hp : w.broker.procs p = .running (.step s k))
    (hend : (w.run digests service stableId ms).broker.procs p =
      .running (.ret a)) :
    ∃ pre i post, ms = pre ++ .broker (.run p i) :: post ∧
      (w.run digests service stableId pre).broker.procs p =
        .running (.step s k) := by
  induction ms generalizing w with
  | nil =>
      cases hp.symm.trans hend
  | cons m ms ih =>
      by_cases hm : m.isOf p
      · cases m with
        | cell m => exact hm.elim
        | broker m =>
            cases m with
            | run q i =>
                obtain rfl : q = p := hm
                exact ⟨[], i, ms, rfl, hp⟩
            | crash q =>
                obtain rfl : q = p := hm
                have hcrashed : (w.step digests service stableId
                    (.broker (.crash q))).broker.procs q = .crashed := by
                  simp [World.step, System.step, hp]
                have hlast : (w.run digests service stableId
                    (.broker (.crash q) :: ms)).broker.procs q = .crashed :=
                  (World.run_procs_of_ended ms (by rw [hcrashed]; simp)).trans
                    hcrashed
                cases hlast.symm.trans hend
      · have hsame : (w.step digests service stableId m).broker.procs p =
            w.broker.procs p := World.step_procs (.inl hm)
        obtain ⟨pre, i, post, rfl, hout⟩ := ih (hsame.trans hp) hend
        exact ⟨m :: pre, i, post, rfl, hout⟩

theorem World.run_concat (ms : List WorldMove) (m : WorldMove) :
    w.run digests service stableId (ms ++ [m]) =
      (w.run digests service stableId ms).step digests service stableId m := by
  rw [World.run_append]
  rfl

/-- A thread that has ended otherwise does not come to return. -/
theorem World.not_returned {p : Nat} (before : List WorldMove)
    {ms : List WorldMove} {a : Returned}
    {proc : Proc Stmt Ans LeaseError Returned}
    (hp : (w.run digests service stableId before).broker.procs p = proc)
    (hstep : ∀ s k, proc ≠ .running (.step s k))
    (hret : ∀ a, proc ≠ .running (.ret a))
    (hend : (w.run digests service stableId (before ++ ms)).broker.procs p =
      .running (.ret a)) : False := by
  rw [World.run_append, World.run_procs_of_ended ms (by rw [hp]; exact hstep),
    hp] at hend
  exact hret a hend

variable (digests service) in
/-- What a statement of the broker answers, and the tables behind it. -/
def World.performs (w : World H) (s : Stmt) (i : Input) : Ans s × Broker H :=
  (system service digests w.cells.shared.committed).exec 0 s i w.broker.shared

/-- The turn of a thread in a run, with what it does. -/
theorem World.turn_run {p : Nat} {s : Stmt}
    {k : Ans s → Prog Stmt Ans LeaseError Returned}
    {a : Returned} {before ms : List WorldMove}
    (hp : (w.run digests service stableId before).broker.procs p =
      .running (.step s k))
    (hend : (w.run digests service stableId (before ++ ms)).broker.procs p =
      .running (.ret a)) :
    ∃ pre i post, ms = pre ++ .broker (.run p i) :: post ∧
      (w.run digests service stableId
          (before ++ pre ++ [.broker (.run p i)])).broker.shared =
        ((w.run digests service stableId (before ++ pre)).performs digests service
          s i).2 ∧
      (w.run digests service stableId
          (before ++ pre ++ [.broker (.run p i)])).broker.procs p =
        .running (k ((w.run digests service stableId (before ++ pre)).performs
          digests service s i).1) := by
  rw [World.run_append] at hend
  obtain ⟨pre, i, post, rfl, hnow⟩ := World.turn hp hend
  rw [← World.run_append] at hnow
  refine ⟨pre, i, post, rfl, ?_⟩
  rw [World.run_concat]
  simp only [World.step, System.step, hnow, Function.update_self]
  exact ⟨rfl, rfl⟩

end Worlds

section Handouts

variable {H : Type} [DecidableEq H]
variable {digests : Digests H} {service : Service}
variable {stableId : Cells.CellIdentity → String}
variable {cellCalls : Nat → Cells.Call}

/--
How thread `p` came by its credential in the run `ms`: the moves `read` lead to
the statement in which it read the epoch, the moves `txn` to its transaction.
-/
structure Handout (run : List WorldMove → World H) (p : Nat) (r : Redeem)
    (ms read txn : List WorldMove) (clock : Time) (lease : Lease H) : Prop where
  inTurn : ∃ i, read ++ [.broker (.run p i)] <+: txn
  within : ∃ i, txn ++ [.broker (.run p i)] <+: ms
  clockOf : r.now = some clock ∨
    r.now = none ∧ ∃ i, WorldMove.broker (.run p i) ∈ read ∧ i.now = clock
  epoch : ∃ c, (run read).cells.shared.committed.find r.binding.cellId = some c ∧
    c.epoch = r.binding.epoch
  found : (run txn).broker.shared.find r.handle.leaseId = some lease
  binding : lease.binding = r.binding
  minted : (r.handle, r.binding) ∈ (run txn).broker.shared.minted
  live : lease.revokedAt = none
  unexpired : clock < lease.expiresAt

/-- The lease is bound to the process when its credential is returned. -/
def Bound (digests : Digests H) (r : Redeem) (b : Broker H) : Prop :=
  ∃ row, b.find r.handle.leaseId = some row ∧
    row.processHash = some (digests.secret r.processNonce)

omit [DecidableEq H] in
theorem Grows.bound {r : Redeem} {b b' : Broker H} (h : Grows digests b b')
    (hbound : Bound digests r b) : Bound digests r b' := by
  obtain ⟨row, hrow, hprocess⟩ := hbound
  obtain ⟨row', hrow', hbecomes⟩ := h.kept _ _ hrow
  exact ⟨row', hrow', hbecomes.process _ hprocess⟩

section Threads

variable {w : World H} (hw : w.Sound digests stableId cellCalls)
variable (hd : digests.CollisionFree)
variable {p : Nat} {r : Redeem} {clock : Time} {a : Returned}

include hw hd

/-- A passed row is the lease that was minted with the handle and the binding. -/
theorem World.Sound.passed {row : Lease H} {currentEpoch : Int}
    (hrow : w.broker.shared.find r.handle.leaseId = some row)
    (hpasses : Broker.refusal digests r clock currentEpoch row = none) :
    row.binding = r.binding ∧ (r.handle, r.binding) ∈ w.broker.shared.minted := by
  obtain ⟨hsecret, -, -, hdigest, -⟩ := refusal_none hpasses
  obtain ⟨hminted, handle, hmem, hid, hhash⟩ := hw.backed _ _ hrow
  have hbinding : row.binding = r.binding :=
    hd.binding (hminted.symm.trans hdigest)
  have hbearer : handle.bearer = r.handle.bearer :=
    hd.secret (hhash.symm.trans hsecret)
  have hhandle : handle = r.handle := by
    cases handle
    cases hh : r.handle
    simp_all
  rw [hhandle, hbinding] at hmem
  exact ⟨hbinding, hmem⟩

/-- The thread from where it has its clock reading. -/
theorem World.Sound.redeemed {before ms : List WorldMove} {f : String → Returned}
    (hclock : r.now = some clock ∨ r.now = none ∧
      ∃ i, WorldMove.broker (.run p i) ∈ before ∧ i.now = clock)
    (hp : (w.run digests service stableId before).broker.procs p =
      .running ((do
        let currentEpoch ← readEpoch r.binding.cellId
        .step (.redeem r clock currentEpoch) fun answer => .ofExcept answer :
          Method String) >>= fun credential => pure (f credential)))
    (hend : (w.run digests service stableId (before ++ ms)).broker.procs p =
      .running (.ret a)) :
    (∃ read txn lease, before <+: read ∧
      Handout (w.run digests service stableId) p r (before ++ ms) read txn clock
        lease) ∧
    Bound digests r
      (w.run digests service stableId (before ++ ms)).broker.shared := by
  obtain ⟨pre, i, post, rfl, -, hread⟩ := World.turn_run hp hend
  have hsplit : before ++ (pre ++ .broker (.run p i) :: post) =
      before ++ pre ++ [.broker (.run p i)] ++ post := by
    simp
  rw [hsplit] at hend ⊢
  -- a Cell that is not there ends the thread with an error
  cases hcell : (w.run digests service stableId
      (before ++ pre)).cells.shared.committed.find r.binding.cellId with
  | none =>
      simp only [World.performs, system, hcell, Prog.ofExcept] at hread
      exact (World.not_returned _ hread (by rintro _ _ ⟨⟩) (by rintro _ ⟨⟩) hend).elim
  | some c =>
      simp only [World.performs, system, hcell, Prog.ofExcept] at hread
      obtain ⟨pre', i', post', rfl, hshared, hlast⟩ := World.turn_run hread hend
      have hsplit' : before ++ pre ++ [.broker (.run p i)] ++
          (pre' ++ .broker (.run p i') :: post') =
          before ++ pre ++ [.broker (.run p i)] ++ pre' ++
            [.broker (.run p i')] ++ post' := by
        simp
      rw [hsplit'] at hend ⊢
      generalize htxn : before ++ pre ++ [.broker (.run p i)] ++ pre' = txn at *
      have hsound : (w.run digests service stableId txn).Sound digests stableId
          cellCalls := (hw.run txn).1
      cases hout : ((w.run digests service stableId txn).broker.shared.redeem digests
          service.providers r clock c.epoch i'.provided) with
      | mk answer b' =>
          simp only [World.performs, system, hout] at hshared hlast
          cases answer with
          | error e =>
              exact (World.not_returned _ hlast (by rintro _ _ ⟨⟩) (by rintro _ ⟨⟩)
                hend).elim
          | ok credential =>
              obtain ⟨⟨row, hrow, hpasses⟩, hbound⟩ := redeem_ok hout
              obtain ⟨-, hlive, hfresh, -, hepoch⟩ := refusal_none hpasses
              obtain ⟨hbinding, hminted⟩ := hsound.passed hd hrow hpasses
              rw [← hshared] at hbound
              constructor
              · refine ⟨before ++ pre, txn, row, List.prefix_append _ _, ?_⟩
                exact
                  { inTurn := ⟨i, pre', htxn⟩
                    within := ⟨i', List.prefix_append _ _⟩
                    clockOf := by
                      rcases hclock with hnow | ⟨hnone, j, hj, hclock⟩
                      · exact .inl hnow
                      · exact .inr ⟨hnone, j, List.mem_append_left _ hj, hclock⟩
                    epoch := ⟨c, hcell, hepoch⟩
                    found := hrow
                    binding := hbinding
                    minted := hminted
                    live := hlive
                    unexpired := hfresh }
              · rw [World.run_append]
                exact (((hw.run _).1).run post').2.1.bound hbound

/-- A thread that has returned a credential has redeemed its lease. -/
theorem World.Sound.returned {ms : List WorldMove} {f : String → Returned}
    (hp : w.broker.procs p = .running (do
      let credential ← redeem r
      return f credential))
    (hend : (w.run digests service stableId ms).broker.procs p =
      .running (.ret a)) :
    (∃ read txn clock lease,
      Handout (w.run digests service stableId) p r ms read txn clock lease) ∧
    Bound digests r (w.run digests service stableId ms).broker.shared := by
  have hend' : (w.run digests service stableId ([] ++ ms)).broker.procs p =
      .running (.ret a) := hend
  cases hvalid : r.binding.validate with
  | error e =>
      simp only [redeem, validate, hvalid] at hp
      exact (World.not_returned [] hp (by rintro _ _ ⟨⟩)
        (by rintro _ ⟨⟩) hend').elim
  | ok u =>
      by_cases hnonce : r.processNonce.length < 16
      · simp only [redeem, validate, hvalid, hnonce, if_true] at hp
        exact (World.not_returned [] hp (by rintro _ _ ⟨⟩)
          (by rintro _ ⟨⟩) hend').elim
      · simp only [redeem, validate, hvalid, hnonce, if_false] at hp
        cases hnow : r.now with
        | some now =>
            simp only [redeemChecked, clockOr, hnow] at hp
            have hstart : (w.run digests service stableId []).broker.procs p = _ := hp
            obtain ⟨⟨read, txn, lease, -, hout⟩, hbound⟩ :=
              hw.redeemed hd (.inl hnow) hstart hend'
            exact ⟨⟨read, txn, now, lease, hout⟩, hbound⟩
        | none =>
            simp only [redeemChecked, clockOr, hnow] at hp
            have hstart : (w.run digests service stableId []).broker.procs p = _ := hp
            obtain ⟨pre, i, post, rfl, -, hread⟩ := World.turn_run hstart hend'
            have hsplit : [] ++ (pre ++ .broker (.run p i) :: post) =
                [] ++ pre ++ [.broker (.run p i)] ++ post := by
              simp
            rw [hsplit] at hend'
            obtain ⟨⟨read, txn, lease, -, hout⟩, hbound⟩ :=
              hw.redeemed hd (.inr ⟨hnow, i, by simp, rfl⟩) hread hend'
            rw [← hsplit] at hout hbound
            exact ⟨⟨read, txn, i.now, lease, hout⟩, hbound⟩

end Threads

omit [DecidableEq H] in
/-- What stands in front of a thread's first move stands before its reading. -/
theorem Handout.started {run : List WorldMove → World H} {p : Nat} {r : Redeem}
    {ms read txn pre : List WorldMove} {clock : Time} {lease : Lease H}
    (h : Handout run p r ms read txn clock lease)
    (hpre : pre <+: ms) (hidle : ∀ m ∈ pre, ¬ m.isOf p) : pre <+: read := by
  obtain ⟨i, hread⟩ := h.inTurn
  obtain ⟨j, htxn⟩ := h.within
  have hms : read ++ [.broker (.run p i)] <+: ms :=
    hread.trans ((List.prefix_append txn _).trans htxn)
  rcases List.prefix_or_prefix_of_prefix hpre hms with hle | hle
  · rcases List.prefix_concat_iff.mp hle with rfl | hle
    · exact (hidle (.broker (.run p i)) (by simp) rfl).elim
    · exact hle
  · exact (hidle (.broker (.run p i)) (hle.subset (by simp)) rfl).elim

end Handouts

section Fence

variable {H : Type} [DecidableEq H]

/-- Texts and bindings that are their own digests. -/
def plainDigests : Digests (String ⊕ LeaseBinding) where
  secret := .inl
  binding := .inr

theorem plainDigests_collisionFree : plainDigests.CollisionFree :=
  ⟨Sum.inl_injective, Sum.inr_injective⟩

def publishing : LeaseBinding where
  factoryRunId := "factory-run"
  dagRunId := "dag-run"
  taskInstanceId := "build[0]"
  stageId := "build"
  sandboxId := "box-a"
  attemptNumber := 1
  cellId := "cell_0123456789abcdef01234567"
  epoch := 1
  operationKey := "github_publish:abc"
  policyDigest := "policy:v1:a"

def publisher : Service where
  providers := ["github.publish"]
  casefold := id

/-- Thread 0 mints a lease, the other ones redeem it. -/
def publication : Nat → Call
  | 0 => .mint { binding := publishing, capability := "github.publish" }
  | _ => .redeem
      { handle := { leaseId := "lease_7", bearer := "swfl_9" }
        binding := publishing
        processNonce := "process-nonce-0001" }

/-- The Cell is activated, the lease minted and redeemed. -/
def publicationMoves : List WorldMove :=
  List.replicate 8 (.cell (.run 0 { now := 5 })) ++
    List.replicate 4 (.broker (.run 0 { now := 10, tokens := ("7", "9") })) ++
    List.replicate 3 (.broker (.run 1 { now := 20, provided := .value "ghp" }))

end Fence

end Leases
end SwFactory
