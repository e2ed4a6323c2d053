import SwFactory.Spending.Session

/-!
# What a thread may still spend

A thread that owns the run alone knows the ledger as it is, and its share is
what the ceiling leaves.  A sibling of a fork wave knows that a floor has been
adopted, and has the budget of one stage.  Every program keeps to the protocol:
it reserves no more than its share, and further rows of a call repeat its
reservation or tell its final bill.
-/

namespace SwFactory
namespace Spending

open Machine

/-- What a thread knows, and what it may still reserve. -/
structure Share where
  solo : Bool
  external : Bool
  /-- the ledger, for a thread that owns the run alone -/
  ledger : Ledger
  share : Nat
  /-- the call it has in flight -/
  call : Option CallRow
  /-- a final bill it was told -/
  known : Option (String × Nat)

/-- What the ceiling leaves. -/
def room (limits : Limits) (ledger : Ledger) : Nat :=
  match floorUsd ledger with
  | none => 0
  | some floor => limits.maxBudget - (floor + chargedUsd ledger)

/-- A call that the thread knows to be unsettled. -/
def Share.Unsettled (l : Share) (record : CallRow) : Prop :=
  record.costUsd = none ∧
    if l.solo then record ∈ records l.ledger else l.call = some record

/-- A further row of an unsettled call. -/
def Share.Continues (l : Share) (row : CallRow) : Prop :=
  ∃ record, l.Unsettled record ∧ row = { record with costUsd := row.costUsd } ∧
    ∀ cost, row.costUsd = some cost → l.known = some (row.callId, cost)

/-- The thread owns the run alone, and no call precedes the floor. -/
structure Share.Alone (l : Share) : Prop where
  solo : l.solo = true
  calls : floorUsd l.ledger = none → records l.ledger = []

section Protocol

variable (limits : Limits) (preLedger : Nat)

def protocol : Protocol Stmt Ans Share where
  allow l stmt :=
    match stmt with
    | .append (.floor usd) =>
        l.Alone ∧ floorUsd l.ledger = none ∧ usd = if l.external then 0 else preLedger
    | .append (.call row) => l.Continues row
    | .reserve _ _ usd =>
        usd ≤ l.share ∧ (l.solo = true → (floorUsd l.ledger).isSome)
    | _ => True
  answers l stmt a :=
    match stmt, a with
    | .ledger, rows =>
        if l.solo then rows = l.ledger else (floorUsd rows).isSome
    | .stageLog, cost => l.solo = true → floorUsd l.ledger = none → cost = preLedger
    | _, _ => True
  next l stmt a :=
    match stmt, a with
    | .ledger, _ => if l.solo then { l with share := room limits l.ledger } else l
    | .append row, _ =>
        { l with
          ledger := l.ledger ++ [row]
          share := if l.solo then 0 else l.share
          call := none }
    | .reserve stage iteration usd, callId =>
        { l with
          ledger := l.ledger ++ [.call ⟨callId, stage, iteration, usd, none⟩]
          share := 0
          call := some ⟨callId, stage, iteration, usd, none⟩ }
    | .noStart callId, .ok true => { l with known := some (callId, 0) }
    | .run callId, .ok (some cost) => { l with known := some (callId, cost) }
    | .observe callId, .ok outcome =>
        { l with known := outcome.usage.map (fun usage => (callId, usage)) }
    | _, _ => l

end Protocol

section Programs

variable {limits : Limits} {preLedger : Nat}
variable {α β : Type}

/-- The program keeps to the protocol, and knows `Q` where it ends. -/
abbrev Keeps (limits : Limits) (preLedger : Nat) (Q : Share → Except Refusal α → Prop)
    (p : Method α) (l : Share) : Prop :=
  Obeys (protocol limits preLedger) Q p l

theorem keeps_ofExcept_bind {R : Share → Except Refusal β → Prop} {x : Except Refusal α}
    {f : α → Method β} {l : Share}
    (hok : ∀ a, x = .ok a → Keeps limits preLedger R (f a) l)
    (herr : ∀ e, R l (.error e)) :
    Keeps limits preLedger R (Prog.ofExcept x >>= f) l := by
  cases x with
  | error e => exact herr e
  | ok a => exact hok a rfl

/-- The checks of a call are nobody's money. -/
theorem checks_keeps {R : Share → Except Refusal β → Prop} {f : Unit → Method β} {l : Share}
    (hok : Keeps limits preLedger R (f ()) l)
    (herr : ∀ e, R l (.error e)) :
    Keeps limits preLedger R (attempt (ask .checks) >>= f) l :=
  ⟨trivial, fun _ _ => keeps_ofExcept_bind (fun _ _ => hok) herr⟩

/-- A proof that the call never started is its final bill. -/
theorem noStart_keeps {R : Share → Except Refusal β → Prop} {f : Bool → Method β}
    {callId : String} {l : Share}
    (hstarted : Keeps limits preLedger R (f false) l)
    (habsent : Keeps limits preLedger R (f true) { l with known := some (callId, 0) })
    (herr : ∀ e, R l (.error e)) :
    Keeps limits preLedger R (attempt (ask (.noStart callId)) >>= f) l := by
  refine ⟨trivial, fun answer _ => ?_⟩
  match answer with
  | .error e => exact herr e
  | .ok false => exact hstarted
  | .ok true => exact habsent

/-- Reading the ledger tells a thread that is alone what the ceiling leaves. -/
theorem ledger_solo {R : Share → Except Refusal β → Prop} {f : Ledger → Method β}
    {l : Share}
    (hsolo : l.solo = true)
    (h : Keeps limits preLedger R (f l.ledger) { l with share := room limits l.ledger }) :
    Keeps limits preLedger R (ask .ledger >>= f) l := by
  refine ⟨trivial, fun rows hrows => ?_⟩
  have hrows' : if l.solo then rows = l.ledger else (floorUsd rows).isSome := hrows
  have hnext : (protocol limits preLedger).next l .ledger rows =
      if l.solo then { l with share := room limits l.ledger } else l := rfl
  rw [if_pos hsolo] at hrows'
  rw [hnext, if_pos hsolo]
  subst hrows'
  exact h

/-- A sibling reads a ledger that has a floor. -/
theorem ledger_sibling {R : Share → Except Refusal β → Prop} {f : Ledger → Method β}
    {l : Share}
    (hsibling : l.solo ≠ true)
    (h : ∀ rows floor, floorUsd rows = some floor → Keeps limits preLedger R (f rows) l) :
    Keeps limits preLedger R (ask .ledger >>= f) l := by
  refine ⟨trivial, fun rows hrows => ?_⟩
  have hrows' : if l.solo then rows = l.ledger else (floorUsd rows).isSome := hrows
  have hnext : (protocol limits preLedger).next l .ledger rows =
      if l.solo then { l with share := room limits l.ledger } else l := rfl
  rw [if_neg hsibling] at hrows'
  rw [hnext, if_neg hsibling]
  obtain ⟨floor, hfloor⟩ := Option.isSome_iff_exists.mp hrows'
  exact h rows floor hfloor

/-- A thread that knows its share, with what its context counts as spent. -/
structure Ready (limits : Limits) (l : Share) (spent : Nat) : Prop where
  alone : l.solo = true → l.Alone
  share : min limits.perStage (limits.maxBudget - spent) ≤ l.share
  floor : l.solo = true →
    ∃ floor, floorUsd l.ledger = some floor ∧ floor + chargedUsd l.ledger ≤ spent
  external : l.solo = false → l.external = false

/-- A thread at its start. -/
structure Starts (limits : Limits) (l : Share) : Prop where
  alone : l.solo = true → l.Alone
  share : l.solo = false → l.share = limits.perStage
  external : l.solo = false → l.external = false

/-! ## The budget -/

/-- The cost that a thread alone adopts: nothing is in the ledger yet. -/
theorem persistedCost_keeps (ctx : Ctx) {l : Share} (hl : l.Alone)
    (hfloor : floorUsd l.ledger = none) :
    Keeps limits preLedger
      (fun l' r => l'.Alone ∧ l'.ledger = l.ledger ∧ l'.external = l.external ∧
        r = .ok (if ctx.external then 0 else preLedger))
      (persistedCost ctx) l := by
  unfold persistedCost
  split
  · refine ledger_solo hl.solo (ledger_solo hl.solo ⟨⟨hl.solo, hl.calls⟩, rfl, rfl, ?_⟩)
    simp [hl.calls hfloor, hfloor]
  · exact ⟨trivial, fun cost hcost => ⟨hl, rfl, rfl, congrArg _ (hcost hl.solo hfloor)⟩⟩

/-- The floor is adopted behind one more look at the ledger. -/
theorem adoptFloor_keeps {usd : Nat} {l : Share} (hl : l.Alone)
    (hfloor : floorUsd l.ledger = none)
    (husd : usd = if l.external then 0 else preLedger) :
    Keeps limits preLedger
      (fun l' r => l'.Alone ∧ l'.external = l.external ∧
        floorUsd l'.ledger = some usd ∧ r = .ok usd)
      (adoptFloor usd) l := by
  refine ledger_solo hl.solo ?_
  rw [hfloor]
  refine ⟨⟨⟨hl.solo, hl.calls⟩, hfloor, husd⟩, fun _ _ => ?_⟩
  have hadopted : floorUsd (l.ledger ++ [.floor usd]) = some usd := by
    rw [floorUsd_append_floor, hfloor, Option.getD_none]
  refine ⟨⟨hl.solo, fun hnone => ?_⟩, rfl, hadopted, rfl⟩
  cases hnone.symm.trans hadopted

/-- A thread alone reads the floor, or adopts one. -/
theorem adoptedFloor_keeps (ctx : Ctx) {l : Share} (hl : l.Alone)
    (hexternal : l.external = ctx.external) :
    Keeps limits preLedger
      (fun l' r => l'.Alone ∧ l'.external = l.external ∧
        ∃ floor, r = .ok floor ∧ floorUsd l'.ledger = some floor)
      (adoptedFloor ctx) l := by
  refine ledger_solo hl.solo ?_
  cases hfloor : floorUsd l.ledger with
  | some floor =>
      exact ⟨⟨hl.solo, hl.calls⟩, rfl, floor, rfl, hfloor⟩
  | none =>
      refine ledger_solo hl.solo ?_
      rw [if_pos (hl.calls hfloor)]
      refine Obeys.bind (persistedCost_keeps ctx ⟨hl.solo, hl.calls⟩ hfloor) ?_ ?_
      · rintro l' cost ⟨halone, hledger, hext, hcost⟩
        cases hcost
        have hnone : floorUsd l'.ledger = none := by
          rw [hledger]
          exact hfloor
        refine Obeys.mono (adoptFloor_keeps halone hnone ?_) ?_
        · rw [hext, ← hexternal]
        · rintro l'' r ⟨halone', hext', hfloor', hr⟩
          exact ⟨halone', hext'.trans hext, _, hr, hfloor'⟩
      · rintro l' e ⟨-, -, -, he⟩
        cases he

/-- A thread that is ready again behind `seed_budget`. -/
theorem seedBudget_keeps (ctx : Ctx) {l : Share} (hl : Starts limits l)
    (hexternal : l.solo = true → l.external = ctx.external) :
    Keeps limits preLedger
      (fun l' r => l'.solo = l.solo ∧ l'.external = l.external ∧
        ∃ ctx', r = .ok ctx' ∧ ctx'.external = ctx.external ∧ ctx'.docker = ctx.docker ∧
          ctx'.hardCap = ctx.hardCap ∧ Ready limits l' ctx'.spentUsd)
      (seedBudget ctx) l := by
  have hspent : ∀ (l' : Share) (persisted : Nat),
      l'.solo = l.solo → l'.external = l.external →
      (∀ spent, persisted ≤ spent → Ready limits l' spent) →
      Keeps limits preLedger
        (fun l' r => l'.solo = l.solo ∧ l'.external = l.external ∧
          ∃ ctx', r = .ok ctx' ∧ ctx'.external = ctx.external ∧ ctx'.docker = ctx.docker ∧
            ctx'.hardCap = ctx.hardCap ∧ Ready limits l' ctx'.spentUsd)
        (if !ctx.budgetSeeded then
          return { ctx with spentUsd := ctx.spentUsd + persisted, budgetSeeded := true }
        else if ctx.external then
          return { ctx with spentUsd := persisted }
        else
          return { ctx with spentUsd := max ctx.spentUsd persisted } : Method Ctx) l' := by
    intro l' persisted hsolo hext hready
    split
    · exact ⟨hsolo, hext, _, rfl, rfl, rfl, rfl, hready _ (Nat.le_add_left _ _)⟩
    split
    · exact ⟨hsolo, hext, _, rfl, rfl, rfl, rfl, hready _ (Nat.le_refl _)⟩
    · exact ⟨hsolo, hext, _, rfl, rfl, rfl, rfl, hready _ (Nat.le_max_right _ _)⟩
  by_cases hsolo : l.solo = true
  · refine Obeys.bind (Q := fun l' r => l'.Alone ∧ l'.external = l.external ∧
        ∃ floor persisted, r = .ok persisted ∧ floorUsd l'.ledger = some floor ∧
          floor + chargedUsd l'.ledger = persisted ∧
          l'.share = limits.maxBudget - persisted) ?_ ?_ ?_
    · refine Obeys.bind (adoptedFloor_keeps ctx (hl.alone hsolo) (hexternal hsolo)) ?_ ?_
      · rintro l' floor ⟨halone, hext, floor', hr, hfloor⟩
        cases hr
        refine ledger_solo halone.solo ?_
        refine ⟨⟨halone.solo, halone.calls⟩, hext, floor, _, rfl, hfloor, rfl, ?_⟩
        simp [room, hfloor]
      · rintro l' e ⟨-, -, floor, hr, -⟩
        cases hr
    · rintro l' persisted ⟨halone, hext, floor, persisted', hr, hfloor, hcharged, hshare⟩
      cases hr
      refine hspent l' persisted (halone.solo.trans hsolo.symm) hext fun spent hle => ?_
      refine ⟨fun _ => halone, ?_, fun _ => ⟨floor, hfloor, hcharged.trans_le hle⟩,
        fun h => ?_⟩
      · rw [hshare]
        omega
      · rw [halone.solo] at h
        cases h
    · rintro l' e ⟨-, -, floor, persisted, hr, -⟩
      cases hr
  · have hread : Keeps limits preLedger
        (fun l' r => l' = l ∧ ∃ persisted, r = .ok persisted) (persistedSpend ctx) l := by
      refine Obeys.bind (Q := fun l' r => l' = l ∧ ∃ floor, r = .ok floor) ?_ ?_ ?_
      · refine ledger_sibling hsolo fun rows floor hfloor => ?_
        rw [hfloor]
        exact ⟨rfl, floor, rfl⟩
      · rintro l' floor ⟨rfl, -⟩
        exact ledger_sibling hsolo fun rows _ _ => ⟨rfl, _, rfl⟩
      · rintro l' e ⟨-, floor, hr⟩
        cases hr
    refine Obeys.bind hread ?_ ?_
    · rintro l' persisted ⟨rfl, -⟩
      refine hspent l' persisted rfl rfl fun spent _ => ?_
      have hsibling : l'.solo = false := Bool.eq_false_iff.mpr hsolo
      refine ⟨fun h => absurd h hsolo, ?_, fun h => absurd h hsolo, hl.external⟩
      rw [hl.share hsibling]
      exact Nat.min_le_left _ _
    · rintro l' e ⟨-, persisted, hr⟩
      cases hr

/-! ## Reconciliation -/

/-- A thread alone adds what a truthful observation says of an unsettled call. -/
theorem reconcile_keeps {callId : String} {outcome : Outcome} {l : Share} (hl : l.Alone)
    (hknown : ∀ usage, outcome.usage = some usage → l.known = some (callId, usage)) :
    Keeps limits preLedger (fun l' _ => l'.Alone ∧ l'.external = l.external)
      (reconcile callId outcome) l := by
  refine ledger_solo hl.solo ?_
  cases hfind : findRecord l.ledger callId with
  | none =>
      exact ⟨⟨hl.solo, hl.calls⟩, rfl⟩
  | some record =>
      obtain ⟨hmem, hid⟩ := findRecord_eq_some hfind
      dsimp only
      split
      · exact ⟨⟨hl.solo, hl.calls⟩, rfl⟩
      rename_i hcost
      split
      · exact ⟨⟨hl.solo, hl.calls⟩, rfl⟩
      have hunsettled : record.costUsd = none := by simpa using hcost
      refine ⟨⟨record, ⟨hunsettled, ?_⟩, rfl, fun cost hcost => ?_⟩, fun _ _ => ?_⟩
      · rw [if_pos (by exact hl.solo)]
        exact hmem
      · rw [show (l.known = some _) = (l.known = some (callId, cost)) by rw [hid]]
        exact hknown cost hcost
      · refine ⟨⟨hl.solo, fun hnone => ?_⟩, rfl⟩
        have hbefore : floorUsd l.ledger = none :=
          (floorUsd_append_call l.ledger { record with costUsd := outcome.usage }).symm.trans
            hnone
        rw [hl.calls hbefore] at hmem
        cases hmem

theorem recoverEach_keeps (interrupted : List CallRow) {l : Share} (hl : l.Alone) :
    Keeps limits preLedger (fun l' _ => l'.Alone ∧ l'.external = l.external)
      (recoverEach interrupted) l := by
  induction interrupted generalizing l with
  | nil =>
      exact ⟨hl, rfl⟩
  | cons record rest ih =>
      refine noStart_keeps ?_ ?_ (fun _ => ⟨hl, rfl⟩)
      · exact ih hl
      · have hl' : ({ l with known := some (record.callId, 0) } : Share).Alone :=
          ⟨hl.solo, hl.calls⟩
        refine Obeys.bind (reconcile_keeps hl' ?_) ?_ ?_
        · rintro usage ⟨⟩
          rfl
        · rintro l' _ ⟨halone, hext⟩
          refine Obeys.mono (ih halone) ?_
          rintro l'' r ⟨halone', hext'⟩
          exact ⟨halone', hext'.trans hext⟩
        · rintro l' e ⟨halone, hext⟩
          exact ⟨halone, hext⟩

theorem recoverExternal_keeps (ctx : Ctx) {l : Share} (hl : Starts limits l)
    (hexternal : l.external = ctx.external) :
    Keeps limits preLedger
      (fun l' _ => Starts limits l' ∧ l'.solo = l.solo ∧ l'.external = l.external)
      (recoverExternal ctx) l := by
  unfold recoverExternal
  split
  · rename_i h
    have hext : ctx.external = true := (Bool.and_eq_true_iff.mp h).1
    have hsolo : l.solo = true := by
      by_contra hsibling
      have := hl.external (Bool.eq_false_iff.mpr hsibling)
      rw [hexternal, hext] at this
      cases this
    refine checks_keeps ?_ (fun _ => ⟨hl, rfl, rfl⟩)
    refine ledger_solo hsolo ?_
    have halone : ({ l with share := room limits l.ledger } : Share).Alone :=
      ⟨hsolo, (hl.alone hsolo).calls⟩
    refine Obeys.mono (recoverEach_keeps _ halone) ?_
    rintro l' r ⟨halone', hext'⟩
    refine ⟨⟨fun _ => halone', fun h => ?_, fun h => ?_⟩,
      halone'.solo.trans hsolo.symm, hext'⟩
    · rw [halone'.solo] at h
      cases h
    · rw [halone'.solo] at h
      cases h
  · exact ⟨hl, rfl, rfl⟩

/-! ## Calls -/

theorem Ready.read {l : Share} {spent : Nat} (h : Ready limits l spent)
    (hsolo : l.solo = true) :
    Ready limits { l with share := room limits l.ledger } spent := by
  obtain ⟨floor, hfloor, hspent⟩ := h.floor hsolo
  refine ⟨fun _ => ⟨hsolo, (h.alone hsolo).calls⟩, ?_, h.floor, h.external⟩
  simp only [room, hfloor]
  omega

theorem requireResolved_keeps (ctx : Ctx) (stage : String) (iteration : Nat) {l : Share}
    {spent : Nat} (hl : Ready limits l spent) :
    Keeps limits preLedger
      (fun l' _ => Ready limits l' spent ∧ l'.external = l.external)
      (requireResolved ctx stage iteration) l := by
  unfold requireResolved
  split
  · by_cases hsolo : l.solo = true
    · refine ledger_solo hsolo ?_
      split
      · exact ⟨hl.read hsolo, rfl⟩
      · exact ⟨hl.read hsolo, rfl⟩
    · refine ledger_sibling hsolo fun rows _ _ => ?_
      split
      · exact ⟨hl, rfl⟩
      · exact ⟨hl, rfl⟩
  · exact ⟨hl, rfl⟩

/-- A thread whose call is in flight. -/
structure Flying (ctx : Ctx) (row : CallRow) (l : Share) : Prop where
  alone : l.solo = true → l.Alone
  external : l.solo = false → ctx.external = false
  unsettled : l.Unsettled row

theorem Flying.continues {ctx : Ctx} {row : CallRow} {l : Share} (h : Flying ctx row l)
    (cost : Option Nat)
    (hcost : ∀ c, cost = some c → l.known = some (row.callId, c)) :
    l.Continues { row with costUsd := cost } :=
  ⟨row, h.unsettled, rfl, hcost⟩

theorem Flying.know {ctx : Ctx} {row : CallRow} {l : Share} (h : Flying ctx row l)
    (known : Option (String × Nat)) :
    Flying ctx row { l with known := known } :=
  ⟨fun hsolo => ⟨hsolo, (h.alone hsolo).calls⟩, h.external, h.unsettled⟩

theorem Flying.append_keeps {ctx : Ctx} {row : CallRow} {l : Share} {error : Refusal}
    (h : Flying ctx row l) :
    Keeps limits preLedger (fun _ _ => True)
      (do
        ask (.append (.call row))
        .raise error : Method Nat) l := by
  refine ⟨?_, fun _ _ => trivial⟩
  have hrow : { row with costUsd := none } = row := by
    rw [← h.unsettled.1]
  have := h.continues none (by rintro c ⟨⟩)
  rwa [hrow] at this

theorem lostCall_keeps {ctx : Ctx} {row : CallRow} {l : Share} (error : Refusal)
    (h : Flying ctx row l) :
    Keeps limits preLedger (fun _ _ => True) (lostCall ctx row error) l := by
  unfold lostCall
  split
  · rename_i hctx
    have hext : ctx.external = true := (Bool.and_eq_true_iff.mp hctx).1
    have hsolo : l.solo = true := by
      by_contra hsibling
      have := h.external (Bool.eq_false_iff.mpr hsibling)
      rw [hext] at this
      cases this
    refine noStart_keeps h.append_keeps ?_ (fun _ => trivial)
    have halone : ({ l with known := some (row.callId, 0) } : Share).Alone :=
      ⟨hsolo, (h.alone hsolo).calls⟩
    refine Obeys.bind (reconcile_keeps halone ?_) (fun _ _ _ => trivial)
      (fun _ _ _ => trivial)
    rintro usage ⟨⟩
    rfl
  · exact h.append_keeps

theorem paidCall_keeps {ctx : Ctx} {row : CallRow} {l : Share} (h : Flying ctx row l) :
    Keeps limits preLedger (fun _ _ => True) (paidCall ctx row) l := by
  refine ⟨trivial, fun answer _ => ?_⟩
  match answer with
  | .error error =>
      exact lostCall_keeps error h
  | .ok none =>
      refine ⟨?_, fun _ _ => trivial⟩
      have := h.continues none (by rintro c ⟨⟩)
      rwa [show { row with costUsd := none } = row by rw [← h.unsettled.1]] at this
  | .ok (some cost) =>
      refine ⟨?_, fun _ _ => trivial⟩
      refine (h.know (some (row.callId, cost))).continues (some cost) ?_
      rintro c ⟨⟩
      rfl

theorem agent_keeps (ctx : Ctx) (stage : String) (iteration : Nat) {l : Share}
    (hl : Starts limits l) (hexternal : l.external = ctx.external) :
    Keeps limits preLedger (fun _ _ => True) (agent limits ctx stage iteration) l := by
  refine Obeys.bind (recoverExternal_keeps ctx hl hexternal) ?_ (fun _ _ _ => trivial)
  rintro l₁ _ ⟨hl₁, -, hext₁⟩
  refine Obeys.bind (seedBudget_keeps ctx hl₁ (fun _ => hext₁.trans hexternal)) ?_
    (fun _ _ _ => trivial)
  rintro l₂ ctx' ⟨-, hext₂, ctx'', hr, hctx, -, -, hready⟩
  cases hr
  split
  · trivial
  refine checks_keeps ?_ (fun _ => trivial)
  refine Obeys.bind (requireResolved_keeps ctx' stage iteration hready) ?_
    (fun _ _ _ => trivial)
  rintro l₃ _ ⟨hready₃, hext₃⟩
  refine ⟨⟨hready₃.share, fun hsolo => ?_⟩, fun callId _ => ?_⟩
  · obtain ⟨floor, hfloor, -⟩ := hready₃.floor hsolo
    rw [hfloor]
    rfl
  have hflying : Flying ctx'
      ⟨callId, stage, iteration,
        min limits.perStage (limits.maxBudget - ctx'.spentUsd), none⟩
      ((protocol limits preLedger).next l₃
        (.reserve stage iteration
          (min limits.perStage (limits.maxBudget - ctx'.spentUsd))) callId) := by
    refine ⟨fun hsolo => ⟨hsolo, fun hnone => ?_⟩, fun hsibling => ?_, rfl, ?_⟩
    · obtain ⟨floor, hfloor, -⟩ := hready₃.floor hsolo
      have hsame := floorUsd_append_call l₃.ledger
        ⟨callId, stage, iteration,
          min limits.perStage (limits.maxBudget - ctx'.spentUsd), none⟩
      cases (hnone.symm.trans hsame).trans hfloor
    · have hfalse : l₃.external = false := hready₃.external hsibling
      rw [hctx, ← hexternal, ← hext₁, ← hext₂, ← hext₃]
      exact hfalse
    · split
      · have hmem := mem_upsert_self (records l₃.ledger)
          ⟨callId, stage, iteration,
            min limits.perStage (limits.maxBudget - ctx'.spentUsd), none⟩
        rw [← records_append_call] at hmem
        exact hmem
      · rfl
  change Keeps limits preLedger _ (paidCall ctx' _ >>= _) _
  refine Obeys.bind (paidCall_keeps hflying) ?_ (fun _ _ _ => trivial)
  rintro l₄ cost -
  refine checks_keeps ?_ (fun _ => trivial)
  split <;> trivial

/-- A decision to fork leaves a full stage budget for each sibling. -/
theorem forkDecision_keeps (ctx : Ctx) (pending : Nat) (otherwise : Bool) {l : Share}
    (hl : Starts limits l) (hsolo : l.solo = true) (hexternal : l.external = ctx.external) :
    Keeps limits preLedger
      (fun l' r => ∀ ctx', r = .ok (some ctx') →
        l'.solo = true ∧ ctx'.external = false ∧
          ∃ floor, floorUsd l'.ledger = some floor ∧
            floor + chargedUsd l'.ledger + pending * limits.perStage ≤ limits.maxBudget)
      (forkDecision limits ctx pending otherwise) l := by
  unfold forkDecision
  split
  · rintro ctx' ⟨⟩
  rename_i hclauses
  refine Obeys.bind (seedBudget_keeps ctx hl (fun _ => hexternal)) ?_ ?_
  · rintro l' ctx' ⟨hsame, -, ctx'', hr, hctx, -, -, hready⟩
    cases hr
    split
    · rintro _ ⟨⟩
    rename_i hcovers
    rintro _ ⟨⟩
    have hsolo' : l'.solo = true := hsame.trans hsolo
    obtain ⟨floor, hfloor, hspent⟩ := hready.floor hsolo'
    refine ⟨hsolo', ?_, floor, hfloor, by omega⟩
    rw [hctx]
    simp only [Bool.or_eq_true, not_or, Bool.not_eq_true] at hclauses
    exact hclauses.2
  · rintro l' e ⟨-, -, ctx', hr, -⟩
    cases hr

/-- What a decision to fork leaves for the siblings. -/
def Forked (limits : Limits) (l : Share) (r : Except Refusal Reply) : Prop :=
  ∀ ctx pending, r = .ok (.forks ctx pending) →
    l.solo = true ∧ ctx.external = false ∧
      ∃ floor, floorUsd l.ledger = some floor ∧
        floor + chargedUsd l.ledger + pending * limits.perStage ≤ limits.maxBudget

theorem Forked.error {l : Share} (e : Refusal) : Forked limits l (.error e) := by
  rintro ctx pending ⟨⟩

theorem Forked.done {l : Share} : Forked limits l (.ok .done) := by
  rintro ctx pending ⟨⟩

/-- The call of a stage, or of a sibling of a fork wave. -/
theorem call_keeps (ctx : Ctx) (stage : String) (iteration : Nat) {l : Share}
    (hl : Starts limits l) (hexternal : l.external = ctx.external) :
    Keeps limits preLedger (Forked limits)
      ((Job.call ctx stage iteration).prog limits) l :=
  Obeys.bind (agent_keeps ctx stage iteration hl hexternal)
    (fun _ _ _ => Forked.done) (fun _ e _ => Forked.error e)

/-- Every job of a process that owns the run keeps to the protocol. -/
theorem Job.prog_keeps (job : Job) {l : Share} (hl : Starts limits l)
    (hsolo : l.solo = true) (hexternal : l.external = job.external) :
    Keeps limits preLedger (Forked limits) (job.prog limits) l := by
  cases job with
  | seed ctx =>
      exact Obeys.bind (seedBudget_keeps ctx hl (fun _ => hexternal))
        (fun _ _ _ => Forked.done) (fun _ e _ => Forked.error e)
  | call ctx stage iteration =>
      exact call_keeps ctx stage iteration hl hexternal
  | fork ctx pending otherwise =>
      refine Obeys.bind (forkDecision_keeps ctx pending otherwise hl hsolo hexternal) ?_
        (fun _ e _ => Forked.error e)
      intro l' decision h
      cases decision with
      | none =>
          exact Forked.done
      | some ctx' =>
          rintro _ _ ⟨⟩
          exact h ctx' rfl
  | reconcile callId =>
      have halone := hl.alone hsolo
      refine ⟨trivial, fun outcome _ => ?_⟩
      refine keeps_ofExcept_bind (fun outcome hok => ?_) (fun e => Forked.error e)
      subst hok
      have halone' : ({ l with
          known := outcome.usage.map (fun usage => (callId, usage)) } : Share).Alone :=
        ⟨halone.solo, halone.calls⟩
      refine Obeys.bind (reconcile_keeps halone' ?_) (fun _ _ _ => Forked.done)
        (fun _ e _ => Forked.error e)
      intro usage husage
      exact congrArg (Option.map (fun usage => (callId, usage))) husage

end Programs

end Spending
end SwFactory
