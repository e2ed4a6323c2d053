import SwFactory.Machine.Scheduled
import SwFactory.Spending.Shares
import Mathlib.Algebra.Order.BigOperators.Group.List
import Mathlib.Algebra.Order.Ring.Nat

/-!
# The ceiling of a run

What is charged and what the threads may still reserve stays within the ceiling,
and every call is charged at least what the provider bills for it.  Both hold
through every statement, every death and every bill, as long as the floor of a
run with earlier cost is not adopted for an external agent.
-/

namespace SwFactory
namespace Spending

open Machine

/-! ## The books -/

/-- The books are in order, with an amount that may still be reserved. -/
structure Sound (limits : Limits) (preLedger promised : Nat) (b : Books) : Prop where
  fits : ∀ r ∈ records b.ledger, b.bill r.callId ≤ r.reservedUsd
  settled : ∀ r ∈ records b.ledger, ∀ cost, r.costUsd = some cost →
    b.closed r.callId = true ∧ cost = b.bill r.callId
  unbilled : ∀ callId, callId ∉ (records b.ledger).map CallRow.callId → b.bill callId = 0
  total : b.billed = ((records b.ledger).map (fun r => b.bill r.callId)).sum
  unadopted : floorUsd b.ledger = none → records b.ledger = [] ∧ b.stageLog = preLedger
  adopted : ∀ floor, floorUsd b.ledger = some floor →
    preLedger ≤ floor ∧ floor + chargedUsd b.ledger + promised ≤ limits.maxBudget

section Books

variable {limits : Limits} {preLedger promised : Nat} {b : Books}

theorem Sound.bill_le_charge (h : Sound limits preLedger promised b) {r : CallRow}
    (hr : r ∈ records b.ledger) :
    b.bill r.callId ≤ r.charge := by
  unfold CallRow.charge
  cases hcost : r.costUsd with
  | none =>
      exact h.fits r hr
  | some cost =>
      exact (h.settled r hr cost hcost).2.ge

theorem Sound.billed_le (h : Sound limits preLedger promised b) :
    b.billed ≤ chargedUsd b.ledger := by
  rw [h.total]
  exact List.sum_le_sum fun r hr => h.bill_le_charge hr

/-- **Books in order are within the ceiling.** -/
theorem Sound.within (h : Sound limits preLedger promised b) :
    Within limits preLedger b where
  unadopted := by
    intro hnone
    have hempty := (h.unadopted hnone).1
    refine ⟨?_, hempty⟩
    rw [h.total, hempty]
    rfl
  charged := by
    intro floor hfloor
    exact Nat.add_le_add (h.adopted floor hfloor).1 h.billed_le
  ceiling := by
    intro floor hfloor
    have := (h.adopted floor hfloor).2
    omega
  released := by
    intro r hr hne
    cases hcost : r.costUsd with
    | none =>
        exact absurd (by simp [CallRow.charge, hcost]) hne
    | some cost =>
        obtain ⟨hclosed, hbill⟩ := h.settled r hr cost hcost
        exact ⟨hclosed, by simp [CallRow.charge, hcost, hbill]⟩

theorem sound_initial :
    Sound limits preLedger 0 (.initial preLedger) := by
  constructor
  · intro r hr
    cases hr
  · intro r hr
    cases hr
  · intro callId _
    rfl
  · rfl
  · intro _
    exact ⟨rfl, rfl⟩
  · intro floor hfloor
    cases hfloor

/-- Whatever the ceiling covers may be promised. -/
theorem Sound.covers {promised' : Nat} (h : Sound limits preLedger promised b)
    (hcovers : ∀ floor, floorUsd b.ledger = some floor →
      floor + chargedUsd b.ledger + promised' ≤ limits.maxBudget) :
    Sound limits preLedger promised' b where
  fits := h.fits
  settled := h.settled
  unbilled := h.unbilled
  total := h.total
  unadopted := h.unadopted
  adopted := fun floor hfloor => ⟨(h.adopted floor hfloor).1, hcovers floor hfloor⟩

theorem Sound.weaken {promised' : Nat} (h : Sound limits preLedger promised b)
    (hle : promised' ≤ promised) :
    Sound limits preLedger promised' b := by
  refine h.covers fun floor hfloor => ?_
  have := (h.adopted floor hfloor).2
  omega

/-- What the ceiling leaves may be promised. -/
theorem Sound.promise (h : Sound limits preLedger promised b) :
    Sound limits preLedger (room limits b.ledger) b := by
  refine h.covers fun floor hfloor => ?_
  have := (h.adopted floor hfloor).2
  simp only [room, hfloor]
  omega

theorem Sound.close (h : Sound limits preLedger promised b)
    (settles : Option (String × Nat)) :
    Sound limits preLedger promised (b.close settles) := by
  cases settles with
  | none =>
      exact h
  | some told =>
      refine ⟨h.fits, fun r hr cost hcost => ?_, h.unbilled, h.total, h.unadopted, h.adopted⟩
      obtain ⟨hclosed, hbill⟩ := h.settled r hr cost hcost
      refine ⟨?_, hbill⟩
      simp only [Books.close, Function.update_apply, hclosed, ite_self]

theorem Sound.adopt {usd : Nat} (h : Sound limits preLedger promised b)
    (hnone : floorUsd b.ledger = none)
    (hpre : preLedger ≤ usd) (hmax : usd ≤ limits.maxBudget) :
    Sound limits preLedger 0 { b with ledger := b.ledger ++ [.floor usd] } := by
  have hempty := (h.unadopted hnone).1
  have hfloor : floorUsd (b.ledger ++ [.floor usd]) = some usd := by
    rw [floorUsd_append_floor, hnone, Option.getD_none]
  constructor
  · simpa using h.fits
  · simpa using h.settled
  · simpa using h.unbilled
  · simpa using h.total
  · intro hnone'
    cases hnone'.symm.trans hfloor
  · intro floor hfloor'
    cases hfloor.symm.trans hfloor'
    refine ⟨hpre, ?_⟩
    simp [chargedUsd, hempty, hmax]

/-- A new call is charged its reservation. -/
theorem Sound.reserve {row : CallRow} {share : Nat}
    (h : Sound limits preLedger (promised + share) b)
    (hnew : row.callId ∉ (records b.ledger).map CallRow.callId)
    (hcost : row.costUsd = none) (hshare : row.reservedUsd ≤ share)
    (hfloor : (floorUsd b.ledger).isSome) :
    Sound limits preLedger promised { b with ledger := b.ledger ++ [.call row] } := by
  have hbill : b.bill row.callId = 0 := h.unbilled _ hnew
  have hcharge : row.charge = row.reservedUsd := by simp [CallRow.charge, hcost]
  constructor
  · intro r hr
    rw [records_append_call] at hr
    rcases mem_upsert hr with rfl | ⟨hr, -⟩
    · exact hbill.trans_le (Nat.zero_le _)
    · exact h.fits r hr
  · intro r hr cost hr'
    rw [records_append_call] at hr
    rcases mem_upsert hr with rfl | ⟨hr, -⟩
    · rw [hcost] at hr'
      cases hr'
    · exact h.settled r hr cost hr'
  · intro callId hid
    rw [records_append_call, map_callId_upsert, if_neg hnew, List.mem_append, not_or] at hid
    exact h.unbilled callId hid.1
  · have hsum := sum_upsert_new (fun r => b.bill r.callId) hnew
    rw [hbill, Nat.add_zero, ← records_append_call] at hsum
    exact h.total.trans hsum.symm
  · intro hnone
    rw [show floorUsd _ = floorUsd b.ledger from floorUsd_append_call _ _] at hnone
    rw [hnone] at hfloor
    cases hfloor
  · intro floor hfloor'
    rw [show floorUsd _ = floorUsd b.ledger from floorUsd_append_call _ _] at hfloor'
    obtain ⟨hpre, hmax⟩ := h.adopted floor hfloor'
    have hsum := sum_upsert_new CallRow.charge hnew
    rw [hcharge, ← records_append_call] at hsum
    refine ⟨hpre, ?_⟩
    unfold chargedUsd at hmax ⊢
    dsimp only
    omega

/-- A further row of a call tells its final bill, or leaves it charged. -/
theorem Sound.continue {record row : CallRow}
    (h : Sound limits preLedger promised b)
    (hmem : record ∈ records b.ledger) (hopen : record.costUsd = none)
    (hrow : row = { record with costUsd := row.costUsd })
    (htold : ∀ cost, row.costUsd = some cost →
      b.closed row.callId = true ∧ b.bill row.callId = cost) :
    Sound limits preLedger promised { b with ledger := b.ledger ++ [.call row] } := by
  have hid : record.callId = row.callId := by rw [hrow]
  have hreserved : record.reservedUsd = row.reservedUsd := by rw [hrow]
  have hold : row.callId ∈ (records b.ledger).map CallRow.callId := by
    rw [← hid]
    exact List.mem_map_of_mem hmem
  have hfits : b.bill row.callId ≤ row.reservedUsd := by
    rw [← hid, ← hreserved]
    exact h.fits record hmem
  have hcharge : row.charge ≤ record.charge := by
    unfold CallRow.charge
    rw [hopen, Option.getD_none, hreserved]
    cases hcost : row.costUsd with
    | none => exact le_rfl
    | some cost =>
        have := (htold cost hcost).2
        exact this.symm.trans_le hfits
  constructor
  · intro r hr
    rw [records_append_call] at hr
    rcases mem_upsert hr with rfl | ⟨hr, -⟩
    · exact hfits
    · exact h.fits r hr
  · intro r hr cost hr'
    rw [records_append_call] at hr
    rcases mem_upsert hr with rfl | ⟨hr, -⟩
    · exact ⟨(htold cost hr').1, (htold cost hr').2.symm⟩
    · exact h.settled r hr cost hr'
  · intro callId hnot
    rw [records_append_call, map_callId_upsert, if_pos hold] at hnot
    exact h.unbilled callId hnot
  · have hsum := sum_upsert_old (fun r => b.bill r.callId) (nodup_records b.ledger) hmem hid
    rw [← records_append_call] at hsum
    dsimp only at hsum ⊢
    rw [hid] at hsum
    exact h.total.trans (Nat.add_right_cancel hsum).symm
  · intro hnone
    rw [show floorUsd _ = floorUsd b.ledger from floorUsd_append_call _ _] at hnone
    rw [(h.unadopted hnone).1] at hmem
    cases hmem
  · intro floor hfloor
    rw [show floorUsd _ = floorUsd b.ledger from floorUsd_append_call _ _] at hfloor
    obtain ⟨hpre, hmax⟩ := h.adopted floor hfloor
    have hsum := sum_upsert_old CallRow.charge (nodup_records b.ledger) hmem hid
    rw [← records_append_call] at hsum
    refine ⟨hpre, ?_⟩
    unfold chargedUsd at hmax ⊢
    dsimp only
    omega

/-- An open call is billed within its reservation. -/
theorem Sound.billCall {callId : String} {amount : Nat} {record : CallRow}
    (h : Sound limits preLedger promised b)
    (hopen : b.closed callId = false)
    (hmem : record ∈ records b.ledger) (hid : record.callId = callId)
    (hle : b.bill callId + amount ≤ record.reservedUsd) :
    Sound limits preLedger promised
      { b with
        bill := Function.update b.bill callId (b.bill callId + amount)
        billed := b.billed + amount } := by
  have hunique : ∀ r ∈ records b.ledger, r.callId = callId → r = record := by
    intro r hr heq
    exact List.inj_on_of_nodup_map (nodup_records b.ledger) hr hmem (heq.trans hid.symm)
  constructor
  · intro r hr
    by_cases heq : r.callId = callId
    · cases hunique r hr heq
      simpa [heq] using hle
    · simpa [heq] using h.fits r hr
  · intro r hr cost hcost
    obtain ⟨hclosed, hbill⟩ := h.settled r hr cost hcost
    have heq : r.callId ≠ callId := by
      rintro heq
      rw [heq, hopen] at hclosed
      cases hclosed
    exact ⟨hclosed, by simpa [heq] using hbill⟩
  · intro id hnot
    have heq : id ≠ callId := by
      rintro rfl
      exact hnot (hid ▸ List.mem_map_of_mem hmem)
    simpa [heq] using h.unbilled id hnot
  · have hsum := sum_update_bill (nodup_records b.ledger) hmem hid b.bill amount
    rw [h.total]
    exact hsum.symm
  · exact h.unadopted
  · exact h.adopted

theorem Sound.logged (h : Sound limits preLedger promised b) (cost : Nat)
    (hfloor : (floorUsd b.ledger).isSome) :
    Sound limits preLedger promised { b with stageLog := b.stageLog + cost } := by
  refine ⟨h.fits, h.settled, h.unbilled, h.total, fun hnone => ?_, h.adopted⟩
  rw [show floorUsd b.ledger = none from hnone] at hfloor
  cases hfloor

end Books

/-! ## The crew -/

/-- The books are in order, and what the threads know is true. -/
structure Crew (limits : Limits) (preLedger : Nat) (external : Bool)
    (locals : List Share) (b : Books) : Prop where
  sound : Sound limits preLedger (locals.map Share.share).sum b
  solo : ∀ (i : Nat) l, locals[i]? = some l → l.solo = true →
    locals = [l] ∧ l.ledger = b.ledger ∧ l.external = external
  siblings : ∀ (i : Nat) l, locals[i]? = some l → l.solo = false → (floorUsd b.ledger).isSome
  calls : ∀ (i : Nat) l row, locals[i]? = some l → l.solo = false → l.call = some row →
    row ∈ records b.ledger ∧ row.costUsd = none
  distinct : ∀ (i j : Nat) l l' row row', locals[i]? = some l → locals[j]? = some l' →
    l.call = some row → l'.call = some row' → row.callId = row'.callId → i = j
  known : ∀ (i : Nat) l callId cost, locals[i]? = some l → l.known = some (callId, cost) →
    b.closed callId = true ∧ b.bill callId = cost

section Crews

variable {limits : Limits} {preLedger : Nat} {external : Bool}
variable {locals : List Share} {b : Books}

/-- The entries of a list in which one has been exchanged. -/
theorem getElem?_set_cases {α : Type} {xs : List α} {i j : Nat} {x y z : α}
    (hx : xs[i]? = some x) (hz : (xs.set i y)[j]? = some z) :
    (j = i ∧ z = y) ∨ (j ≠ i ∧ xs[j]? = some z) := by
  obtain ⟨hi, -⟩ := List.getElem?_eq_some_iff.mp hx
  rw [List.getElem?_set] at hz
  split at hz
  · rename_i heq
    exact Or.inl ⟨heq.symm, (Option.some.inj hz).symm⟩
  · rename_i hne
    exact Or.inr ⟨Ne.symm hne, hz⟩

/-- A thread that is alone makes the whole crew. -/
theorem crew_single {l : Share} (hsolo : l.solo = true)
    (hsound : Sound limits preLedger l.share b)
    (hledger : l.ledger = b.ledger) (hexternal : l.external = external)
    (hknown : ∀ callId cost, l.known = some (callId, cost) →
      b.closed callId = true ∧ b.bill callId = cost) :
    Crew limits preLedger external [l] b := by
  have hone : ∀ (i : Nat) (l' : Share), [l][i]? = some l' → i = 0 ∧ l' = l := by
    intro i l' h
    cases i with
    | zero => exact ⟨rfl, (Option.some.inj h).symm⟩
    | succ i => cases h
  constructor
  · simpa using hsound
  · intro i l' hi _
    obtain ⟨-, rfl⟩ := hone i l' hi
    exact ⟨rfl, hledger, hexternal⟩
  · intro i l' hi hsibling
    obtain ⟨-, rfl⟩ := hone i l' hi
    rw [hsolo] at hsibling
    cases hsibling
  · intro i l' row hi hsibling
    obtain ⟨-, rfl⟩ := hone i l' hi
    rw [hsolo] at hsibling
    cases hsibling
  · intro i j l₁ l₂ row row' hi hj _ _ _
    rw [(hone i l₁ hi).1, (hone j l₂ hj).1]
  · intro i l' callId cost hi
    obtain ⟨-, rfl⟩ := hone i l' hi
    exact hknown callId cost

/-- A thread learns a final bill, and the call is final. -/
theorem Crew.learn {i : Nat} {l : Share} {told known : Option (String × Nat)}
    (h : Crew limits preLedger external locals b) (hl : locals[i]? = some l)
    (hhonest : ∀ callId cost, told = some (callId, cost) → cost = b.bill callId)
    (hknown : ∀ callId cost, known = some (callId, cost) →
      told = some (callId, cost) ∨ l.known = some (callId, cost)) :
    Crew limits preLedger external (locals.set i { l with known := known })
      (b.close told) := by
  have hledger : (b.close told).ledger = b.ledger := by cases told <;> rfl
  have hbill : (b.close told).bill = b.bill := by cases told <;> rfl
  have hclosed : ∀ callId, b.closed callId = true → (b.close told).closed callId = true := by
    intro callId hc
    cases told with
    | none => exact hc
    | some t => simp only [Books.close, Function.update_apply, hc, ite_self]
  have hshares : ((locals.set i { l with known := known }).map Share.share).sum =
      (locals.map Share.share).sum := by
    have := sum_map_set Share.share ({ l with known := known } : Share) hl
    dsimp only at this
    omega
  have hsame : ∀ (j : Nat) l', (locals.set i { l with known := known })[j]? = some l' →
      ∃ l₀, locals[j]? = some l₀ ∧ l'.solo = l₀.solo ∧ l'.external = l₀.external ∧
        l'.ledger = l₀.ledger ∧ l'.call = l₀.call := by
    intro j l' hj
    rcases getElem?_set_cases hl hj with ⟨rfl, rfl⟩ | ⟨-, hj⟩
    · exact ⟨l, hl, rfl, rfl, rfl, rfl⟩
    · exact ⟨l', hj, rfl, rfl, rfl, rfl⟩
  constructor
  · rw [hshares]
    exact h.sound.close told
  · intro j l' hj hsolo
    obtain ⟨l₀, hj₀, hs, hext, hled, -⟩ := hsame j l' hj
    obtain ⟨hone, hb, he⟩ := h.solo j l₀ hj₀ (hs ▸ hsolo)
    refine ⟨?_, hled.trans (hb.trans hledger.symm), hext.trans he⟩
    rw [hone] at hl hj ⊢
    cases i with
    | zero =>
        cases j with
        | zero => exact congrArg (fun x => [x]) (Option.some.inj hj)
        | succ j => cases hj
    | succ i => cases hl
  · intro j l' hj hsibling
    obtain ⟨l₀, hj₀, hs, -⟩ := hsame j l' hj
    rw [hledger]
    exact h.siblings j l₀ hj₀ (hs ▸ hsibling)
  · intro j l' row hj hsibling hcall
    obtain ⟨l₀, hj₀, hs, -, -, hc⟩ := hsame j l' hj
    rw [hledger]
    exact h.calls j l₀ row hj₀ (hs ▸ hsibling) (hc ▸ hcall)
  · intro j₁ j₂ l₁ l₂ row₁ row₂ hj₁ hj₂ hcall₁ hcall₂ hid
    obtain ⟨m₁, hm₁, -, -, -, hc₁⟩ := hsame j₁ l₁ hj₁
    obtain ⟨m₂, hm₂, -, -, -, hc₂⟩ := hsame j₂ l₂ hj₂
    exact h.distinct j₁ j₂ m₁ m₂ row₁ row₂ hm₁ hm₂ (hc₁ ▸ hcall₁) (hc₂ ▸ hcall₂) hid
  · intro j l' callId cost hj hk
    rw [hbill]
    rcases getElem?_set_cases hl hj with ⟨rfl, rfl⟩ | ⟨-, hj⟩
    · rcases hknown callId cost hk with htold | hold
      · refine ⟨?_, (hhonest callId cost htold).symm⟩
        subst htold
        simp [Books.close]
      · obtain ⟨hc, hb⟩ := h.known j l callId cost hl hold
        exact ⟨hclosed callId hc, hb⟩
    · obtain ⟨hc, hb⟩ := h.known j l' callId cost hj hk
      exact ⟨hclosed callId hc, hb⟩

/-- A sibling adds a row to the ledger, and gives up its share and its call or not. -/
theorem Crew.sibling_append {i : Nat} {l l' : Share} {row : CallRow}
    (h : Crew limits preLedger external locals b) (hl : locals[i]? = some l)
    (hsibling : l.solo = false) (hsolo' : l'.solo = false)
    (hsound : Sound limits preLedger ((locals.set i l').map Share.share).sum
      { b with ledger := b.ledger ++ [.call row] })
    (hcall : ∀ own, l'.call = some own → own = row ∧ row.costUsd = none)
    (hothers : ∀ (j : Nat) m own, locals[j]? = some m → j ≠ i → m.call = some own →
      own.callId ≠ row.callId)
    (hknown : l'.known = l.known) :
    Crew limits preLedger external (locals.set i l')
      { b with ledger := b.ledger ++ [.call row] } := by
  have hfloor : (floorUsd (b.ledger ++ [.call row])).isSome := by
    rw [floorUsd_append_call]
    exact h.siblings i l hl hsibling
  have halone : ∀ (j : Nat) m, locals[j]? = some m → m.solo = false := by
    intro j m hj
    by_contra hsolo
    obtain ⟨hone, -, -⟩ := h.solo j m hj (by simpa using hsolo)
    rw [hone] at hl
    cases i with
    | zero =>
        cases hl
        exact hsolo hsibling
    | succ i => cases hl
  constructor
  · exact hsound
  · intro j m hj hsolo
    rcases getElem?_set_cases hl hj with ⟨rfl, rfl⟩ | ⟨-, hj⟩
    · rw [hsolo'] at hsolo
      cases hsolo
    · rw [halone j m hj] at hsolo
      cases hsolo
  · intro j m _ _
    exact hfloor
  · intro j m own hj _ hown
    rw [records_append_call]
    rcases getElem?_set_cases hl hj with ⟨rfl, rfl⟩ | ⟨hne, hj⟩
    · obtain ⟨rfl, hcost⟩ := hcall own hown
      exact ⟨mem_upsert_self _ _, hcost⟩
    · obtain ⟨hmem, hcost⟩ := h.calls j m own hj (halone j m hj) hown
      exact ⟨mem_upsert_of_ne hmem (hothers j m own hj hne hown), hcost⟩
  · intro j₁ j₂ l₁ l₂ row₁ row₂ hj₁ hj₂ hcall₁ hcall₂ hid
    rcases getElem?_set_cases hl hj₁ with ⟨hi₁, hm₁⟩ | ⟨hne₁, hold₁⟩ <;>
      rcases getElem?_set_cases hl hj₂ with ⟨hi₂, hm₂⟩ | ⟨hne₂, hold₂⟩
    · exact hi₁.trans hi₂.symm
    · obtain ⟨heq, -⟩ := hcall row₁ (hm₁ ▸ hcall₁)
      exact absurd (hid.symm.trans (congrArg CallRow.callId heq))
        (hothers j₂ l₂ row₂ hold₂ hne₂ hcall₂)
    · obtain ⟨heq, -⟩ := hcall row₂ (hm₂ ▸ hcall₂)
      exact absurd (hid.trans (congrArg CallRow.callId heq))
        (hothers j₁ l₁ row₁ hold₁ hne₁ hcall₁)
    · exact h.distinct j₁ j₂ l₁ l₂ row₁ row₂ hold₁ hold₂ hcall₁ hcall₂ hid
  · intro j m callId cost hj hk
    rcases getElem?_set_cases hl hj with ⟨rfl, rfl⟩ | ⟨-, hj⟩
    · exact h.known j l callId cost hl (hknown ▸ hk)
    · exact h.known j m callId cost hj hk

theorem set_self {α : Type} {xs : List α} {i : Nat} {x : α} (h : xs[i]? = some x) :
    xs.set i x = xs := by
  obtain ⟨hi, heq⟩ := List.getElem?_eq_some_iff.mp h
  rw [← heq]
  exact List.set_getElem_self hi

/-- The crew of a thread that is alone. -/
theorem Crew.of_solo {i : Nat} {l : Share}
    (h : Crew limits preLedger external locals b) (hl : locals[i]? = some l)
    (hsolo : l.solo = true) :
    (∀ l', locals.set i l' = [l']) ∧ l.ledger = b.ledger ∧ l.external = external ∧
      Sound limits preLedger l.share b := by
  obtain ⟨hone, hledger, hext⟩ := h.solo i l hl hsolo
  have hsound := h.sound
  rw [hone] at hl hsound ⊢
  refine ⟨fun l' => ?_, hledger, hext, by simpa using hsound⟩
  cases i with
  | zero => rfl
  | succ i => cases hl

theorem Crew.exec_ledger {i : Nat} {l : Share} {input : Input}
    (h : Crew limits preLedger external locals b) (hl : locals[i]? = some l) :
    (protocol limits preLedger).answers l .ledger (exec .ledger input b).1 ∧
      Crew limits preLedger external
        (locals.set i ((protocol limits preLedger).next l .ledger (exec .ledger input b).1))
        (exec .ledger input b).2 := by
  have hnext : (protocol limits preLedger).next l .ledger (exec .ledger input b).1 =
      if l.solo then { l with share := room limits l.ledger } else l := rfl
  have hanswers : (protocol limits preLedger).answers l .ledger (exec .ledger input b).1 =
      if l.solo then b.ledger = l.ledger else (floorUsd b.ledger).isSome := rfl
  rw [hnext, hanswers]
  by_cases hsolo : l.solo = true
  · obtain ⟨hset, hledger, hext, hsound⟩ := h.of_solo hl hsolo
    rw [if_pos hsolo, if_pos hsolo, hset]
    refine ⟨hledger.symm, crew_single hsolo ?_ hledger hext (fun callId cost hk => ?_)⟩
    · rw [hledger]
      exact hsound.promise
    · exact h.known i l callId cost hl hk
  · rw [if_neg hsolo, if_neg hsolo, set_self hl]
    exact ⟨h.siblings i l hl (Bool.eq_false_iff.mpr hsolo), h⟩

theorem Crew.exec_adopt {i : Nat} {l : Share} {usd : Nat}
    (h : Crew limits preLedger external locals b) (hl : locals[i]? = some l)
    (hallow : (protocol limits preLedger).allow l (.append (.floor usd)))
    (hadopts : b.stageLog ≠ 0 → external = false)
    (hpre : preLedger ≤ limits.maxBudget) :
    Crew limits preLedger external
      (locals.set i ((protocol limits preLedger).next l (.append (.floor usd)) ()))
      { b with ledger := b.ledger ++ [.floor usd] } := by
  obtain ⟨halone, hfloor, husd⟩ := hallow
  obtain ⟨hset, hledger, hext, hsound⟩ := h.of_solo hl halone.solo
  rw [hledger] at hfloor
  have hpreusd : preLedger ≤ usd ∧ usd ≤ limits.maxBudget := by
    by_cases hexternal : l.external = true
    · rw [if_pos hexternal] at husd
      have hzero : b.stageLog = 0 := by
        by_contra hne
        rw [← hext, hexternal] at hadopts
        cases hadopts hne
      rw [← (hsound.unadopted hfloor).2, hzero, husd]
      exact ⟨le_rfl, Nat.zero_le _⟩
    · rw [if_neg hexternal] at husd
      rw [husd]
      exact ⟨le_rfl, hpre⟩
  rw [hset]
  refine crew_single halone.solo ?_ ?_ hext ?_
  · have hshare : ((protocol limits preLedger).next l (.append (.floor usd)) ()).share =
        if l.solo then 0 else l.share := rfl
    rw [hshare, if_pos halone.solo]
    exact hsound.adopt hfloor hpreusd.1 hpreusd.2
  · exact congrArg (· ++ [Row.floor usd]) hledger
  · exact fun callId cost hk => h.known i l callId cost hl hk

theorem Crew.exec_continue {i : Nat} {l : Share} {row : CallRow}
    (h : Crew limits preLedger external locals b) (hl : locals[i]? = some l)
    (hallow : (protocol limits preLedger).allow l (.append (.call row))) :
    Crew limits preLedger external
      (locals.set i ((protocol limits preLedger).next l (.append (.call row)) ()))
      { b with ledger := b.ledger ++ [.call row] } := by
  obtain ⟨record, ⟨hopen, hwhose⟩, hrow, hknown⟩ := hallow
  have hid : record.callId = row.callId := by rw [hrow]
  have htold : ∀ cost, row.costUsd = some cost →
      b.closed row.callId = true ∧ b.bill row.callId = cost :=
    fun cost hcost => h.known i l _ _ hl (hknown cost hcost)
  have hshare : ((protocol limits preLedger).next l (.append (.call row)) ()).share =
      if l.solo then 0 else l.share := rfl
  by_cases hsolo : l.solo = true
  · rw [if_pos hsolo] at hwhose hshare
    obtain ⟨hset, hledger, hext, hsound⟩ := h.of_solo hl hsolo
    rw [hledger] at hwhose
    rw [hset]
    refine crew_single hsolo ?_ ?_ hext ?_
    · rw [hshare]
      exact (hsound.continue hwhose hopen hrow htold).weaken (Nat.zero_le _)
    · exact congrArg (· ++ [Row.call row]) hledger
    · exact fun callId cost hk => h.known i l callId cost hl hk
  · rw [if_neg hsolo] at hwhose hshare
    have hsibling : l.solo = false := Bool.eq_false_iff.mpr hsolo
    obtain ⟨hmem, -⟩ := h.calls i l record hl hsibling hwhose
    refine h.sibling_append hl hsibling hsibling ?_ (by rintro own ⟨⟩) ?_ rfl
    · have hsum := sum_map_set Share.share
        ((protocol limits preLedger).next l (.append (.call row)) ()) hl
      rw [hshare] at hsum
      rw [Nat.add_right_cancel hsum]
      exact h.sound.continue hmem hopen hrow htold
    · intro j m own hj hne hown heq
      exact hne (h.distinct j i m l own record hj hl hown hwhose (heq.trans hid.symm))

theorem Crew.exec_reserve {i : Nat} {l : Share} {stage callId : String}
    {iteration usd : Nat}
    (h : Crew limits preLedger external locals b) (hl : locals[i]? = some l)
    (hallow : (protocol limits preLedger).allow l (.reserve stage iteration usd))
    (hnew : callId ∉ (records b.ledger).map CallRow.callId) :
    Crew limits preLedger external
      (locals.set i
        ((protocol limits preLedger).next l (.reserve stage iteration usd) callId))
      { b with ledger := b.ledger ++ [.call ⟨callId, stage, iteration, usd, none⟩] } := by
  obtain ⟨hshare, hfloor⟩ := hallow
  by_cases hsolo : l.solo = true
  · obtain ⟨hset, hledger, hext, hsound⟩ := h.of_solo hl hsolo
    rw [hset]
    refine crew_single hsolo ?_ ?_ hext ?_
    · refine Sound.reserve ?_ hnew rfl hshare ?_
      · exact hsound.weaken (Nat.zero_add _).le
      · rw [← hledger]
        exact hfloor hsolo
    · exact congrArg (· ++ [Row.call ⟨callId, stage, iteration, usd, none⟩]) hledger
    · exact fun callId cost hk => h.known i l callId cost hl hk
  · have hsibling : l.solo = false := Bool.eq_false_iff.mpr hsolo
    refine h.sibling_append hl hsibling hsibling ?_ ?_ ?_ rfl
    · refine Sound.reserve ?_ hnew rfl hshare (h.siblings i l hl hsibling)
      have hsum := sum_map_set Share.share
        ((protocol limits preLedger).next l (.reserve stage iteration usd) callId) hl
      rw [hsum]
      exact h.sound
    · rintro own ⟨⟩
      exact ⟨rfl, rfl⟩
    · intro j m own hj hne hown heq
      have hother : m.solo = false := by
        by_contra hsolo'
        obtain ⟨hone, -, -⟩ := h.solo j m hj (by simpa using hsolo')
        rw [hone] at hl hj
        cases i with
        | zero =>
            cases j with
            | zero => exact hne rfl
            | succ j => cases hj
        | succ i => cases hl
      obtain ⟨hmem, -⟩ := h.calls j m own hj hother hown
      have hid : own.callId = callId := heq
      exact hnew (hid ▸ List.mem_map_of_mem hmem)

/-- A statement that is allowed keeps the crew. -/
theorem Crew.exec {i : Nat} {l : Share} {stmt : Stmt} {input : Input}
    (h : Crew limits preLedger external locals b) (hl : locals[i]? = some l)
    (hallow : (protocol limits preLedger).allow l stmt)
    (hhonest : HonestAnswer b stmt input)
    (hadopts : ∀ usd, stmt = .append (.floor usd) → b.stageLog ≠ 0 → external = false)
    (hpre : preLedger ≤ limits.maxBudget) :
    (protocol limits preLedger).answers l stmt (exec stmt input b).1 ∧
      Crew limits preLedger external
        (locals.set i ((protocol limits preLedger).next l stmt (exec stmt input b).1))
        (exec stmt input b).2 := by
  have hquiet : Crew limits preLedger external (locals.set i l) b := by
    rw [set_self hl]
    exact h
  cases stmt with
  | ledger =>
      exact h.exec_ledger hl
  | stageLog =>
      refine ⟨fun hsolo hnone => ?_, hquiet⟩
      obtain ⟨-, hledger, -, hsound⟩ := h.of_solo hl hsolo
      rw [hledger] at hnone
      exact (hsound.unadopted hnone).2
  | checks =>
      exact ⟨trivial, hquiet⟩
  | append row =>
      refine ⟨trivial, ?_⟩
      cases row with
      | floor usd => exact h.exec_adopt hl hallow (hadopts usd rfl) hpre
      | call row => exact h.exec_continue hl hallow
  | reserve stage iteration usd =>
      exact ⟨trivial, h.exec_reserve hl hallow (hhonest.1 stage iteration usd rfl)⟩
  | noStart callId =>
      refine ⟨trivial, ?_⟩
      have hlearn : ∀ answer, input.noStart = answer →
          Crew limits preLedger external
            (locals.set i ((protocol limits preLedger).next l (.noStart callId) answer))
            (b.close (settles (.noStart callId) input)) := by
        intro answer hanswer
        have hclose : settles (.noStart callId) input =
            if answer = .ok true then some (callId, 0) else none := by
          rw [← hanswer]
          rfl
        match answer with
        | .ok true =>
            exact h.learn hl hhonest.2 fun id cost hk => Or.inl (hclose.trans hk)
        | .ok false =>
            exact h.learn hl hhonest.2 fun id cost hk => Or.inr hk
        | .error e =>
            exact h.learn hl hhonest.2 fun id cost hk => Or.inr hk
      exact hlearn _ rfl
  | run callId =>
      refine ⟨trivial, ?_⟩
      have hlearn : ∀ answer, input.answer = answer →
          Crew limits preLedger external
            (locals.set i ((protocol limits preLedger).next l (.run callId) answer))
            (b.close (settles (.run callId) input)) := by
        intro answer hanswer
        match answer with
        | .ok (some cost) =>
            have hclose : settles (.run callId) input = some (callId, cost) := by
              simp [settles, hanswer]
            exact h.learn hl hhonest.2 fun id cost hk => Or.inl (hclose.trans hk)
        | .ok none =>
            exact h.learn hl hhonest.2 fun id cost hk => Or.inr hk
        | .error e =>
            exact h.learn hl hhonest.2 fun id cost hk => Or.inr hk
      exact hlearn _ rfl
  | observe callId =>
      exact ⟨trivial, h.learn hl hhonest.2 fun id cost hk => Or.inl hk⟩

/-! ## What is retained -/

theorem Retains.of_ledger {b b' : Books} (h : b'.ledger = b.ledger) : Retains b b' where
  floor := by
    rw [h]
    exact fun _ => id
  calls := by
    rw [h]
    exact fun record hmem => ⟨record, hmem, rfl, rfl⟩

theorem Retains.trans {b b' b'' : Books} (h : Retains b b') (h' : Retains b' b'') :
    Retains b b'' where
  floor := fun floor hfloor => h'.floor floor (h.floor floor hfloor)
  calls := by
    intro record hmem
    obtain ⟨r, hr, hid, hreserved⟩ := h.calls record hmem
    obtain ⟨r', hr', hid', hreserved'⟩ := h'.calls r hr
    exact ⟨r', hr', hid'.trans hid, hreserved'.trans hreserved⟩

/-- A row of a new call, or one that repeats the reservation of its call. -/
theorem retains_call {row : CallRow}
    (h : ∀ record ∈ records b.ledger, record.callId = row.callId →
      record.reservedUsd = row.reservedUsd) :
    Retains b { b with ledger := b.ledger ++ [.call row] } where
  floor := fun _ hfloor => floorUsd_append_of_some _ hfloor
  calls := by
    intro record hmem
    rw [records_append_call]
    by_cases hid : record.callId = row.callId
    · exact ⟨row, mem_upsert_self _ _, hid.symm, (h record hmem hid).symm⟩
    · exact ⟨record, mem_upsert_of_ne hmem hid, rfl, rfl⟩

/-- The call that a thread adds a row to is in the ledger. -/
theorem Crew.mem_of_unsettled {i : Nat} {l : Share} {record : CallRow}
    (h : Crew limits preLedger external locals b) (hl : locals[i]? = some l)
    (hrecord : l.Unsettled record) :
    record ∈ records b.ledger := by
  obtain ⟨-, hwhose⟩ := hrecord
  by_cases hsolo : l.solo = true
  · rw [if_pos hsolo] at hwhose
    rw [← (h.solo i l hl hsolo).2.1]
    exact hwhose
  · rw [if_neg hsolo] at hwhose
    exact (h.calls i l record hl (Bool.eq_false_iff.mpr hsolo) hwhose).1

/-- A statement that is allowed retains what is in the ledger. -/
theorem Crew.exec_retains {i : Nat} {l : Share} {stmt : Stmt} {input : Input}
    (h : Crew limits preLedger external locals b) (hl : locals[i]? = some l)
    (hallow : (protocol limits preLedger).allow l stmt)
    (hhonest : HonestAnswer b stmt input) :
    Retains b (Spending.exec stmt input b).2 := by
  have hclose : ∀ told, Retains b (b.close told) := by
    intro told
    cases told <;> exact .of_ledger rfl
  cases stmt with
  | ledger => exact .of_ledger rfl
  | stageLog => exact .of_ledger rfl
  | checks => exact .of_ledger rfl
  | noStart callId => exact hclose _
  | run callId => exact hclose _
  | observe callId => exact hclose _
  | reserve stage iteration usd =>
      refine retains_call fun record hmem hid => ?_
      refine absurd ?_ (hhonest.1 stage iteration usd rfl)
      exact List.mem_map.mpr ⟨record, hmem, hid⟩
  | append row =>
      cases row with
      | floor usd =>
          refine ⟨fun _ hfloor => floorUsd_append_of_some _ hfloor, fun record hmem => ?_⟩
          refine ⟨record, ?_, rfl, rfl⟩
          rw [show records (Spending.exec (.append (.floor usd)) input b).2.ledger =
            records b.ledger from records_append_floor _ _]
          exact hmem
      | call row =>
          obtain ⟨own, hown, hrow, -⟩ := hallow
          have hmem := h.mem_of_unsettled hl hown
          refine retains_call fun record hrecord hid => ?_
          have hsame : record = own := by
            refine List.inj_on_of_nodup_map (nodup_records b.ledger) hrecord hmem ?_
            rw [hid, hrow]
          rw [hsame, hrow]

end Crews

/-! ## Runs -/

/-- Every thread keeps to the protocol, and the crew is in order. -/
def Manned (limits : Limits) (preLedger : Nat) (s : Session) : Prop :=
  ∃ locals,
    Staffed (protocol limits preLedger) (Forked limits) locals s.threads ∧
      Crew limits preLedger s.external locals s.books

section Runs

variable {limits : Limits} {preLedger : Nat}

/-- Nobody owns the run. -/
theorem crew_nil {external : Bool} {b : Books} (h : Sound limits preLedger 0 b) :
    Crew limits preLedger external [] b := by
  constructor
  · exact h
  all_goals
    intros
    simp_all

theorem manned_begin : Manned limits preLedger (begin preLedger) :=
  ⟨[], .nil, crew_nil sound_initial⟩

/-- A process that takes up a job knows nothing yet. -/
theorem manned_start {job : Job} {promised : Nat} {b : Books}
    (h : Sound limits preLedger promised b) :
    Manned limits preLedger ⟨b, job.external, [job.prog limits]⟩ := by
  let l : Share := ⟨true, job.external, b.ledger, 0, none, none⟩
  have halone : l.Alone := ⟨rfl, fun hnone => (h.unadopted hnone).1⟩
  have hstarts : Starts limits l :=
    ⟨fun _ => halone, by rintro ⟨⟩, by rintro ⟨⟩⟩
  refine ⟨[l], .cons (job.prog_keeps hstarts rfl rfl) .nil, ?_⟩
  refine crew_single rfl (h.weaken (Nat.zero_le _)) rfl rfl ?_
  rintro callId cost ⟨⟩

/-- The siblings of a fork wave have a stage budget each. -/
theorem manned_spawn {ctx : Ctx} {iterations : List Nat} {external : Bool} {b : Books}
    (hsound : Sound limits preLedger (iterations.length * limits.perStage) b)
    (hctx : ctx.external = false) (hfloor : (floorUsd b.ledger).isSome) :
    Manned limits preLedger
      ⟨b, external, iterations.map (fun n => (Job.call ctx "build" n).prog limits)⟩ := by
  let l : Share := ⟨false, false, [], limits.perStage, none, none⟩
  have hstarts : Starts limits l := ⟨by rintro ⟨⟩, fun _ => rfl, fun _ => rfl⟩
  have hone : ∀ (i : Nat) m, (iterations.map (fun _ => l))[i]? = some m → m = l := by
    intro i m hm
    obtain ⟨n, -, rfl⟩ := List.mem_map.mp (List.mem_of_getElem? hm)
    rfl
  refine ⟨iterations.map (fun _ => l), ?_, ?_⟩
  · rw [Staffed, List.forall₂_map_left_iff, List.forall₂_map_right_iff]
    exact List.forall₂_same.mpr fun n _ => call_keeps ctx "build" n hstarts hctx.symm
  · constructor
    · simpa [l, Function.comp_def] using hsound
    · intro i m hm hsolo
      cases hone i m hm
      cases hsolo
    · exact fun _ _ _ _ => hfloor
    · intro i m row hm _ hcall
      cases hone i m hm
      cases hcall
    · intro i j m m' row row' hm _ hcall _ _
      cases hone i m hm
      cases hcall
    · intro i m callId cost hm hknown
      cases hone i m hm
      cases hknown

/-- Bills and log entries are nobody's statement. -/
theorem Crew.with_books {external : Bool} {locals : List Share} {b b' : Books}
    (h : Crew limits preLedger external locals b)
    (hsound : Sound limits preLedger (locals.map Share.share).sum b')
    (hledger : b'.ledger = b.ledger)
    (hclosed : ∀ callId, b.closed callId = true →
      b'.closed callId = true ∧ b'.bill callId = b.bill callId) :
    Crew limits preLedger external locals b' := by
  refine ⟨hsound, ?_, ?_, ?_, h.distinct, fun i l callId cost hl hk => ?_⟩
  · rw [hledger]
    exact h.solo
  · rw [hledger]
    exact h.siblings
  · rw [hledger]
    exact h.calls
  · obtain ⟨hc, hb⟩ := h.known i l callId cost hl hk
    exact ⟨(hclosed callId hc).1, (hclosed callId hc).2.trans hb⟩

theorem step_manned {s : Session} {m : Move} (hpre : preLedger ≤ limits.maxBudget)
    (h : Manned limits preLedger s) (hhonest : Honest s m) (hadopts : Adopts s m) :
    Manned limits preLedger (step limits s m) := by
  obtain ⟨locals, hstaffed, hcrew⟩ := h
  cases m with
  | start job =>
      simp only [step]
      split
      · exact manned_start hcrew.sound
      · exact ⟨locals, hstaffed, hcrew⟩
  | spawn iterations =>
      simp only [step]
      split
      · rename_i ctx pending hthreads
        split
        · rename_i hle
          rw [hthreads] at hstaffed
          obtain ⟨l, rest, hkeeps, hrest, rfl⟩ :=
            List.forall₂_cons_left_iff.mp (show List.Forall₂ _ [_] locals from hstaffed)
          obtain ⟨hsolo, hctx, floor, hfloor, hcovers⟩ := hkeeps ctx pending rfl
          obtain ⟨-, hledger, -⟩ := hcrew.solo 0 l rfl hsolo
          rw [hledger] at hfloor hcovers
          refine manned_spawn (hcrew.sound.covers fun floor' hfloor' => ?_) hctx ?_
          · cases hfloor.symm.trans hfloor'
            have := Nat.mul_le_mul_right limits.perStage hle
            omega
          · rw [hfloor]
            rfl
        · exact ⟨locals, hstaffed, hcrew⟩
      · exact ⟨locals, hstaffed, hcrew⟩
  | run thread input =>
      refine runThread_staffed (fun stmt k l hstmt hl hallow => ?_) hstaffed hcrew
      refine hcrew.exec hl hallow (hhonest stmt k hstmt) ?_ hpre
      rintro usd rfl
      exact hadopts usd k hstmt
  | kill =>
      exact ⟨[], .nil, crew_nil (hcrew.sound.weaken (Nat.zero_le _))⟩
  | bill callId amount =>
      obtain ⟨hopen, record, hmem, hid, hle⟩ := hhonest
      refine ⟨locals, hstaffed, hcrew.with_books ?_ rfl fun id hc => ?_⟩
      · exact hcrew.sound.billCall hopen hmem hid hle
      · refine ⟨hc, Function.update_of_ne ?_ _ _⟩
        rintro rfl
        rw [hopen] at hc
        cases hc
  | logged cost =>
      simp only [step]
      split
      · rename_i hfloor
        exact ⟨locals, hstaffed,
          hcrew.with_books (hcrew.sound.logged cost hfloor) rfl fun _ hc => ⟨hc, rfl⟩⟩
      · exact ⟨locals, hstaffed, hcrew⟩

theorem step_retains {s : Session} {m : Move}
    (h : Manned limits preLedger s) (hhonest : Honest s m) :
    Retains s.books (step limits s m).books := by
  obtain ⟨locals, hstaffed, hcrew⟩ := h
  cases m with
  | start job =>
      simp only [step]
      split <;> exact .of_ledger rfl
  | spawn iterations =>
      simp only [step]
      split
      · split <;> exact .of_ledger rfl
      · exact .of_ledger rfl
  | run thread input =>
      simp only [step]
      rcases runThread_cases exec thread input s.threads s.books with
        heq | ⟨stmt, k, hstmt, heq⟩
      · rw [heq]
        exact .of_ledger rfl
      · obtain ⟨l, hl, hallow, -⟩ := forall₂_getElem? hstaffed hstmt
        rw [heq]
        exact hcrew.exec_retains hl hallow (hhonest stmt k hstmt)
  | kill => exact .of_ledger rfl
  | bill callId amount => exact .of_ledger rfl
  | logged cost =>
      simp only [step]
      split <;> exact .of_ledger rfl

/--
**The ceiling of a run.**  As long as no process with an external agent adopts
the floor of a run with earlier cost, what was spent is charged and stays
within the ceiling, and no floor, call or reservation is ever forgotten.
-/
theorem ceiling_holds
    {moves : List Move}
    (hpre : preLedger ≤ limits.maxBudget)
    (hmoves : AlongRun (step limits) (fun s m => Honest s m ∧ Adopts s m)
      (begin preLedger) moves) :
    EveryState (step limits) (fun s => Within limits preLedger s.books)
        (begin preLedger) moves ∧
      ∀ before later, moves = before ++ later →
        Retains (after limits preLedger before).books
          (after limits preLedger moves).books := by
  have hstep : ∀ s m, Manned limits preLedger s → Honest s m ∧ Adopts s m →
      Manned limits preLedger (step limits s m) :=
    fun s m hs hm => step_manned hpre hs hm.1 hm.2
  constructor
  · have hmanned := EveryState.of_step hstep manned_begin hmoves
    rw [everyState_iff] at hmanned ⊢
    intro before later heq
    obtain ⟨locals, -, hcrew⟩ := hmanned before later heq
    exact hcrew.sound.within
  · rintro before later rfl
    obtain ⟨hbefore, hlater⟩ := (alongRun_append _ _ _ _ _).mp hmoves
    have hmid := runFrom_invariant hstep manned_begin hbefore
    have hboth := runFrom_invariant
      (P := fun s => Manned limits preLedger s ∧
        Retains (after limits preLedger before).books s.books)
      (fun s m hs hm => ⟨hstep s m hs.1 hm, hs.2.trans (step_retains hs.1 hm.1)⟩)
      ⟨hmid, .of_ledger rfl⟩ hlater
    rw [show after limits preLedger (before ++ later) = _ from runFrom_append _ _ _ _]
    exact hboth.2

/-- A stage of a run that had spent 5 calls the agent, and is killed behind the bill. -/
theorem ceiling_holds_killed :
    EveryState (step ⟨8, 2⟩) (fun s => Within ⟨8, 2⟩ 5 s.books) (begin 5)
        ([.start (.call ⟨0, false, false, false, false⟩ "specify" 0)] ++
          List.replicate 8 (.run 0 { callId := "call-1" }) ++ [.bill "call-1" 2, .kill]) ∧
      ∀ before later,
        [Move.start (.call ⟨0, false, false, false, false⟩ "specify" 0)] ++
          List.replicate 8 (.run 0 { callId := "call-1" }) ++ [.bill "call-1" 2, .kill] =
            before ++ later →
        Retains (after ⟨8, 2⟩ 5 before).books
          (after ⟨8, 2⟩ 5
            ([.start (.call ⟨0, false, false, false, false⟩ "specify" 0)] ++
              List.replicate 8 (.run 0 { callId := "call-1" }) ++
              [.bill "call-1" 2, .kill])).books :=
  ceiling_holds (by decide) (by decide +kernel)

/-- An external agent adopts no floor for what the run spent before its ledger. -/
theorem ceiling_fails_external :
    AlongRun (step ⟨8, 8⟩) Honest (begin 5)
        ([.start (.call ⟨0, false, true, false, false⟩ "specify" 0)] ++
          List.replicate 9 (.run 0 { callId := "call-1" }) ++ [.bill "call-1" 8]) ∧
      ¬ EveryState (step ⟨8, 8⟩) (fun s => Within ⟨8, 8⟩ 5 s.books) (begin 5)
        ([.start (.call ⟨0, false, true, false, false⟩ "specify" 0)] ++
          List.replicate 9 (.run 0 { callId := "call-1" }) ++ [.bill "call-1" 8]) := by
  refine ⟨by decide +kernel, fun h => ?_⟩
  have hcharged := h.last.charged 0 (by decide +kernel)
  exact absurd hcharged (by decide +kernel)

end Runs

end Spending
end SwFactory
