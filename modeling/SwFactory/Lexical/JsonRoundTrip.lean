import SwFactory.Lexical.JsonText

/-!
# JSON text: what is printed is read back

The reader inverts the writer, for values whose objects are dictionaries; no
proper part of a printed object can be read; and a printed value has only
printable characters and those of its strings.
-/

namespace SwFactory
namespace Lexical
namespace Json

/-! ## Dictionaries -/

def Members.append : Members → Members → Members
  | .nil, other => other
  | .cons k v tail, other => .cons k v (tail.append other)

theorem Members.append_nil : (ms : Members) → ms.append .nil = ms
  | .nil => rfl
  | .cons k v tail => congrArg (Members.cons k v) tail.append_nil

theorem Members.append_assoc :
    (a b c : Members) → (a.append b).append c = a.append (b.append c)
  | .nil, _, _ => rfl
  | .cons k v tail, b, c => congrArg (Members.cons k v) (tail.append_assoc b c)

theorem Members.lacks_append :
    (a b : Members) → (key : Str) →
      (a.append b).lacks key = (a.lacks key && b.lacks key)
  | .nil, b, key => by
      simp [Members.append, Members.lacks]
  | .cons k v tail, b, key => by
      simp [Members.append, Members.lacks, tail.lacks_append b key, Bool.and_assoc]

theorem Members.set_of_lacks :
    (dict : Members) → (key : Str) → (v : Value) → dict.lacks key = true →
      dict.set key v = dict.append (.cons key v .nil)
  | .nil, _, _, _ => rfl
  | .cons k w tail, key, v, h => by
      simp only [Members.lacks, Bool.and_eq_true, bne_iff_ne] at h
      simp only [Members.set, if_neg h.1, Members.append, tail.set_of_lacks key v h.2]

/-- The members of a dictionary, inserted in order, are the dictionary. -/
theorem Members.into_eq {ok : Nat → Bool} :
    (ms dict : Members) → plainMembers ok ms = true →
      (∀ key, ms.lacks key = false → dict.lacks key = true) →
      dict.into ms = dict.append ms
  | .nil, dict, _, _ => dict.append_nil.symm
  | .cons k v tail, dict, hms, hfresh => by
      simp only [plainMembers, Bool.and_eq_true] at hms
      obtain ⟨⟨⟨-, hlacks⟩, -⟩, htail⟩ := hms
      have hk : dict.lacks k = true := hfresh k (by simp [Members.lacks])
      have hfresh' : ∀ key, tail.lacks key = false →
          (dict.append (.cons k v .nil)).lacks key = true := by
        intro key hkey
        have hne : k ≠ key := by
          rintro rfl
          rw [hlacks] at hkey
          cases hkey
        rw [Members.lacks_append, hfresh key (by simp [Members.lacks, hkey])]
        simp [Members.lacks, hne]
      rw [Members.into, dict.set_of_lacks k v hk, Members.into_eq tail _ htail hfresh',
        Members.append_assoc]
      rfl

/-! ## Fuel -/

mutual

/-- Fuel enough to read the value. -/
def weight : Value → Nat
  | .array items => 1 + weightItems items
  | .object members => 1 + weightMembers members
  | _ => 1

def weightItems : Items → Nat
  | .nil => 0
  | .cons v tail => 1 + weight v + weightItems tail

def weightMembers : Members → Nat
  | .nil => 0
  | .cons _ v tail => 1 + weight v + weightMembers tail

end

theorem literal_ne_nil (literal : Literal) : literal.1 ≠ [] := by
  intro hnil
  have h := literal.2
  rw [hnil] at h
  cases h

mutual

theorem weight_le : (v : Value) → weight v ≤ (dumps v).length
  | .null => by decide
  | .bool true => by decide
  | .bool false => by decide
  | .nan => by decide
  | .infinity false => by decide
  | .infinity true => by decide
  | .number literal => List.length_pos_iff.mpr (literal_ne_nil literal)
  | .string text => by simp [weight, dumps, dumpString]
  | .array items => by
      have := weightItems_le items
      simp only [weight, dumps, List.cons_append, List.length_cons, List.length_append,
        List.length_nil]
      omega
  | .object members => by
      have := weightMembers_le members
      simp only [weight, dumps, List.cons_append, List.length_cons, List.length_append,
        List.length_nil]
      omega

theorem weightItems_le : (xs : Items) → weightItems xs ≤ (dumpItems xs).length + 1
  | .nil => by simp [weightItems]
  | .cons v .nil => by
      have := weight_le v
      simp only [weightItems, dumpItems]
      omega
  | .cons v (.cons w tail) => by
      have := weight_le v
      have := weightItems_le (.cons w tail)
      simp only [weightItems, dumpItems, List.length_append, List.length_cons] at *
      omega

theorem weightMembers_le : (ms : Members) → weightMembers ms ≤ (dumpMembers ms).length
  | .nil => by simp [weightMembers]
  | .cons key v .nil => by
      have := weight_le v
      simp only [weightMembers, dumpMembers, List.length_append, List.length_cons]
      omega
  | .cons key v (.cons k w tail) => by
      have := weight_le v
      have := weightMembers_le (.cons k w tail)
      simp only [weightMembers, dumpMembers, List.length_append, List.length_cons] at *
      omega

end

/-! ## The first character -/

/-- The character starts a value. -/
def Opens (c : Nat) : Prop :=
  isSpace c = false ∧ c ≠ cp ']' ∧ c ≠ cp '}'

theorem literal_opens (literal : Literal) :
    ∃ c rest, literal.1 = c :: rest ∧ Opens c ∧ c ≠ cp '"' ∧ c ≠ cp '[' ∧ c ≠ cp '{' := by
  have hdigit : ∀ {d : Nat}, isDigit d = true →
      Opens d ∧ d ≠ cp '"' ∧ d ≠ cp '[' ∧ d ≠ cp '{' := by
    intro d hd
    have hne : ∀ c, isDigit c = false → d ≠ c := by
      rintro c hc rfl
      rw [hd] at hc
      cases hc
    refine ⟨⟨?_, hne _ (by decide), hne _ (by decide)⟩, hne _ (by decide),
      hne _ (by decide), hne _ (by decide)⟩
    simp only [isSpace, Bool.or_eq_false_iff, beq_eq_false_iff_ne]
    exact ⟨⟨⟨hne _ (by decide), hne _ (by decide)⟩, hne _ (by decide)⟩, hne _ (by decide)⟩
  rcases number_head literal.2 with ⟨d, rest, heq, hd⟩ | ⟨d, rest, heq, hd⟩
  · exact ⟨d, rest, heq, hdigit hd⟩
  · exact ⟨cp '-', d :: rest, heq, by unfold Opens; decide, by decide, by decide, by decide⟩

theorem dumps_opens (v : Value) : ∃ c rest, dumps v = c :: rest ∧ Opens c := by
  cases v with
  | null => exact ⟨_, _, rfl, by unfold Opens; decide⟩
  | bool b => cases b <;> exact ⟨_, _, rfl, by unfold Opens; decide⟩
  | number literal =>
      obtain ⟨c, rest, heq, hopens, -⟩ := literal_opens literal
      exact ⟨c, rest, heq, hopens⟩
  | nan => exact ⟨_, _, rfl, by unfold Opens; decide⟩
  | infinity b => cases b <;> exact ⟨_, _, rfl, by unfold Opens; decide⟩
  | string text => exact ⟨_, _, rfl, by unfold Opens; decide⟩
  | array items => exact ⟨_, _, rfl, by unfold Opens; decide⟩
  | object members => exact ⟨_, _, rfl, by unfold Opens; decide⟩

theorem skipSpace_dumps (v : Value) (rest : Str) :
    skipSpace (dumps v ++ rest) = dumps v ++ rest := by
  obtain ⟨c, front, heq, hopens, -⟩ := dumps_opens v
  rw [heq, List.cons_append, skipSpace, List.dropWhile_cons, hopens]
  rfl

theorem skipSpace_of_not {c : Nat} (h : isSpace c = false) (rest : Str) :
    skipSpace (c :: rest) = c :: rest := by
  rw [skipSpace, List.dropWhile_cons, h]
  rfl

/-! ## Reading back -/

theorem scalar_literal (literal : Literal) {rest : Str} (hstop : Stops rest) :
    scalar (literal.1 ++ rest) = some (.number literal, rest) := by
  have hnumber : number (literal.1 ++ rest) = some (literal.1, rest) := by
    have := number_append literal.2 (t := rest) hstop
    simpa using this
  rw [scalar, takeWord_of_number hnumber, Option.none_or, takeNumber, hnumber]
  exact dif_pos literal.2

theorem stops_of_ne {c : Nat} {rest : Str}
    (hc : c = cp ']' ∨ c = cp '}' ∨ c = cp ',') : Stops (c :: rest) := by
  rintro _ ⟨⟩
  rcases hc with rfl | rfl | rfl <;> decide

/-- One more item. -/
theorem items_cons {fuel : Nat} {v : Value} {s rest rest' : Str} {d : Nat}
    (hvalue : value fuel s = some (v, rest))
    (hspace : skipSpace rest = d :: rest') :
    items (fuel + 1) s =
      if d = cp ']' then
        some (.cons v .nil, rest')
      else if d = cp ',' then
        (items fuel (skipSpace rest')).map (fun cut => (.cons v cut.1, cut.2))
      else
        none := by
  rw [items, hvalue]
  dsimp only
  rw [hspace]

/-- One more member. -/
theorem members_step {fuel : Nat} {key : Str} {v : Value} {s s' t rest rest' : Str} {d : Nat}
    (hkey : string s = some (key, s'))
    (hcolon : skipSpace s' = cp ':' :: t)
    (hvalue : value fuel (skipSpace t) = some (v, rest))
    (hspace : skipSpace rest = d :: rest') :
    members (fuel + 1) (cp '"' :: s) =
      if d = cp '}' then
        some (.cons key v .nil, rest')
      else if d = cp ',' then
        (members fuel (skipSpace rest')).map (fun cut => (.cons key v cut.1, cut.2))
      else
        none := by
  rw [members, if_pos rfl, hkey]
  dsimp only
  rw [hcolon]
  dsimp only
  rw [if_pos rfl, hvalue]
  dsimp only
  rw [hspace]

theorem members_cons {fuel : Nat} {key : Str} {v : Value} {rest rest' : Str} {d : Nat}
    (hvalue : value fuel (dumps v ++ rest) = some (v, rest))
    (hspace : skipSpace rest = d :: rest') :
    members (fuel + 1) (dumpString key ++ cp ':' :: dumps v ++ rest) =
      if d = cp '}' then
        some (.cons key v .nil, rest')
      else if d = cp ',' then
        (members fuel (skipSpace rest')).map (fun cut => (.cons key v cut.1, cut.2))
      else
        none := by
  have hshape : dumpString key ++ cp ':' :: dumps v ++ rest =
      cp '"' :: ((dumpString key).tail ++ (cp ':' :: (dumps v ++ rest))) := by
    simp [dumpString]
  rw [hshape]
  exact members_step (string_dumpString key _) (skipSpace_of_not (by decide) _)
    (by rw [skipSpace_dumps, hvalue]) hspace

theorem skipSpace_dumpItems (v : Value) (tail : Items) (rest : Str) :
    skipSpace (dumpItems (.cons v tail) ++ rest) = dumpItems (.cons v tail) ++ rest := by
  cases tail with
  | nil =>
      exact skipSpace_dumps v rest
  | cons w tail =>
      simp only [dumpItems, List.append_assoc]
      exact skipSpace_dumps v _

theorem dumpItems_opens (v : Value) (tail : Items) (rest : Str) :
    ∃ c front, dumpItems (.cons v tail) ++ rest = c :: front ∧ Opens c := by
  obtain ⟨c, front, heq, hopens⟩ := dumps_opens v
  cases tail with
  | nil => exact ⟨c, front ++ rest, by simp [dumpItems, heq], hopens⟩
  | cons w tail =>
      exact ⟨c, front ++ cp ',' :: dumpItems (.cons w tail) ++ rest,
        by simp [dumpItems, heq], hopens⟩

theorem dumpMembers_opens (key : Str) (v : Value) (tail : Members) (rest : Str) :
    ∃ front, dumpMembers (.cons key v tail) ++ rest = cp '"' :: front := by
  cases tail with
  | nil => exact ⟨_, by simp [dumpMembers, dumpString]; rfl⟩
  | cons k w tail => exact ⟨_, by simp [dumpMembers, dumpString]; rfl⟩

section ReadBack

variable {ok : Nat → Bool}

mutual

/-- **A printed value is read back**, in front of a text that stops. -/
theorem value_dumps : (v : Value) → plain ok v = true →
    ∀ (fuel : Nat) (rest : Str), weight v ≤ fuel → Stops rest →
      value fuel (dumps v ++ rest) = some (v, rest)
  | .null, _ => by
      intro fuel rest hfuel _
      obtain ⟨fuel, rfl⟩ : ∃ k, fuel = k + 1 := ⟨fuel - 1, by simp [weight] at hfuel; omega⟩
      rfl
  | .bool true, _ => by
      intro fuel rest hfuel _
      obtain ⟨fuel, rfl⟩ : ∃ k, fuel = k + 1 := ⟨fuel - 1, by simp [weight] at hfuel; omega⟩
      rfl
  | .bool false, _ => by
      intro fuel rest hfuel _
      obtain ⟨fuel, rfl⟩ : ∃ k, fuel = k + 1 := ⟨fuel - 1, by simp [weight] at hfuel; omega⟩
      rfl
  | .number literal, _ => by
      intro fuel rest hfuel hstop
      obtain ⟨fuel, rfl⟩ : ∃ k, fuel = k + 1 := ⟨fuel - 1, by simp [weight] at hfuel; omega⟩
      obtain ⟨c, front, heq, -, hquote, hbracket, hbrace⟩ := literal_opens literal
      have hscalar := scalar_literal literal hstop
      rw [dumps, heq, List.cons_append, value, if_neg hquote, if_neg hbracket,
        if_neg hbrace, ← List.cons_append, ← heq, hscalar]
  | .nan, h => by simp [plain] at h
  | .infinity _, h => by simp [plain] at h
  | .string text, _ => by
      intro fuel rest hfuel _
      obtain ⟨fuel, rfl⟩ : ∃ k, fuel = k + 1 := ⟨fuel - 1, by simp [weight] at hfuel; omega⟩
      have hshape : dumpString text ++ rest =
          cp '"' :: ((dumpString text).tail ++ rest) := by
        simp [dumpString]
      rw [dumps, hshape, value, if_pos rfl, string_dumpString]
      rfl
  | .array .nil, _ => by
      intro fuel rest hfuel _
      obtain ⟨fuel, rfl⟩ : ∃ k, fuel = k + 1 := ⟨fuel - 1, by simp [weight] at hfuel; omega⟩
      rfl
  | .array (.cons v tail), h => by
      intro fuel rest hfuel _
      simp only [weight] at hfuel
      obtain ⟨fuel, rfl⟩ : ∃ k, fuel = k + 1 := ⟨fuel - 1, by omega⟩
      have hitems := items_dumps (.cons v tail) (by simpa [plain] using h) (by simp)
        fuel rest (by omega)
      obtain ⟨c, front, heq, hopens⟩ := dumpItems_opens v tail (cp ']' :: rest)
      have hshape : dumps (.array (.cons v tail)) ++ rest =
          cp '[' :: (dumpItems (.cons v tail) ++ cp ']' :: rest) := by
        simp [dumps]
      rw [hshape, value, if_neg (by decide), if_pos rfl, skipSpace_dumpItems, heq]
      dsimp only
      rw [if_neg hopens.2.1, ← heq, hitems]
      rfl
  | .object .nil, _ => by
      intro fuel rest hfuel _
      obtain ⟨fuel, rfl⟩ : ∃ k, fuel = k + 1 := ⟨fuel - 1, by simp [weight] at hfuel; omega⟩
      rfl
  | .object (.cons key v tail), h => by
      intro fuel rest hfuel _
      simp only [weight] at hfuel
      obtain ⟨fuel, rfl⟩ : ∃ k, fuel = k + 1 := ⟨fuel - 1, by omega⟩
      have hplain : plainMembers ok (.cons key v tail) = true := by simpa [plain] using h
      have hmembers := members_dumps (.cons key v tail) hplain (by simp)
        fuel rest (by omega)
      obtain ⟨front, heq⟩ := dumpMembers_opens key v tail (cp '}' :: rest)
      have hshape : dumps (.object (.cons key v tail)) ++ rest =
          cp '{' :: (dumpMembers (.cons key v tail) ++ cp '}' :: rest) := by
        simp [dumps]
      have hinto : Members.nil.into (.cons key v tail) = .cons key v tail :=
        Members.into_eq _ _ hplain (fun _ _ => rfl)
      rw [hshape, value, if_neg (by decide), if_neg (by decide), if_pos rfl, heq,
        skipSpace_of_not (by decide)]
      dsimp only
      rw [if_neg (by decide), ← heq, hmembers]
      simp [hinto]

theorem items_dumps : (xs : Items) → plainItems ok xs = true → xs ≠ .nil →
    ∀ (fuel : Nat) (rest : Str), weightItems xs ≤ fuel →
      items fuel (dumpItems xs ++ cp ']' :: rest) = some (xs, rest)
  | .nil, _, h => absurd rfl h
  | .cons v .nil, h, _ => by
      intro fuel rest hfuel
      simp only [weightItems] at hfuel
      simp only [plainItems, Bool.and_eq_true] at h
      obtain ⟨fuel, rfl⟩ : ∃ k, fuel = k + 1 := ⟨fuel - 1, by omega⟩
      have hvalue := value_dumps v h.1 fuel (cp ']' :: rest) (by omega)
        (stops_of_ne (Or.inl rfl))
      rw [dumpItems, items_cons hvalue (skipSpace_of_not (by decide) rest)]
      exact if_pos rfl
  | .cons v (.cons w tail), h, _ => by
      intro fuel rest hfuel
      simp only [weightItems] at hfuel
      simp only [plainItems, Bool.and_eq_true] at h
      obtain ⟨fuel, rfl⟩ : ∃ k, fuel = k + 1 := ⟨fuel - 1, by omega⟩
      have hvalue := value_dumps v h.1 fuel
        (cp ',' :: (dumpItems (.cons w tail) ++ cp ']' :: rest)) (by omega)
        (stops_of_ne (Or.inr (Or.inr rfl)))
      have htail := items_dumps (.cons w tail) (by simpa [plainItems] using h.2) (by simp)
        fuel rest (by simp only [weightItems]; omega)
      have hshape : dumpItems (.cons v (.cons w tail)) ++ cp ']' :: rest =
          dumps v ++ (cp ',' :: (dumpItems (.cons w tail) ++ cp ']' :: rest)) := by
        simp [dumpItems]
      rw [hshape, items_cons hvalue (skipSpace_of_not (by decide) _), if_neg (by decide),
        if_pos rfl, skipSpace_dumpItems, htail]
      rfl

theorem members_dumps : (ms : Members) → plainMembers ok ms = true → ms ≠ .nil →
    ∀ (fuel : Nat) (rest : Str), weightMembers ms ≤ fuel →
      members fuel (dumpMembers ms ++ cp '}' :: rest) = some (ms, rest)
  | .nil, _, h => absurd rfl h
  | .cons key v .nil, h, _ => by
      intro fuel rest hfuel
      simp only [weightMembers] at hfuel
      simp only [plainMembers, Bool.and_eq_true] at h
      obtain ⟨fuel, rfl⟩ : ∃ k, fuel = k + 1 := ⟨fuel - 1, by omega⟩
      have hvalue := value_dumps v h.1.2 fuel (cp '}' :: rest) (by omega)
        (stops_of_ne (Or.inr (Or.inl rfl)))
      rw [dumpMembers, members_cons hvalue (skipSpace_of_not (by decide) rest)]
      exact if_pos rfl
  | .cons key v (.cons k w tail), h, _ => by
      intro fuel rest hfuel
      simp only [weightMembers] at hfuel
      have hplain := h
      simp only [plainMembers, Bool.and_eq_true] at h
      obtain ⟨fuel, rfl⟩ : ∃ k, fuel = k + 1 := ⟨fuel - 1, by omega⟩
      have hvalue := value_dumps v h.1.2 fuel
        (cp ',' :: (dumpMembers (.cons k w tail) ++ cp '}' :: rest)) (by omega)
        (stops_of_ne (Or.inr (Or.inr rfl)))
      have htail := members_dumps (.cons k w tail)
        (by simpa [plainMembers] using h.2) (by simp)
        fuel rest (by simp only [weightMembers]; omega)
      have hshape : dumpMembers (.cons key v (.cons k w tail)) ++ cp '}' :: rest =
          dumpString key ++ cp ':' :: dumps v ++
            (cp ',' :: (dumpMembers (.cons k w tail) ++ cp '}' :: rest)) := by
        simp [dumpMembers]
      obtain ⟨front, heq⟩ := dumpMembers_opens k w tail (cp '}' :: rest)
      rw [hshape, members_cons hvalue (skipSpace_of_not (by decide) _), if_neg (by decide),
        if_pos rfl, heq, skipSpace_of_not (by decide), ← heq, htail]
      rfl

end

/-- **Round trip.** -/
theorem loads_dumps {v : Value} (h : plain ok v = true) : loads (dumps v) = some v := by
  have hstop : Stops ([] : Str) := by rintro c ⟨⟩
  have hvalue := value_dumps v h ((dumps v).length + 1) []
    (by have := weight_le v; omega) hstop
  have hspace := skipSpace_dumps v []
  rw [List.append_nil] at hvalue hspace
  rw [loads, hspace, hvalue]
  rfl

/-- What starts with a brace is read as an object. -/
theorem isNumber_of_brace {fuel : Nat} {s r : Str} {v : Value}
    (h : value fuel (cp '{' :: s) = some (v, r)) : v.isNumber = false := by
  cases fuel with
  | zero =>
      cases h
  | succ fuel =>
      rw [value, if_neg (by decide), if_neg (by decide), if_pos rfl] at h
      split at h
      · cases h
      split at h
      · cases h
        rfl
      · obtain ⟨cut, -, heq⟩ := Option.map_eq_some_iff.mp h
        cases heq
        rfl

/-- **No proper part of a printed object can be read.** -/
theorem loads_part {ms : Members} (h : plain ok (.object ms) = true) {front rest : Str}
    (hpart : dumps (.object ms) = front ++ rest) (hrest : rest ≠ []) :
    loads front = none := by
  cases front with
  | nil =>
      rfl
  | cons c front =>
      have hbrace : c = cp '{' := by
        rw [dumps, List.cons_append, List.cons_append] at hpart
        exact (List.cons.inj hpart).1.symm
      subst hbrace
      rw [loads, skipSpace_of_not (by decide)]
      cases hvalue : value ((cp '{' :: front).length + 1) (cp '{' :: front) with
      | none =>
          rfl
      | some cut =>
          obtain ⟨v, r⟩ := cut
          dsimp only
          have hnumber := isNumber_of_brace hvalue
          have hstop : Stops ([] : Str) := by rintro c ⟨⟩
          have hlong : value ((cp '{' :: front).length + 1 + weight (.object ms))
              (cp '{' :: front ++ rest) = some (v, r ++ rest) :=
            (extends_all _).value hvalue (by omega) (by rw [hnumber]; exact nofun)
          have hwhole := value_dumps (.object ms) h
            ((cp '{' :: front).length + 1 + weight (.object ms)) [] (by omega) hstop
          rw [List.append_nil, hpart, hlong] at hwhole
          have hnil : r ++ rest = [] := congrArg Prod.snd (Option.some.inj hwhole)
          exact absurd (List.append_eq_nil_iff.mp hnil).2 hrest

/-! ## The characters of a printed value -/

variable {P : Nat → Prop}

/-- Printable ASCII. -/
def Printable (c : Nat) : Prop :=
  0x20 ≤ c ∧ c < 0x7f

instance (c : Nat) : Decidable (Printable c) :=
  inferInstanceAs (Decidable (_ ∧ _))

theorem printable_digit {c : Nat} (h : isDigit c = true) : Printable c := by
  simp only [isDigit, Bool.and_eq_true, decide_eq_true_eq] at h
  change 48 ≤ c ∧ c ≤ 57 at h
  unfold Printable
  omega

theorem digits_chars (s : Str) : ∀ c ∈ (digits s).1, Printable c := by
  intro c hc
  have hall := List.all_takeWhile (p := isDigit) (l := s)
  exact printable_digit (List.all_eq_true.mp hall c hc)

theorem takeNat_chars {s int r : Str} (h : takeNat s = some (int, r)) :
    ∀ c ∈ int, Printable c := by
  cases s with
  | nil =>
      cases h
  | cons d rest =>
      simp only [takeNat] at h
      split at h
      · rename_i hd
        cases h
        rintro c (_ | ⟨_, ⟨⟩⟩)
        rw [hd]
        decide
      split at h
      · rename_i hd
        cases h
        rintro c (_ | ⟨_, hc⟩)
        · exact printable_digit hd
        · exact digits_chars rest c hc
      · cases h

theorem takeInt_chars {s int r : Str} (h : takeInt s = some (int, r)) :
    ∀ c ∈ int, Printable c := by
  cases s with
  | nil =>
      cases h
  | cons d rest =>
      simp only [takeInt] at h
      split at h
      · rename_i hd
        obtain ⟨⟨int', r'⟩, hcut, heq⟩ := Option.map_eq_some_iff.mp h
        cases heq
        rintro c (_ | ⟨_, hc⟩)
        · rw [hd]
          decide
        · exact takeNat_chars hcut c hc
      · exact takeNat_chars h

theorem takeFraction_chars (s : Str) : ∀ c ∈ (takeFraction s).1, Printable c := by
  intro c hc
  cases s with
  | nil =>
      cases hc
  | cons d rest =>
      simp only [takeFraction] at hc
      split at hc
      · rename_i hd
        rcases List.mem_cons.mp hc with rfl | hc
        · rw [hd.1]
          decide
        · exact digits_chars rest c hc
      · cases hc

theorem takeSign_chars (s : Str) : ∀ c ∈ (takeSign s).1, Printable c := by
  intro c hc
  cases s with
  | nil =>
      cases hc
  | cons d rest =>
      simp only [takeSign] at hc
      split at hc
      · rename_i hd
        rw [List.mem_singleton.mp hc]
        rcases hd with rfl | rfl <;> decide
      · cases hc

theorem takeExponent_chars (s : Str) : ∀ c ∈ (takeExponent s).1, Printable c := by
  intro c hc
  cases s with
  | nil =>
      cases hc
  | cons d rest =>
      simp only [takeExponent] at hc
      split at hc
      · rename_i hd
        rcases List.mem_append.mp hc with hc | hc
        · rcases List.mem_cons.mp hc with rfl | hc
          · rcases hd.1 with rfl | rfl <;> decide
          · exact takeSign_chars rest c hc
        · exact digits_chars _ c hc
      · cases hc

theorem number_chars {s literal r : Str} (h : number s = some (literal, r)) :
    ∀ c ∈ literal, Printable c := by
  unfold number at h
  split at h
  · cases h
  rename_i int rest htake
  dsimp only at h
  split at h
  · cases h
  cases h
  intro c hc
  rcases List.mem_append.mp hc with hc | hc
  · rcases List.mem_append.mp hc with hc | hc
    · exact takeInt_chars htake c hc
    · exact takeFraction_chars _ c hc
  · exact takeExponent_chars _ c hc

theorem escape_chars (hascii : ∀ c, Printable c → P c)
    (hok : ∀ c, ok c = true → 0x20 ≤ c → P c) {c : Nat} (hc : ok c = true) :
    ∀ d ∈ escape c, P d := by
  have hhex : ∀ n < 16, Printable (hexDigit n) := by decide
  have hpair : ∀ e, Printable e → ∀ d ∈ [cp '\\', e], P d := by
    intro e he d hd
    rcases List.mem_cons.mp hd with rfl | hd
    · exact hascii _ (by decide)
    · rw [List.mem_singleton.mp hd]
      exact hascii e he
  intro d hd
  unfold escape at hd
  split at hd
  · exact hpair _ (by decide) d hd
  split at hd
  · exact hpair _ (by decide) d hd
  split at hd
  · exact hpair _ (by decide) d hd
  split at hd
  · exact hpair _ (by decide) d hd
  split at hd
  · exact hpair _ (by decide) d hd
  split at hd
  · exact hpair _ (by decide) d hd
  split at hd
  · exact hpair _ (by decide) d hd
  split at hd
  · rename_i hcontrol
    have h₁ := hhex (c / 16) (by omega)
    have h₂ := hhex (c % 16) (by omega)
    simp only [List.mem_cons, List.not_mem_nil, or_false] at hd
    rcases hd with rfl | rfl | rfl | rfl | rfl | rfl
    · exact hascii _ (by decide)
    · exact hascii _ (by decide)
    · exact hascii _ (by decide)
    · exact hascii _ (by decide)
    · exact hascii _ h₁
    · exact hascii _ h₂
  · rename_i hcontrol
    rw [List.mem_singleton.mp hd]
    exact hok c hc (by omega)

theorem dumpString_chars (hascii : ∀ c, Printable c → P c)
    (hok : ∀ c, ok c = true → 0x20 ≤ c → P c) {text : Str} (htext : text.all ok = true) :
    ∀ c ∈ dumpString text, P c := by
  intro c hc
  have hquote : P (cp '"') := hascii _ (by decide)
  simp only [dumpString, List.cons_append, List.mem_cons, List.mem_append,
    List.mem_flatMap, List.not_mem_nil, or_false] at hc
  rcases hc with rfl | ⟨d, hd, hc⟩ | rfl
  · exact hquote
  · exact escape_chars hascii hok (List.all_eq_true.mp htext d hd) c hc
  · exact hquote

theorem word_chars (hascii : ∀ c, Printable c → P c) {w : Str}
    (hw : ∀ c ∈ w, Printable c) : ∀ c ∈ w, P c :=
  fun c hc => hascii c (hw c hc)

mutual

/-- What is printed is printable ASCII, or a character of a string. -/
theorem dumps_chars (hascii : ∀ c, Printable c → P c)
    (hok : ∀ c, ok c = true → 0x20 ≤ c → P c) :
    (v : Value) → plain ok v = true → ∀ c ∈ dumps v, P c
  | .null, _ => word_chars hascii (by decide)
  | .bool true, _ => word_chars hascii (by decide)
  | .bool false, _ => word_chars hascii (by decide)
  | .number literal, _ => word_chars hascii (number_chars literal.2)
  | .nan, h => by simp [plain] at h
  | .infinity _, h => by simp [plain] at h
  | .string text, h => dumpString_chars hascii hok (by simpa [plain] using h)
  | .array items, h => by
      have hitems := dumpItems_chars hascii hok items (by simpa [plain] using h)
      intro c hc
      simp only [dumps, List.cons_append, List.mem_cons, List.mem_append,
        List.not_mem_nil, or_false] at hc
      rcases hc with rfl | hc | rfl
      · exact hascii _ (by decide)
      · exact hitems c hc
      · exact hascii _ (by decide)
  | .object members, h => by
      have hmembers := dumpMembers_chars hascii hok members (by simpa [plain] using h)
      intro c hc
      simp only [dumps, List.cons_append, List.mem_cons, List.mem_append,
        List.not_mem_nil, or_false] at hc
      rcases hc with rfl | hc | rfl
      · exact hascii _ (by decide)
      · exact hmembers c hc
      · exact hascii _ (by decide)

theorem dumpItems_chars (hascii : ∀ c, Printable c → P c)
    (hok : ∀ c, ok c = true → 0x20 ≤ c → P c) :
    (xs : Items) → plainItems ok xs = true → ∀ c ∈ dumpItems xs, P c
  | .nil, _ => nofun
  | .cons v .nil, h => by
      simp only [plainItems, Bool.and_eq_true] at h
      exact dumps_chars hascii hok v h.1
  | .cons v (.cons w tail), h => by
      simp only [plainItems, Bool.and_eq_true] at h
      have hhead := dumps_chars hascii hok v h.1
      have htail := dumpItems_chars hascii hok (.cons w tail) (by simpa [plainItems] using h.2)
      intro c hc
      simp only [dumpItems, List.mem_append, List.mem_cons] at hc
      rcases hc with hc | rfl | hc
      · exact hhead c hc
      · exact hascii _ (by decide)
      · exact htail c hc

theorem dumpMembers_chars (hascii : ∀ c, Printable c → P c)
    (hok : ∀ c, ok c = true → 0x20 ≤ c → P c) :
    (ms : Members) → plainMembers ok ms = true → ∀ c ∈ dumpMembers ms, P c
  | .nil, _ => nofun
  | .cons key v .nil, h => by
      simp only [plainMembers, Bool.and_eq_true] at h
      have hkey := dumpString_chars hascii hok h.1.1.1
      have hvalue := dumps_chars hascii hok v h.1.2
      intro c hc
      simp only [dumpMembers, List.mem_append, List.mem_cons] at hc
      rcases hc with hc | rfl | hc
      · exact hkey c hc
      · exact hascii _ (by decide)
      · exact hvalue c hc
  | .cons key v (.cons k w tail), h => by
      simp only [plainMembers, Bool.and_eq_true] at h
      have hkey := dumpString_chars hascii hok h.1.1.1
      have hvalue := dumps_chars hascii hok v h.1.2
      have htail := dumpMembers_chars hascii hok (.cons k w tail)
        (by simpa [plainMembers] using h.2)
      intro c hc
      simp only [dumpMembers, List.mem_append, List.mem_cons] at hc
      rcases hc with (hc | rfl | hc) | rfl | hc
      · exact hkey c hc
      · exact hascii _ (by decide)
      · exact hvalue c hc
      · exact hascii _ (by decide)
      · exact htail c hc

end

end ReadBack

end Json
end Lexical
end SwFactory
