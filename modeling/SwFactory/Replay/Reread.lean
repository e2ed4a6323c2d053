import SwFactory.Replay.Receipt

/-!
# Retained documents are read again

What the reader makes of the document of an admitted recipe is this recipe, if it
takes the document: the working directory is in its normal form, and the variables
stand in order under different names.  A receipt is always read again.

The documents survive their texts because what a system takes as a path or an
argument has no high surrogate.
-/

namespace SwFactory
namespace Replay

open Files
open Lexical (splitAll splitAll_append splitAll_intercalate mem_intercalate mem_of_mem_splitAll)
open Lexical.Json
open Machine

/-! ## Paths in the repository -/

section Paths

theorem not_mem_unixed (path : Str) : cp '\\' ∉ unixed path := by
  intro h
  obtain ⟨c, -, hc⟩ := List.mem_map.mp h
  split at hc
  · exact absurd hc (by decide)
  · exact absurd hc ‹_›

theorem unixed_eq {path : Str} (h : cp '\\' ∉ path) : unixed path = path := by
  unfold unixed
  conv_rhs => rw [← List.map_id path]
  refine List.map_congr_left fun c hc => if_neg ?_
  rintro rfl
  exact h hc

variable {p : PurePath}

/-- The text of a relative path is not empty and does not start with `./`. -/
theorem text_relative (hroot : p.rooted = false) (hclean : PurePath.Clean p.parts) :
    p.text ≠ [] ∧ [dot, slash].isPrefixOf p.text = false := by
  unfold PurePath.text
  rw [if_neg (by simp [hroot])]
  by_cases hparts : p.parts = []
  · rw [if_pos hparts]
    decide
  · have hsplit := splitAll_intercalate hparts fun part hpart => (hclean part hpart).2.2
    rw [if_neg hparts]
    constructor
    · intro hnil
      rw [hnil] at hsplit
      exact (hclean [] (hsplit ▸ List.mem_cons_self)).1 rfl
    · rw [Bool.eq_false_iff, ne_eq, List.isPrefixOf_iff_prefix]
      rintro ⟨more, hmore⟩
      have hdot : splitAll slash ([dot] ++ slash :: more) = [dot] :: splitAll slash more :=
        splitAll_append (by decide) more
      rw [← hmore] at hsplit
      exact (hclean [dot] (hsplit ▸ hdot ▸ List.mem_cons_self)).2.1 rfl

theorem mem_text {c : Nat} (h : c ∈ p.text) :
    c = dot ∨ c = slash ∨ ∃ part ∈ p.parts, c ∈ part := by
  unfold PurePath.text at h
  split at h
  · rcases List.mem_cons.mp h with rfl | h
    · exact .inr (.inl rfl)
    · exact .inr (mem_intercalate h)
  split at h
  · exact .inl (List.mem_singleton.mp h)
  · exact .inr (mem_intercalate h)

theorem mem_of_mem_parts {text part : Str} {c : Nat}
    (hpart : part ∈ (PurePath.ofText text).parts) (hc : c ∈ part) : c ∈ text :=
  mem_of_mem_splitAll (List.mem_filter.mp hpart).1 hc

theorem mem_unixed {path : Str} {c : Nat} (h : c ∈ unixed path) : c = slash ∨ c ∈ path := by
  obtain ⟨d, hd, rfl⟩ := List.mem_map.mp h
  split
  · exact .inl rfl
  · exact .inr hd

/-- A path in its normal form. -/
structure NormalForm (path : Str) : Prop where
  relative : ∃ p : PurePath, p.rooted = false ∧ p.climbs = false ∧ PurePath.Clean p.parts ∧
    p.text = path
  noBackslash : cp '\\' ∉ path
  noBreak : path.any isBreak = false

theorem normalForm_of_validate {path normal : Str} (h : validateRepoPath path = .ok normal) :
    NormalForm normal := by
  unfold validateRepoPath at h
  split at h
  · cases h
  rename_i hbreak
  rw [not_or, Bool.not_eq_true, List.any_eq_false] at hbreak
  dsimp only at h
  split at h
  · cases h
  · rename_i hrefused
    rw [Bool.not_eq_true, Bool.or_eq_false_iff] at hrefused
    have hclean := PurePath.clean_ofText (unixed path)
    obtain ⟨hnil, hdot⟩ := text_relative hrefused.1 hclean
    rw [hdot, if_neg Bool.false_ne_true, if_neg hnil] at h
    cases h
    refine ⟨⟨_, hrefused.1, hrefused.2, hclean, rfl⟩, fun hmem => ?_, ?_⟩
    · rcases mem_text hmem with hc | hc | ⟨part, hpart, hc⟩
      · exact absurd hc (by decide)
      · exact absurd hc (by decide)
      · exact not_mem_unixed path (mem_of_mem_parts hpart hc)
    · refine List.any_eq_false.mpr fun c hmem => ?_
      rcases mem_text hmem with rfl | rfl | ⟨part, hpart, hc⟩
      · decide
      · decide
      · rcases mem_unixed (mem_of_mem_parts hpart hc) with rfl | hc
        · decide
        · exact hbreak.2 c hc

/-- **A path in its normal form is accepted, and kept.** -/
theorem validate_of_normalForm {normal : Str} (hnormal : NormalForm normal) :
    validateRepoPath normal = .ok normal := by
  obtain ⟨p, hroot, hclimbs, hclean, rfl⟩ := hnormal.relative
  obtain ⟨hnil, hdot⟩ := text_relative hroot hclean
  have hbreak : ¬ (p.text = [] ∨ p.text.any isBreak = true) := by
    rw [not_or, Bool.not_eq_true]
    exact ⟨hnil, hnormal.noBreak⟩
  unfold validateRepoPath
  rw [if_neg hbreak, unixed_eq hnormal.noBackslash, PurePath.ofText_text hclean]
  dsimp only
  rw [hroot, hclimbs, Bool.or_self, if_neg Bool.false_ne_true, hdot, if_neg Bool.false_ne_true,
    if_neg hnil]

end Paths

/-! ## Variables -/

section Variables

variable {F : Type}
variable {L : Language F}
variable {retained : Bool}

/-- The names of the members. -/
def names (ms : Members) : List Str :=
  ms.entries.map Prod.fst

theorem mem_names_set {key k : Str} {v : Value} :
    (ms : Members) → (k ∈ names (ms.set key v) ↔ k = key ∨ k ∈ names ms)
  | .nil => by simp [names, Members.set, Members.entries]
  | .cons j w tail => by
      have ih : k ∈ names (tail.set key v) ↔ k = key ∨ k ∈ names tail := mem_names_set tail
      unfold names at ih ⊢
      unfold Members.set
      split
      · rename_i heq
        simp [Members.entries, heq]
      · simp only [Members.entries, List.map_cons, List.mem_cons, ih]
        tauto

theorem nodup_set {key : Str} {v : Value} :
    (ms : Members) → (names ms).Nodup → (names (ms.set key v)).Nodup
  | .nil, _ => by simp [names, Members.set, Members.entries]
  | .cons j w tail, h => by
      obtain ⟨hnew, hrest⟩ := List.nodup_cons.mp h
      have ih : (names (tail.set key v)).Nodup := nodup_set tail hrest
      unfold Members.set
      split
      · exact h
      · rename_i hne
        refine List.nodup_cons.mpr ⟨fun hmem => ?_, ih⟩
        rcases (mem_names_set tail).mp hmem with heq | hmem
        · exact hne heq
        · exact hnew hmem

theorem nodup_into : (ms dict : Members) → (names dict).Nodup → (names (dict.into ms)).Nodup
  | .nil, _, h => h
  | .cons _ _ tail, dict, h => nodup_into tail _ (nodup_set dict h)

/-- The names of the items of a dictionary are different. -/
theorem nodup_itemsOf (ms : Members) : ((itemsOf ms).map Prod.fst).Nodup :=
  nodup_into ms .nil List.nodup_nil

/-- The items of a dictionary are its members. -/
theorem itemsOf_ofList {es : List (Str × Value)} (hkeys : (es.map Prod.fst).Nodup)
    (hplain : ∀ e ∈ es, plain (fun _ => true) e.2 = true) : itemsOf (Members.ofList es) = es := by
  have hmembers : plainMembers (fun _ => true) (Members.ofList es) = true :=
    plainMembers_ofList hkeys fun e he => ⟨by simp, hplain e he⟩
  have hinto : Members.nil.into (Members.ofList es) = Members.ofList es :=
    Members.into_eq _ _ hmembers fun _ _ => rfl
  rw [itemsOf, hinto, Members.entries_ofList]

theorem plain_strings (environment : List (Str × Str)) :
    ∀ e ∈ environment.map (fun e => (e.1, Value.string e.2)), plain (fun _ => true) e.2 = true := by
  intro e he
  obtain ⟨e', -, rfl⟩ := List.mem_map.mp he
  simp [plain]

/-- A variable that is read has a text, and is read as it is. -/
theorem readVariable_iff {item : Str × Value} {e : Str × Str} :
    readVariable L retained item = .ok e ↔
      item = (e.1, .string e.2) ∧ validateEnvName L e.1 = .ok () ∧ 0 ∉ e.2 ∧
        looksSecret L retained e.1 = false := by
  obtain ⟨name, v⟩ := item
  constructor
  · intro h
    obtain ⟨u, hname, h⟩ := bind_eq_ok h
    dsimp only at h hname
    cases v with
    | string text =>
        dsimp only at h
        split at h
        · cases h
        rename_i hnull
        split at h
        · cases h
        · rename_i hsecret
          cases h
          exact ⟨rfl, hname, by simpa using hnull, by simpa using hsecret⟩
    | _ => cases h
  · rintro ⟨hitem, hname, hnull, hsecret⟩
    cases hitem
    unfold readVariable
    rw [hname, ok_bind]
    dsimp only
    rw [if_neg (by simpa using hnull), hsecret, if_neg Bool.false_ne_true]

theorem readVariables_eq_ok {es : List (Str × Value)} {pairs : List (Str × Str)}
    (h : es.mapM (readVariable L retained) = .ok pairs) :
    es = pairs.map (fun e => (e.1, .string e.2)) := by
  have hall := mapM_eq_ok h
  clear h
  induction hall with
  | nil => rfl
  | cons he _ ih => rw [List.map_cons, ← ih, (readVariable_iff.mp he).1]

instance : Std.Total Before where
  total a b := by
    unfold Before
    rcases lt_trichotomy a.1 b.1 with h | h | h
    · exact .inl (.inl h)
    · rcases le_total a.2 b.2 with h' | h'
      · exact .inl (.inr ⟨h, h'⟩)
      · exact .inr (.inr ⟨h.symm, h'⟩)
    · exact .inr (.inl h)

instance : IsTrans (Str × Str) Before where
  trans a b c hab hbc := by
    unfold Before at *
    rcases hab with hab | ⟨hab, hab'⟩
    · rcases hbc with hbc | ⟨hbc, -⟩
      · exact .inl (hab.trans hbc)
      · exact .inl (hbc ▸ hab)
    · rcases hbc with hbc | ⟨hbc, hbc'⟩
      · exact .inl (hab ▸ hbc)
      · exact .inr ⟨hab.trans hbc, hab'.trans hbc'⟩

/-- Variables in order, under different names. -/
structure Ordered (environment : List (Str × Str)) : Prop where
  names : (environment.map Prod.fst).Nodup
  sorted : environment.Pairwise Before

theorem Ordered.before {environment : List (Str × Str)} (h : Ordered environment) :
    environment.Pairwise (fun a b => a.1 ≤ b.1) := by
  refine h.sorted.imp fun hab => ?_
  rcases hab with hab | ⟨hab, -⟩
  · exact hab.le
  · exact hab.le

/-- The document of ordered variables has them in this order. -/
theorem Ordered.document {environment : List (Str × Str)} (h : Ordered environment) :
    environmentMembers environment =
      Members.ofList (environment.map (fun e => (e.1, .string e.2))) := by
  have hkeys : ((environment.map (fun e => (e.1, Value.string e.2))).map Prod.fst).Nodup := by
    rw [List.map_map]
    exact h.names
  rw [environmentMembers, itemsOf_ofList hkeys (plain_strings environment),
    List.Pairwise.insertionSort_eq]
  exact List.pairwise_map.mpr h.before

theorem ordered_of_readEnvironment {v : Option Value} {environment : List (Str × Str)}
    (h : readEnvironment L retained v = .ok environment) : Ordered environment := by
  unfold readEnvironment at h
  split at h
  · cases h
    exact ⟨List.nodup_nil, List.Pairwise.nil⟩
  · obtain ⟨pairs, hpairs, h⟩ := bind_eq_ok h
    cases h
    have hkeys := nodup_itemsOf ‹_›
    rw [readVariables_eq_ok hpairs, List.map_map] at hkeys
    have hperm := List.perm_insertionSort Before pairs
    exact ⟨(hperm.map Prod.fst).nodup_iff.mpr hkeys, List.pairwise_insertionSort _ _⟩
  · cases h

/-- The variables that are read have names and texts that are taken. -/
theorem taken_of_readEnvironment {v : Option Value} {environment : List (Str × Str)}
    (h : readEnvironment L retained v = .ok environment) :
    ∀ e ∈ environment, validateEnvName L e.1 = .ok () ∧ 0 ∉ e.2 := by
  unfold readEnvironment at h
  split at h
  · cases h
    exact nofun
  · obtain ⟨pairs, hpairs, h⟩ := bind_eq_ok h
    cases h
    intro e he
    have hmem := (List.perm_insertionSort Before pairs).mem_iff.mp he
    obtain ⟨item, -, hitem⟩ := exists_of_mem_mapM hpairs hmem
    obtain ⟨-, hname, hnull, -⟩ := readVariable_iff.mp hitem
    exact ⟨hname, hnull⟩
  · cases h

/-- **Ordered variables are read again**, unless a name looks secret. -/
theorem readEnvironment_document_iff {environment environment' : List (Str × Str)}
    (hordered : Ordered environment)
    (htaken : ∀ e ∈ environment, validateEnvName L e.1 = .ok () ∧ 0 ∉ e.2) :
    readEnvironment L retained (some (.object (environmentMembers environment))) =
        .ok environment' ↔
      environment' = environment ∧ ∀ e ∈ environment, looksSecret L retained e.1 = false := by
  have hkeys : ((environment.map (fun e => (e.1, Value.string e.2))).map Prod.fst).Nodup := by
    rw [List.map_map]
    exact hordered.names
  rw [hordered.document, readEnvironment, itemsOf_ofList hkeys (plain_strings environment)]
  constructor
  · intro h
    obtain ⟨pairs, hpairs, h⟩ := bind_eq_ok h
    cases h
    have hinj : Function.Injective fun e : Str × Str => (e.1, Value.string e.2) := by
      rintro ⟨a, b⟩ ⟨c, d⟩ heq
      cases heq
      rfl
    have hsame := hinj.list_map (readVariables_eq_ok hpairs)
    subst hsame
    refine ⟨hordered.sorted.insertionSort_eq, fun e he => ?_⟩
    obtain ⟨item, -, hitem⟩ := exists_of_mem_mapM hpairs he
    exact (readVariable_iff.mp hitem).2.2.2
  · rintro ⟨rfl, hsecret⟩
    rw [mapM_map_ok fun e he => readVariable_iff.mpr
      ⟨rfl, (htaken e he).1, (htaken e he).2, hsecret e he⟩, ok_bind, sortedEnvironment,
      hordered.sorted.insertionSort_eq]

end Variables

/-! ## Keys -/

/-- The keys of `_bound_recipe_document`, in order. -/
def boundKeys : List Str :=
  ["commit_sha", "digest", "path", "recipe", "schema_version"].map word

/-- The keys of a recipe in it, in order. -/
def recipeKeys : List Str :=
  ["argv", "cwd", "environment", "resources", "schema_version", "secret_env", "timeout_s"].map word

/-- The keys of a receipt with its digest, in order. -/
def receiptKeys : List Str :=
  ["commit_sha", "duration_s", "executable_path", "executable_sha256",
    "execution_recipe_commit_sha", "execution_recipe_path", "execution_recipe_sha256", "exit_code",
    "receipt_digest", "requested_cpus", "requested_memory_mb", "resource_enforcement",
    "schema_version", "snapshot_sha256", "snapshot_size_bytes", "stderr", "stdout",
    "timed_out"].map word

/-- The keys of a stream, in order. -/
def streamKeys : List Str :=
  ["path", "sha256", "size_bytes"].map word

theorem nodup_boundKeys : boundKeys.Nodup := by
  decide

theorem nodup_recipeKeys : recipeKeys.Nodup := by
  decide

theorem nodup_receiptKeys : receiptKeys.Nodup := by
  decide

theorem nodup_streamKeys : streamKeys.Nodup := by
  decide

/-! ## Recipes -/

section Recipes

variable {F : Type}
variable {L : Language F}
variable {retained : Bool}

/-- What the reader takes out of a document. -/
structure Parsed (L : Language F) (retained : Bool) (document : Members) (r : ExecutionRecipe) :
    Prop where
  argv : readArgv (document.get? (word "argv")) = .ok r.argv
  cwd : readCwd (document.get? (word "cwd")) = .ok r.cwd
  timeoutS : readTimeout (document.get? (word "timeout_s")) = .ok r.timeoutS
  resources : readResources (document.get? (word "resources")) = .ok (r.cpus, r.memoryMb)
  environment :
    readEnvironment L retained (document.get? (word "environment")) = .ok r.environment
  secretEnv : readSecretEnv (document.get? (word "secret_env")) = .ok r.secretEnv
  schemaVersion : r.schemaVersion = 1

theorem parse_eq_ok {v : Value} {r : ExecutionRecipe}
    (h : parseExecutionRecipe L retained v = .ok r) :
    ∃ document, v = .object document ∧ Parsed L retained document r := by
  unfold parseExecutionRecipe at h
  split at h
  · rename_i document
    dsimp only at h
    split at h
    · cases h
    split at h
    · cases h
    obtain ⟨argv, hargv, h⟩ := bind_eq_ok h
    obtain ⟨cwd, hcwd, h⟩ := bind_eq_ok h
    obtain ⟨timeoutS, htimeout, h⟩ := bind_eq_ok h
    obtain ⟨resources, hresources, h⟩ := bind_eq_ok h
    obtain ⟨environment, henvironment, h⟩ := bind_eq_ok h
    obtain ⟨secretEnv, hsecret, h⟩ := bind_eq_ok h
    cases h
    exact ⟨document, rfl, hargv, hcwd, htimeout, hresources, henvironment, hsecret, rfl⟩
  · cases h

/-- A document without other fields, whose fields are taken, is parsed. -/
theorem parse_of_parsed {document : Members} {r : ExecutionRecipe}
    (hknown : ∀ key ∈ names document, key ∈ allowed)
    (hversion : isOne L (document.get? (word "schema_version")) = true)
    (h : Parsed L retained document r) :
    parseExecutionRecipe L retained (.object document) = .ok r := by
  have hunknown : (document.entries.map Prod.fst).filter (fun key => key ∉ allowed) = [] := by
    refine List.filter_eq_nil_iff.mpr fun key hkey => ?_
    simpa using hknown key hkey
  unfold parseExecutionRecipe
  dsimp only
  rw [hunknown, if_neg (not_not.mpr rfl), hversion, Bool.not_true, if_neg Bool.false_ne_true,
    h.argv, ok_bind, h.cwd, ok_bind, h.timeoutS, ok_bind, h.resources, ok_bind, h.environment,
    ok_bind, h.secretEnv, ok_bind, ← h.schemaVersion]

/-- An argument that is taken. -/
def IsArgument (text : Str) : Prop :=
  ¬ (text = [] ∨ text.any isBreak = true)

/-- What is true of every recipe that a reader has admitted. -/
structure Admitted (L : Language F) (r : ExecutionRecipe) : Prop where
  argv : r.argv ≠ [] ∧ ∀ text ∈ r.argv, IsArgument text
  cwd : NormalForm r.cwd
  timeoutS : 1 ≤ r.timeoutS ∧ r.timeoutS ≤ 86400
  cpus : 1 ≤ r.cpus ∧ r.cpus ≤ 128
  memoryMb : 128 ≤ r.memoryMb ∧ r.memoryMb ≤ 1048576
  environment : Ordered r.environment
  taken : ∀ e ∈ r.environment, validateEnvName L e.1 = .ok () ∧ 0 ∉ e.2
  secretEnv : r.secretEnv = []
  schemaVersion : r.schemaVersion = 1

theorem arguments_of_readArgv {v : Option Value} {argv : List Str} (h : readArgv v = .ok argv) :
    argv ≠ [] ∧ ∀ text ∈ argv, IsArgument text := by
  unfold readArgv at h
  split at h
  · constructor
    · rintro rfl
      cases mapM_eq_ok h
    · intro text htext
      obtain ⟨item, -, hitem⟩ := exists_of_mem_mapM h htext
      cases item with
      | string t =>
          dsimp only at hitem
          split at hitem
          · cases hitem
          · rename_i hargument
            cases hitem
            exact hargument
      | _ => cases hitem
  · cases h

theorem bounds_of_readInt {least most n : Int} {error : RecipeError} {v : Option Value}
    (h : readInt least most error v = .ok n) : least ≤ n ∧ n ≤ most := by
  unfold readInt at h
  split at h
  · split at h
    · split at h
      · cases h
        assumption
      · cases h
    · cases h
  · cases h

theorem bounds_of_readResources {v : Option Value} {c m : Int}
    (h : readResources v = .ok (c, m)) :
    (1 ≤ c ∧ c ≤ 128) ∧ (128 ≤ m ∧ m ≤ 1048576) := by
  unfold readResources at h
  split at h
  · split at h
    · obtain ⟨c', hc, h⟩ := bind_eq_ok h
      obtain ⟨m', hm, h⟩ := bind_eq_ok h
      cases h
      exact ⟨bounds_of_readInt hc, bounds_of_readInt hm⟩
    · cases h
  · cases h

theorem normalForm_of_readCwd {v : Option Value} {cwd : Str} (h : readCwd v = .ok cwd) :
    NormalForm cwd := by
  unfold readCwd at h
  split at h
  · exact normalForm_of_validate h
  · exact normalForm_of_validate h
  · cases h

theorem eq_nil_of_readSecretEnv {v : Option Value} {secretEnv : List Str}
    (h : readSecretEnv v = .ok secretEnv) : secretEnv = [] := by
  unfold readSecretEnv at h
  split at h <;> cases h <;> rfl

theorem admitted_of_parse {v : Value} {r : ExecutionRecipe}
    (h : parseExecutionRecipe L retained v = .ok r) : Admitted L r := by
  obtain ⟨document, -, hparsed⟩ := parse_eq_ok h
  obtain ⟨hcpus, hmemory⟩ := bounds_of_readResources hparsed.resources
  exact
    { argv := arguments_of_readArgv hparsed.argv
      cwd := normalForm_of_readCwd hparsed.cwd
      timeoutS := bounds_of_readInt hparsed.timeoutS
      cpus := hcpus
      memoryMb := hmemory
      environment := ordered_of_readEnvironment hparsed.environment
      taken := taken_of_readEnvironment hparsed.environment
      secretEnv := eq_nil_of_readSecretEnv hparsed.secretEnv
      schemaVersion := hparsed.schemaVersion }

theorem readArgv_texts {ts : List Str} (hne : ts ≠ []) (hts : ∀ text ∈ ts, IsArgument text) :
    readArgv (some (texts ts)) = .ok ts := by
  cases ts with
  | nil =>
      exact absurd rfl hne
  | cons t ts =>
      have hlist : Value.string t :: (Items.ofList (ts.map .string)).toList =
          (t :: ts).map .string := by
        simp
      rw [texts, List.map_cons, Items.ofList, readArgv, hlist]
      exact mapM_map_ok fun text htext => if_neg (hts text htext)

theorem readInt_literal {least most n : Int} {error : RecipeError} {literal : Literal}
    (hliteral : intLiteral n = some literal) (hbounds : least ≤ n ∧ n ≤ most) :
    readInt least most error (some (.number literal)) = .ok n := by
  unfold readInt
  dsimp only
  rw [toInt?_intLiteral hliteral]
  exact if_pos hbounds

theorem readResources_document {cpus memory : Int} {cpusText memoryText : Literal}
    (hcpus : intLiteral cpus = some cpusText) (hmemory : intLiteral memory = some memoryText)
    (hcpus' : 1 ≤ cpus ∧ cpus ≤ 128) (hmemory' : 128 ≤ memory ∧ memory ≤ 1048576) :
    readResources (some (.object (Members.ofList
      [(word "cpus", .number cpusText), (word "memory_mb", .number memoryText)]))) =
        .ok (cpus, memory) := by
  have hkeys : (["cpus", "memory_mb"].map word).Nodup := by
    decide
  have hknown : ∀ key ∈ ["cpus", "memory_mb"].map word,
      key = word "cpus" ∨ key = word "memory_mb" := by
    decide
  obtain ⟨resources, hfields⟩ : ∃ resources, Members.ofList
      [(word "cpus", .number cpusText), (word "memory_mb", .number memoryText)] = resources :=
    ⟨_, rfl⟩
  have hentries : resources.entries.all
      (fun e => e.1 = word "cpus" ∨ e.1 = word "memory_mb") = true := by
    rw [← hfields, Members.entries_ofList]
    refine List.all_eq_true.mpr fun e he => decide_eq_true (hknown e.1 ?_)
    exact List.mem_map_of_mem he
  rw [hfields, readResources, Members.get?_at hfields hkeys (i := 0) rfl,
    Members.get?_at hfields hkeys (i := 1) rfl, if_pos ⟨hentries, rfl, rfl⟩,
    readInt_literal hcpus hcpus', ok_bind, readInt_literal hmemory hmemory', ok_bind]

theorem names_document {r : ExecutionRecipe} {document : Members}
    (h : r.document = some document) : names document = recipeKeys := by
  simp only [ExecutionRecipe.document, Option.bind_eq_bind, Option.bind_eq_some_iff,
    Option.some.injEq] at h
  obtain ⟨cpus, -, memory, -, version, -, timeout, -, rfl⟩ := h
  rw [names, Members.entries_ofList]
  rfl

/-- **An admitted recipe is read again** from its document, unless a name looks secret. -/
theorem parse_document_iff {r r' : ExecutionRecipe} {document : Members} (hr : Admitted L r)
    (hdocument : r.document = some document) :
    parseExecutionRecipe L retained (.object document) = .ok r' ↔
      r' = r ∧ ∀ e ∈ r.environment, looksSecret L retained e.1 = false := by
  have hnames := names_document hdocument
  simp only [ExecutionRecipe.document, Option.bind_eq_bind, Option.bind_eq_some_iff,
    Option.some.injEq] at hdocument
  obtain ⟨cpus, hcpus, memory, hmemory, version, hversion, timeout, htimeout, hfields⟩ := hdocument
  have hkeys := nodup_recipeKeys
  have hargv := Members.get?_at hfields hkeys (i := 0) rfl
  have hcwd := Members.get?_at hfields hkeys (i := 1) rfl
  have henvironment := Members.get?_at hfields hkeys (i := 2) rfl
  have hresources := Members.get?_at hfields hkeys (i := 3) rfl
  have hone := Members.get?_at hfields hkeys (i := 4) rfl
  have hsecretEnv := Members.get?_at hfields hkeys (i := 5) rfl
  have htimeoutS := Members.get?_at hfields hkeys (i := 6) rfl
  have hparsed : ∀ {r'}, Parsed L retained document r' ↔
      r' = r ∧ ∀ e ∈ r.environment, looksSecret L retained e.1 = false := by
    intro r'
    constructor
    · rintro ⟨hargv', hcwd', htimeout', hresources', henvironment', hsecret', hversion'⟩
      rw [hargv, readArgv_texts hr.argv.1 hr.argv.2] at hargv'
      rw [hcwd, readCwd, validate_of_normalForm hr.cwd] at hcwd'
      rw [htimeoutS, readTimeout, readInt_literal htimeout hr.timeoutS] at htimeout'
      rw [hresources, readResources_document hcpus hmemory hr.cpus hr.memoryMb] at hresources'
      rw [henvironment, readEnvironment_document_iff hr.environment hr.taken] at henvironment'
      obtain ⟨henvironment', hsecret⟩ := henvironment'
      have hsecretEnv' := (eq_nil_of_readSecretEnv hsecret').trans hr.secretEnv.symm
      have hversion' := hversion'.trans hr.schemaVersion.symm
      refine ⟨?_, hsecret⟩
      cases r
      cases r'
      cases hargv'
      cases hcwd'
      cases htimeout'
      cases hresources'
      simp only [ExecutionRecipe.mk.injEq, true_and]
      exact ⟨henvironment', hsecretEnv', hversion'⟩
    · rintro ⟨rfl, hsecret⟩
      exact
        { argv := by rw [hargv, readArgv_texts hr.argv.1 hr.argv.2]
          cwd := by rw [hcwd, readCwd, validate_of_normalForm hr.cwd]
          timeoutS := by rw [htimeoutS, readTimeout, readInt_literal htimeout hr.timeoutS]
          resources := by
            rw [hresources, readResources_document hcpus hmemory hr.cpus hr.memoryMb]
          environment := by
            rw [henvironment, readEnvironment_document_iff hr.environment hr.taken]
            exact ⟨rfl, hsecret⟩
          secretEnv := by
            rw [hsecretEnv, hr.secretEnv]
            rfl
          schemaVersion := hr.schemaVersion }
  constructor
  · intro h
    obtain ⟨_, ⟨⟩, h⟩ := parse_eq_ok h
    exact hparsed.mp h
  · intro h
    refine parse_of_parsed ?_ ?_ (hparsed.mpr h)
    · rw [hnames]
      decide
    · rw [hone, isOne, toInt?_intLiteral hversion, hr.schemaVersion]
      rfl

end Recipes

/-! ## The two documents -/

section Documents

variable {F : Type}
variable {L : Language F}
variable {sha256 : Bytes → Digest}

theorem asInt_literal {n : Int} {literal : Literal} (h : intLiteral n = some literal) :
    asInt L (.number literal) = .ok n := by
  rw [asInt, toInt?_intLiteral h]

theorem readStream_document {s : RetainedStream} {document : Members}
    (h : s.document = some document) : readStream (.object document) = .ok s := by
  simp only [RetainedStream.document, Option.bind_eq_bind, Option.bind_eq_some_iff,
    Option.some.injEq] at h
  obtain ⟨size, hsize, hfields⟩ := h
  rw [readStream, Members.get?_at hfields nodup_streamKeys (i := 0) rfl,
    Members.get?_at hfields nodup_streamKeys (i := 1) rfl,
    Members.get?_at hfields nodup_streamKeys (i := 2) rfl]
  dsimp only
  rw [toInt?_intLiteral hsize, ← hfields, Members.entries_ofList]
  rfl

theorem readExitCode_value {exitCode : Option Int} {v : Value} (h : exitValue exitCode = some v) :
    readExitCode L (some v) = .ok exitCode := by
  cases exitCode with
  | none =>
      cases h
      rfl
  | some n =>
      obtain ⟨literal, hliteral, rfl⟩ := Option.map_eq_some_iff.mp h
      rw [readExitCode, asInt_literal hliteral]
      · rfl
      · exact nofun

/-- **A receipt is read again** from its document. -/
theorem readReceipt_document {r : SnapshotRunReceipt F} {digest : Digest} {document : Members}
    (h : r.document L (some digest) = some document) : readReceipt L document = .ok r := by
  simp only [SnapshotRunReceipt.document, Option.bind_eq_bind, Option.bind_eq_some_iff,
    Option.some.injEq] at h
  obtain ⟨exitCode, hexit, cpus, hcpus, memory, hmemory, version, hversion, size, hsize, stderr,
    hstderr, stdout, hstdout, hfields⟩ := h
  have hkeys := nodup_receiptKeys
  unfold readReceipt required readVersion
  rw [Members.get?_at hfields hkeys (i := 0) rfl, Members.get?_at hfields hkeys (i := 1) rfl,
    Members.get?_at hfields hkeys (i := 2) rfl, Members.get?_at hfields hkeys (i := 3) rfl,
    Members.get?_at hfields hkeys (i := 4) rfl, Members.get?_at hfields hkeys (i := 5) rfl,
    Members.get?_at hfields hkeys (i := 6) rfl, Members.get?_at hfields hkeys (i := 7) rfl,
    Members.get?_at hfields hkeys (i := 9) rfl, Members.get?_at hfields hkeys (i := 10) rfl,
    Members.get?_at hfields hkeys (i := 11) rfl, Members.get?_at hfields hkeys (i := 12) rfl,
    Members.get?_at hfields hkeys (i := 13) rfl, Members.get?_at hfields hkeys (i := 14) rfl,
    Members.get?_at hfields hkeys (i := 15) rfl, Members.get?_at hfields hkeys (i := 16) rfl,
    Members.get?_at hfields hkeys (i := 17) rfl]
  simp only [orElse, ok_bind, asInt_literal hcpus, asInt_literal hmemory, asInt_literal hversion,
    asInt_literal hsize, readStream_document hstderr, readStream_document hstdout,
    readExitCode_value hexit, asFloat, L.float_repr, asStr, asBool]

/-- **An admitted recipe is read again** with its commit and path, unless a name looks secret
by the rule for retained documents. -/
theorem readBound_document_iff {b b' : BoundExecutionRecipe} {document : Members}
    (hb : Admitted L b.recipe) (hdocument : boundRecipeDocument sha256 b = some document) :
    readBound L document = .ok b' ↔
      b' = b ∧ ∀ e ∈ b.recipe.environment, legacyLooksSecret L e.1 = false := by
  simp only [boundRecipeDocument, Option.bind_eq_bind, Option.bind_eq_some_iff,
    Option.some.injEq] at hdocument
  obtain ⟨recipe, hrecipe, version, hversion, digest, -, hfields⟩ := hdocument
  have hkeys := nodup_boundKeys
  have hsame : Members.ofList (recipe.entries.filter (fun e => e.1 ≠ word "digest")) = recipe := by
    have hother : ∀ key ∈ recipeKeys, key ≠ word "digest" := by
      decide
    rw [List.filter_eq_self.mpr, Members.ofList_entries]
    intro e he
    rw [decide_eq_true_eq]
    exact hother e.1 (names_document hrecipe ▸ List.mem_map_of_mem he)
  have hparse : ∀ {r'}, parseExecutionRecipe L true (.object recipe) = .ok r' ↔
      r' = b.recipe ∧ ∀ e ∈ b.recipe.environment, legacyLooksSecret L e.1 = false :=
    parse_document_iff hb hrecipe
  unfold readBound required readVersion
  rw [Members.get?_at hfields hkeys (i := 0) rfl, Members.get?_at hfields hkeys (i := 2) rfl,
    Members.get?_at hfields hkeys (i := 3) rfl, Members.get?_at hfields hkeys (i := 4) rfl]
  simp only [orElse, ok_bind, asInt_literal hversion, asStr, hsame]
  cases hresult : parseExecutionRecipe L true (.object recipe) with
  | error e =>
      refine ⟨nofun, fun h => ?_⟩
      rw [hparse.mpr ⟨rfl, h.2⟩] at hresult
      cases hresult
  | ok r =>
      obtain ⟨rfl, hsecret⟩ := hparse.mp hresult
      simp only [Except.mapError, ok_bind, Except.ok.injEq]
      exact ⟨fun h => ⟨h.symm, hsecret⟩, fun h => h.1.symm⟩

/-- **The two documents of a replay are read back**, with their digests, unless a name looks
secret by the rule for retained documents. -/
theorem readManifest_document_iff {b : BoundExecutionRecipe} {r : SnapshotRunReceipt F}
    {evidence : BoundExecutionRecipe × SnapshotRunReceipt F} {recipeDigest receiptDigest : Digest}
    {recipeDocument receiptDocument : Members} (hb : Admitted L b.recipe)
    (hrecipe : boundRecipeDocument sha256 b = some recipeDocument)
    (hreceipt : r.document L (some receiptDigest) = some receiptDocument)
    (hrecipeDigest : b.recipe.digest sha256 = some recipeDigest)
    (hreceiptDigest : r.digest L sha256 = .ok receiptDigest)
    (hsame : r.executionRecipeSha256 = recipeDigest.1)
    (hcommit : r.executionRecipeCommitSha = b.commitSha)
    (hpath : r.executionRecipePath = b.path) :
    readManifest L sha256 recipeDocument receiptDocument = .ok evidence ↔
      evidence = (b, r) ∧ ∀ e ∈ b.recipe.environment, legacyLooksSecret L e.1 = false := by
  have hbound : ∀ {b'}, readBound L recipeDocument = .ok b' ↔
      b' = b ∧ ∀ e ∈ b.recipe.environment, legacyLooksSecret L e.1 = false :=
    readBound_document_iff hb hrecipe
  have hread := readReceipt_document hreceipt
  have hdigest : isText recipeDigest.1 (recipeDocument.get? (word "digest")) = true := by
    simp only [boundRecipeDocument, Option.bind_eq_bind, Option.bind_eq_some_iff,
      Option.some.injEq] at hrecipe
    obtain ⟨recipe, -, version, -, digest, hdigest, hfields⟩ := hrecipe
    rw [hrecipeDigest] at hdigest
    cases hdigest
    rw [Members.get?_at hfields nodup_boundKeys (i := 1) rfl]
    exact beq_self_eq_true _
  have hdigest' : isText receiptDigest.1 (receiptDocument.get? (word "receipt_digest")) = true := by
    simp only [SnapshotRunReceipt.document, Option.bind_eq_bind, Option.bind_eq_some_iff,
      Option.some.injEq] at hreceipt
    obtain ⟨exitCode, -, cpus, -, memory, -, version, -, size, -, stderr, -, stdout, -, hfields⟩ :=
      hreceipt
    rw [Members.get?_at hfields nodup_receiptKeys (i := 8) rfl]
    exact beq_self_eq_true _
  unfold readManifest
  cases hresult : readBound L recipeDocument with
  | error e =>
      refine ⟨nofun, fun h => ?_⟩
      rw [hbound.mpr ⟨rfl, h.2⟩] at hresult
      cases hresult
  | ok b' =>
      obtain ⟨rfl, hsecret⟩ := hbound.mp hresult
      rw [ok_bind, hread, ok_bind, hrecipeDigest, orElse, ok_bind, hdigest, hreceiptDigest]
      simp only [require, if_true, ok_bind, hdigest', hsame, hcommit, hpath, decide_true,
        Except.ok.injEq]
      exact ⟨fun h => ⟨h.symm, hsecret⟩, fun h => h.1.symm⟩

end Documents

/-! ## Texts without high surrogates -/

section Legible

variable {F : Type}
variable {L : Language F}
variable {sha256 : Bytes → Digest}

/-- A text that is read back from JSON. -/
def Legible (text : Str) : Prop :=
  text.all noHigh = true

theorem legible_of_encodable {text : Str} (h : ∀ c ∈ text, encodable c = true) : Legible text := by
  refine List.all_eq_true.mpr fun c hc => ?_
  have hcode := h c hc
  simp only [encodable, Lexical.Utf8.isScalar, noHigh, isHigh, Bool.or_eq_true, Bool.and_eq_true,
    decide_eq_true_eq, Bool.not_eq_true', Bool.and_eq_false_iff, decide_eq_false_iff_not] at hcode ⊢
  omega

theorem legible_of_isSha {length : Nat} {text : Str} (h : isSha length text = true) :
    Legible text := by
  rw [isSha, Bool.and_eq_true] at h
  refine legible_of_encodable fun c hc => ?_
  have hhex := (List.all_eq_true.mp h.2) c hc
  rw [isHex, Bool.or_eq_true, Bool.and_eq_true, Bool.and_eq_true] at hhex
  simp only [decide_eq_true_eq] at hhex
  have hascii : c < 0x80 := by
    rcases hhex with ⟨-, hle⟩ | ⟨-, hle⟩
    · exact lt_of_le_of_lt hle (by decide)
    · exact lt_of_le_of_lt hle (by decide)
  simp only [encodable, Lexical.Utf8.isScalar, Bool.or_eq_true, decide_eq_true_eq]
  omega

theorem plain_texts {ts : List Str} (h : ∀ t ∈ ts, Legible t) : plain noHigh (texts ts) = true := by
  refine plainItems_ofList fun v hv => ?_
  obtain ⟨t, ht, rfl⟩ := List.mem_map.mp hv
  exact h t ht

/-- The fields under keys of ASCII. -/
theorem plain_fields (keys : List Str) {es : List (Str × Value)} (hnames : es.map Prod.fst = keys)
    (hnodup : keys.Nodup) (hkeys : ∀ key ∈ keys, Legible key)
    (h : ∀ e ∈ es, plain noHigh e.2 = true) : plainMembers noHigh (Members.ofList es) = true := by
  subst hnames
  exact plainMembers_ofList hnodup fun e he => ⟨hkeys e.1 (List.mem_map_of_mem he), h e he⟩

/-- The texts of a bound recipe can be read back. -/
structure BoundExecutionRecipe.Legible (b : BoundExecutionRecipe) : Prop where
  commitSha : Replay.Legible b.commitSha
  path : Replay.Legible b.path
  argv : ∀ t ∈ b.recipe.argv, Replay.Legible t
  cwd : Replay.Legible b.recipe.cwd
  environment : ∀ e ∈ b.recipe.environment, Replay.Legible e.1 ∧ Replay.Legible e.2

theorem plain_recipeDocument {b : BoundExecutionRecipe} {document : Members}
    (hadmitted : Admitted L b.recipe) (hb : b.Legible) (h : b.recipe.document = some document) :
    plainMembers noHigh document = true := by
  simp only [ExecutionRecipe.document, Option.bind_eq_bind, Option.bind_eq_some_iff,
    Option.some.injEq] at h
  obtain ⟨cpus, -, memory, -, version, -, timeout, -, rfl⟩ := h
  have henvironment : plainMembers noHigh (environmentMembers b.recipe.environment) = true := by
    rw [hadmitted.environment.document]
    refine plainMembers_ofList ?_ fun e he => ?_
    · rw [List.map_map]
      exact hadmitted.environment.names
    · obtain ⟨e', he', rfl⟩ := List.mem_map.mp he
      exact hb.environment e' he'
  refine plain_fields recipeKeys rfl nodup_recipeKeys (by unfold Legible; decide) ?_
  simp only [List.forall_mem_cons]
  refine ⟨plain_texts hb.argv, hb.cwd, henvironment, rfl, rfl, ?_, rfl, nofun⟩
  rw [hadmitted.secretEnv]
  rfl

/-- **The document of a bound recipe can be read back.** -/
theorem plain_boundDocument {b : BoundExecutionRecipe} {document : Members}
    (hadmitted : Admitted L b.recipe) (hb : b.Legible)
    (h : boundRecipeDocument sha256 b = some document) :
    plain noHigh (.object document) = true := by
  simp only [boundRecipeDocument, Option.bind_eq_bind, Option.bind_eq_some_iff,
    Option.some.injEq] at h
  obtain ⟨recipe, hrecipe, version, -, digest, -, rfl⟩ := h
  refine plain_fields boundKeys rfl nodup_boundKeys (by unfold Legible; decide) ?_
  simp only [List.forall_mem_cons]
  exact ⟨hb.commitSha, legible_of_isSha digest.2, hb.path,
    plain_recipeDocument hadmitted hb hrecipe, rfl, nofun⟩

structure RetainedStream.Legible (s : RetainedStream) : Prop where
  path : Replay.Legible s.path
  sha256 : Replay.Legible s.sha256

/-- The texts of a receipt can be read back. -/
structure SnapshotRunReceipt.Legible (r : SnapshotRunReceipt F) : Prop where
  commitSha : Replay.Legible r.commitSha
  snapshotSha256 : Replay.Legible r.snapshotSha256
  executionRecipeSha256 : Replay.Legible r.executionRecipeSha256
  executionRecipeCommitSha : Replay.Legible r.executionRecipeCommitSha
  executionRecipePath : Replay.Legible r.executionRecipePath
  resourceEnforcement : Replay.Legible r.resourceEnforcement
  executablePath : Replay.Legible r.executablePath
  executableSha256 : Replay.Legible r.executableSha256
  stdout : r.stdout.Legible
  stderr : r.stderr.Legible

theorem plain_streamDocument {s : RetainedStream} {document : Members} (hs : s.Legible)
    (h : s.document = some document) : plainMembers noHigh document = true := by
  simp only [RetainedStream.document, Option.bind_eq_bind, Option.bind_eq_some_iff,
    Option.some.injEq] at h
  obtain ⟨size, -, rfl⟩ := h
  refine plain_fields streamKeys rfl nodup_streamKeys (by unfold Legible; decide) ?_
  simp only [List.forall_mem_cons]
  exact ⟨hs.path, hs.sha256, rfl, nofun⟩

theorem plain_exitValue {exitCode : Option Int} {v : Value} (h : exitValue exitCode = some v) :
    plain noHigh v = true := by
  cases exitCode with
  | none =>
      cases h
      rfl
  | some n =>
      obtain ⟨literal, -, rfl⟩ := Option.map_eq_some_iff.mp h
      rfl

/-- **The document of a receipt can be read back.** -/
theorem plain_receiptDocument {r : SnapshotRunReceipt F} {digest : Digest} {document : Members}
    (hr : r.Legible) (h : r.document L (some digest) = some document) :
    plain noHigh (.object document) = true := by
  simp only [SnapshotRunReceipt.document, Option.bind_eq_bind, Option.bind_eq_some_iff,
    Option.some.injEq] at h
  obtain ⟨exitCode, hexit, cpus, -, memory, -, version, -, size, -, stderr, hstderr, stdout,
    hstdout, rfl⟩ := h
  refine plain_fields receiptKeys rfl nodup_receiptKeys (by unfold Legible; decide) ?_
  simp only [Option.toList_some, List.map_cons, List.map_nil, List.cons_append, List.nil_append,
    List.forall_mem_cons]
  exact ⟨hr.commitSha, rfl, hr.executablePath, hr.executableSha256, hr.executionRecipeCommitSha,
    hr.executionRecipePath, hr.executionRecipeSha256, plain_exitValue hexit,
    legible_of_isSha digest.2, rfl, rfl, hr.resourceEnforcement, rfl, hr.snapshotSha256, rfl,
    plain_streamDocument hr.stderr hstderr, plain_streamDocument hr.stdout hstdout, rfl, nofun⟩

end Legible

end Replay
end SwFactory
