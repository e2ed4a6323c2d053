import SwFactory.Contracts.Parsers
import SwFactory.Machine.Fallible

/-!
# Where the two readers agree

Each field is read by the console and by the factory.  They agree on a document
if every field is absent or written in its normal form, and otherwise only if
each of them refuses some field.
-/

namespace SwFactory
namespace Contracts

open Identities
open Lexical
open Machine
open Paths
open Console (valueAt)

/-! ## What a field may hold -/

/-- A command that is neither blank nor cut by a NUL character. -/
def Usable (value : Str) : Prop :=
  value ≠ [] ∧ '\x00' ∉ value

/-- Both languages drop the same margin, and a command is left. -/
structure PlainCommand (raw : Str) : Prop where
  margin : trim Text.isSpace raw = trimText raw
  usable : Usable (trimText raw)

/-- A path in its normal form. -/
def PlainPath (raw : Str) : Prop :=
  normalizeRelativePath false raw = .ok raw

/-- Absent, or a text with the property. -/
def Optional (P : Str → Prop) (value : Option Toml) : Prop :=
  value = none ∨ ∃ raw, value = some (.string raw) ∧ P raw

/-- A list of texts. -/
def Texts (value : Toml) (raws : List Str) : Prop :=
  value = .array (raws.map .string)

/-- Every field is absent or in its normal form. -/
structure Plain (doc : Table) : Prop where
  tables : ∀ value, doc.get? "paths" = some value → ∃ entries, value = .table entries
  test : ∃ raw, valueAt doc "commands" "test" = some (.string raw) ∧ PlainCommand raw
  lint : Optional PlainCommand (valueAt doc "commands" "lint")
  junit : Optional (fun raw => PlainPath raw ∧ junitPrefix.isPrefixOf raw = true)
    (valueAt doc "paths" "junit")
  source : Optional PlainPath (valueAt doc "paths" "source")
  tests : Optional PlainPath (valueAt doc "paths" "tests")
  protectedPaths : valueAt doc "paths" "protected" = none ∨
    ∃ value raws, valueAt doc "paths" "protected" = some value ∧ Texts value raws ∧
      ∀ raw ∈ raws, PlainPath raw

/-- The console refuses a field. -/
inductive ConsoleRefuses (doc : Table) : Prop
  | noTest (h : ∀ raw, valueAt doc "commands" "test" ≠ some (.string raw))
  | blankTest (raw : Str) (h : valueAt doc "commands" "test" = some (.string raw))
      (hblank : ¬ Usable (trimText raw))
  | blankLint (raw : Str) (h : valueAt doc "commands" "lint" = some (.string raw))
      (hblank : ¬ Usable (trimText raw))
  | outside (raw : Str) (h : valueAt doc "paths" "junit" = some (.string raw))
      (hfront : junitPrefix.isPrefixOf raw = false)
  | notTexts (value : Toml) (h : valueAt doc "paths" "protected" = some value)
      (hnot : ∀ raws, ¬ Texts value raws)

/-- The factory refuses a field. -/
inductive FactoryRefuses (doc : Table) : Prop
  | notTable (value : Toml) (h : doc.get? "paths" = some value)
      (hnot : ∀ entries, value ≠ .table entries)
  | noTest (h : ∀ raw, valueAt doc "commands" "test" ≠ some (.string raw))
  | blankTest (raw : Str) (h : valueAt doc "commands" "test" = some (.string raw))
      (hblank : ¬ Usable (trim Text.isSpace raw))
  | lint (value : Toml) (h : valueAt doc "commands" "lint" = some value)
      (hbad : ∀ raw, value = .string raw → ¬ Usable (trim Text.isSpace raw))
  | junit (value : Toml) (h : valueAt doc "paths" "junit" = some value)
      (hbad : ∀ raw path, value = .string raw → normalizeRelativePath false raw = .ok path →
        junitPrefix.isPrefixOf path = false)
  | directory (key : String) (hkey : key = "source" ∨ key = "tests") (value : Toml)
      (h : valueAt doc "paths" key = some value)
      (hbad : ∀ raw path, value = .string raw → normalizeRelativePath false raw ≠ .ok path)
  | protectedPaths (value : Toml) (h : valueAt doc "paths" "protected" = some value)
      (hbad : ∀ raws, Texts value raws → ∃ raw ∈ raws, ∀ path,
        normalizeRelativePath false raw ≠ .ok path)

/-! ## The console, field by field -/

theorem asString_eq_some {value : Toml} {raw : Str} :
    value.asString = some raw ↔ value = .string raw := by
  cases value <;> simp [Toml.asString]

theorem stringAt_eq_some {doc : Table} {table key : String} {raw : Str} :
    Console.stringAt doc table key = some raw ↔ valueAt doc table key = some (.string raw) := by
  simp only [Console.stringAt, Option.bind_eq_some_iff, asString_eq_some]
  constructor
  · rintro ⟨value, hvalue, rfl⟩
    exact hvalue
  · intro h
    exact ⟨_, h, rfl⟩

theorem console_command_some {doc : Table} {key : String} {value : Str} :
    Console.command doc key = .ok (some value) ↔
      ∃ raw, valueAt doc "commands" key = some (.string raw) ∧ Usable (trimText raw) ∧
        value = trimText raw := by
  unfold Console.command
  cases hstring : Console.stringAt doc "commands" key with
  | none =>
      constructor
      · rintro ⟨⟩
      · rintro ⟨raw, hraw, -⟩
        rw [← stringAt_eq_some, hstring] at hraw
        cases hraw
  | some raw =>
      have hraw := stringAt_eq_some.mp hstring
      dsimp only
      split
      · rename_i hbad
        constructor
        · rintro ⟨⟩
        · rintro ⟨raw', hraw', husable, -⟩
          rw [hraw] at hraw'
          cases hraw'
          exact absurd hbad (not_or.mpr husable)
      · rename_i hgood
        rw [not_or] at hgood
        simp only [Except.ok.injEq, Option.some.injEq]
        constructor
        · rintro rfl
          exact ⟨raw, hraw, hgood, rfl⟩
        · rintro ⟨raw', hraw', -, rfl⟩
          rw [hraw] at hraw'
          cases hraw'
          rfl

theorem console_command_none {doc : Table} {key : String} :
    Console.command doc key = .ok none ↔
      ∀ raw, valueAt doc "commands" key ≠ some (.string raw) := by
  unfold Console.command
  cases hstring : Console.stringAt doc "commands" key with
  | none =>
      refine ⟨fun _ raw hraw => ?_, fun _ => rfl⟩
      rw [← stringAt_eq_some, hstring] at hraw
      cases hraw
  | some raw =>
      have hraw := stringAt_eq_some.mp hstring
      constructor
      · intro h
        dsimp only at h
        split at h <;> cases h
      · intro h
        exact absurd hraw (h raw)

theorem collect_eq (found : List Str) (raws : List Str) :
    Console.collect found (raws.map .string) =
      .ok (raws.foldl (fun found raw => if raw ∈ found then found else found ++ [raw]) found) := by
  induction raws generalizing found with
  | nil => rfl
  | cons raw rest ih => exact ih _

theorem texts_of_collect {found found' : List Str} {items : List Toml}
    (h : Console.collect found items = .ok found') : ∃ raws : List Str, items = raws.map .string := by
  induction items generalizing found with
  | nil => exact ⟨[], rfl⟩
  | cons item rest ih =>
      unfold Console.collect at h
      cases hitem : item.asString with
      | none =>
          rw [hitem] at h
          cases h
      | some raw =>
          rw [hitem] at h
          obtain ⟨raws, rfl⟩ := ih h
          exact ⟨raw :: raws, by rw [asString_eq_some.mp hitem]; rfl⟩

theorem foldl_distinct (found raws : List Str) :
    raws.foldl (fun found raw => if raw ∈ found then found else found ++ [raw]) found =
      found ++ (distinct raws).filter (· ∉ found) := by
  induction raws generalizing found with
  | nil => simp [distinct]
  | cons raw rest ih =>
      rw [List.foldl_cons, distinct, ih]
      split
      · rename_i hmem
        rw [List.filter_cons_of_neg (by simpa using hmem), List.filter_filter]
        congr 1
        refine List.filter_congr fun text _ => ?_
        by_cases heq : text = raw
        · simp [heq, hmem]
        · simp [heq]
      · rename_i hnew
        rw [List.filter_cons_of_pos (by simpa using hnew), List.filter_filter,
          List.append_assoc, List.singleton_append]
        congr 2
        refine List.filter_congr fun text _ => ?_
        simp [not_or, Bool.and_comm, and_comm]

theorem console_protected_eq_ok {doc : Table} {paths : List Str} :
    Console.protectedOf doc = .ok paths ↔
      (valueAt doc "paths" "protected" = none ∧ paths = []) ∨
        ∃ value raws, valueAt doc "paths" "protected" = some value ∧ Texts value raws ∧
          paths = distinct raws := by
  unfold Console.protectedOf
  cases hvalue : valueAt doc "paths" "protected" with
  | none => simp [eq_comm]
  | some value =>
      cases value with
      | array items =>
          constructor
          · intro h
            obtain ⟨raws, rfl⟩ := texts_of_collect h
            change Console.collect [] _ = _ at h
            rw [collect_eq, foldl_distinct] at h
            cases h
            exact Or.inr ⟨_, raws, rfl, rfl, by simp⟩
          · rintro (⟨h, -⟩ | ⟨value, raws, hv, htexts, rfl⟩)
            · cases h
            · cases hv
              cases htexts
              change Console.collect [] _ = _
              rw [collect_eq, foldl_distinct]
              simp
      | _ =>
          constructor
          · rintro ⟨⟩
          · rintro (⟨h, -⟩ | ⟨value, raws, hv, htexts, -⟩)
            · cases h
            · cases hv
              cases htexts

theorem console_parse_eq_ok {doc : Table} {contract : TargetContract} :
    Console.parse doc = .ok contract ↔
      Console.command doc "test" = .ok (some contract.test) ∧
        Console.command doc "lint" = .ok contract.lint ∧
        contract.junit = (Console.stringAt doc "paths" "junit").getD defaultJunit ∧
        junitPrefix.isPrefixOf contract.junit = true ∧
        Console.protectedOf doc = .ok contract.protectedPaths ∧
        contract.source = (Console.stringAt doc "paths" "source").getD defaultSource ∧
        contract.testsDir = (Console.stringAt doc "paths" "tests").getD defaultTests := by
  unfold Console.parse
  constructor
  · intro h
    obtain ⟨test, htest, h⟩ := bind_eq_ok h
    cases test with
    | none => cases h
    | some test =>
        obtain ⟨lint, hlint, h⟩ := bind_eq_ok h
        dsimp only at h
        split at h
        · rename_i hfront
          obtain ⟨paths, hpaths, h⟩ := bind_eq_ok h
          cases h
          exact ⟨htest, hlint, rfl, hfront, hpaths, rfl, rfl⟩
        · cases h
  · rintro ⟨htest, hlint, hjunit, hfront, hpaths, hsource, htests⟩
    rw [hjunit] at hfront
    rw [htest, ok_bind]
    dsimp only
    rw [hlint, ok_bind, if_pos hfront, hpaths, ok_bind, ← hjunit, ← hsource, ← htests]

/-- The console accepts a document unless it refuses a field. -/
theorem console_accepts_iff (doc : Table) :
    (∃ contract, Console.parse doc = .ok contract) ↔ ¬ ConsoleRefuses doc := by
  constructor
  · rintro ⟨contract, hparse⟩ hrefuses
    obtain ⟨htest, hlint, hjunit, hfront, hpaths, -, -⟩ := console_parse_eq_ok.mp hparse
    obtain ⟨raw, hraw, husable, -⟩ := console_command_some.mp htest
    cases hrefuses with
    | noTest h => exact h raw hraw
    | blankTest raw' h hblank =>
        rw [hraw] at h
        cases h
        exact hblank husable
    | blankLint raw' h hblank =>
        cases hvalue : contract.lint with
        | none =>
            rw [hvalue] at hlint
            exact console_command_none.mp hlint raw' h
        | some lint =>
            rw [hvalue] at hlint
            obtain ⟨raw'', hraw'', husable', -⟩ := console_command_some.mp hlint
            rw [h] at hraw''
            cases hraw''
            exact hblank husable'
    | outside raw' h hbad =>
        rw [stringAt_eq_some.mpr h, Option.getD_some] at hjunit
        rw [hjunit, hbad] at hfront
        cases hfront
    | notTexts value h hnot =>
        rcases console_protected_eq_ok.mp hpaths with ⟨hnone, -⟩ | ⟨value', raws, hv, htexts, -⟩
        · rw [h] at hnone
          cases hnone
        · rw [h] at hv
          cases hv
          exact hnot raws htexts
  · intro hnot
    obtain ⟨raw, hraw⟩ : ∃ raw, valueAt doc "commands" "test" = some (.string raw) := by
      by_contra h
      exact hnot (.noTest (not_exists.mp h))
    have husable : Usable (trimText raw) := by
      by_contra h
      exact hnot (.blankTest raw hraw h)
    have hlint : ∃ lint, Console.command doc "lint" = .ok lint := by
      by_cases h : ∃ raw, valueAt doc "commands" "lint" = some (.string raw)
      · obtain ⟨raw', hraw'⟩ := h
        refine ⟨some (trimText raw'), console_command_some.mpr ⟨raw', hraw', ?_, rfl⟩⟩
        by_contra hblank
        exact hnot (.blankLint raw' hraw' hblank)
      · exact ⟨none, console_command_none.mpr (not_exists.mp h)⟩
    have hfront : junitPrefix.isPrefixOf
        ((Console.stringAt doc "paths" "junit").getD defaultJunit) = true := by
      cases hstring : Console.stringAt doc "paths" "junit" with
      | none => decide
      | some raw' =>
          by_contra hbad
          exact hnot (.outside raw' (stringAt_eq_some.mp hstring) (Bool.not_eq_true _ ▸ hbad))
    have hpaths : ∃ paths, Console.protectedOf doc = .ok paths := by
      cases hvalue : valueAt doc "paths" "protected" with
      | none => exact ⟨[], console_protected_eq_ok.mpr (Or.inl ⟨hvalue, rfl⟩)⟩
      | some value =>
          obtain ⟨raws, htexts⟩ : ∃ raws, Texts value raws := by
            by_contra h
            exact hnot (.notTexts value hvalue (not_exists.mp h))
          exact ⟨distinct raws,
            console_protected_eq_ok.mpr (Or.inr ⟨value, raws, hvalue, htexts, rfl⟩)⟩
    obtain ⟨lint, hlint⟩ := hlint
    obtain ⟨paths, hpaths⟩ := hpaths
    exact ⟨⟨trimText raw, lint, _, _, _, paths⟩, console_parse_eq_ok.mpr
      ⟨console_command_some.mpr ⟨raw, hraw, husable, rfl⟩, hlint, rfl, hfront, hpaths, rfl, rfl⟩⟩

/-! ## The factory, field by field -/

theorem factory_text_eq_ok {field : String} {value : Toml} {raw : Str} :
    Factory.text field value = .ok raw ↔ value = .string raw := by
  cases value <;> simp [Factory.text, Toml.asString]

theorem factory_command_eq_ok {field : String} {raw value : Str} :
    Factory.command field raw = .ok value ↔
      Usable (trim Text.isSpace raw) ∧ value = trim Text.isSpace raw := by
  unfold Factory.command
  dsimp only
  split
  · rename_i hbad
    constructor
    · rintro ⟨⟩
    · rintro ⟨husable, -⟩
      exact absurd hbad (not_or.mpr husable)
  · rename_i hgood
    simp only [Except.ok.injEq]
    exact ⟨fun h => ⟨not_or.mp hgood, h.symm⟩, fun h => h.2.symm⟩

theorem trim_nil : trim Text.isSpace [] = ([] : Str) :=
  rfl

theorem factory_test_eq_ok {value : Toml} {test : Str} :
    Factory.testField value = .ok test ↔
      ∃ raw, value = .string raw ∧ Usable (trim Text.isSpace raw) ∧
        test = trim Text.isSpace raw := by
  unfold Factory.testField
  constructor
  · intro h
    obtain ⟨raw, hraw, h⟩ := bind_eq_ok h
    split at h
    · cases h
    · exact ⟨raw, factory_text_eq_ok.mp hraw, factory_command_eq_ok.mp h⟩
  · rintro ⟨raw, hraw, husable, htest⟩
    have hne : raw ≠ [] := by
      rintro rfl
      exact husable.1 trim_nil
    rw [factory_text_eq_ok.mpr hraw, ok_bind, if_neg hne]
    exact factory_command_eq_ok.mpr ⟨husable, htest⟩

theorem factory_lint_eq_ok {value : Option Toml} {lint : Option Str} :
    Factory.lintField value = .ok lint ↔
      (value = none ∧ lint = none) ∨
        ∃ raw, value = some (.string raw) ∧ Usable (trim Text.isSpace raw) ∧
          lint = some (trim Text.isSpace raw) := by
  cases value with
  | none => simp [Factory.lintField, eq_comm]
  | some value =>
      simp only [Factory.lintField, map_eq_ok, reduceCtorEq, false_and, false_or,
        Option.some.injEq]
      constructor
      · rintro ⟨command, h, rfl⟩
        obtain ⟨raw, hraw, h⟩ := bind_eq_ok h
        obtain ⟨husable, rfl⟩ := factory_command_eq_ok.mp h
        exact ⟨raw, factory_text_eq_ok.mp hraw, husable, rfl⟩
      · rintro ⟨raw, hraw, husable, rfl⟩
        refine ⟨_, ?_, rfl⟩
        rw [factory_text_eq_ok.mpr hraw, ok_bind]
        exact factory_command_eq_ok.mpr ⟨husable, rfl⟩

theorem factory_path_eq_ok {field : String} {raw path : Str} :
    Factory.path field raw = .ok path ↔ normalizeRelativePath false raw = .ok path := by
  unfold Factory.path
  cases normalizeRelativePath false raw <;> simp

theorem factory_pathField_eq_ok {field : String} {fallback : Str}
    (hfallback : PlainPath fallback) {value : Option Toml} {path : Str} :
    Factory.pathField field fallback value = .ok path ↔
      (value = none ∧ path = fallback) ∨
        ∃ raw, value = some (.string raw) ∧ normalizeRelativePath false raw = .ok path := by
  cases value with
  | none =>
      have hplain : Factory.path field fallback = .ok fallback := factory_path_eq_ok.mpr hfallback
      simp [Factory.pathField, hplain, eq_comm]
  | some value =>
      simp only [Factory.pathField, reduceCtorEq, false_and, false_or, Option.some.injEq]
      constructor
      · intro h
        obtain ⟨raw, hraw, h⟩ := bind_eq_ok h
        exact ⟨raw, factory_text_eq_ok.mp hraw, factory_path_eq_ok.mp h⟩
      · rintro ⟨raw, hraw, h⟩
        rw [factory_text_eq_ok.mpr hraw, ok_bind]
        exact factory_path_eq_ok.mpr h

theorem factory_junit_eq_ok {value : Option Toml} {path : Str} :
    Factory.junitField value = .ok path ↔
      ((value = none ∧ path = defaultJunit) ∨
        ∃ raw, value = some (.string raw) ∧ normalizeRelativePath false raw = .ok path) ∧
        junitPrefix.isPrefixOf path = true := by
  rw [← @factory_pathField_eq_ok "junit" _ (by unfold PlainPath; decide)]
  unfold Factory.junitField
  constructor
  · intro h
    obtain ⟨junit, hjunit, h⟩ := bind_eq_ok h
    split at h
    · rename_i hfront
      cases h
      exact ⟨hjunit, hfront⟩
    · cases h
  · rintro ⟨hjunit, hfront⟩
    rw [hjunit, ok_bind, if_pos hfront]

theorem strings_eq_some {items : List Toml} {raws : List Str} :
    Factory.strings items = some raws ↔ items = raws.map .string := by
  induction items generalizing raws with
  | nil => cases raws <;> simp [Factory.strings]
  | cons item rest ih =>
      simp only [Factory.strings, Option.bind_eq_some_iff, Option.map_eq_some_iff,
        asString_eq_some]
      constructor
      · rintro ⟨raw, rfl, rest', hrest, rfl⟩
        rw [ih.mp hrest]
        rfl
      · intro h
        cases raws with
        | nil => cases h
        | cons raw raws =>
            obtain ⟨rfl, hrest⟩ := List.cons.inj h
            exact ⟨raw, rfl, raws, ih.mpr hrest, rfl⟩

theorem protectedItems_eq_some {value : Option Toml} {raws : List Str} :
    Factory.protectedItems value = some raws ↔
      (value = none ∧ raws = []) ∨ ∃ items, value = some items ∧ Texts items raws := by
  cases value with
  | none => simp [Factory.protectedItems, eq_comm]
  | some value =>
      cases value with
      | array items =>
          simp [Factory.protectedItems, Toml.asArray, strings_eq_some, Texts]
      | _ => simp [Factory.protectedItems, Toml.asArray, Texts]

theorem factory_paths_eq_ok {raws paths : List Str} :
    Factory.paths raws = .ok paths ↔
      List.Forall₂ (fun raw path => normalizeRelativePath false raw = .ok path) raws paths := by
  induction raws generalizing paths with
  | nil => simp [Factory.paths, eq_comm]
  | cons raw rest ih =>
      unfold Factory.paths
      constructor
      · intro h
        obtain ⟨path, hpath, h⟩ := bind_eq_ok h
        obtain ⟨paths', hpaths, rfl⟩ := map_eq_ok.mp h
        exact .cons (factory_path_eq_ok.mp hpath) (ih.mp hpaths)
      · intro h
        cases h with
        | cons hpath hrest =>
            rw [factory_path_eq_ok.mpr hpath, ok_bind, ih.mpr hrest]
            rfl

/-- The field `paths`, where it is there, is a table. -/
def Tabled (doc : Table) : Prop :=
  ∀ value, doc.get? "paths" = some value → ∃ entries, value = .table entries

theorem tableAt_get? {doc entries : Table} {name : String}
    (h : Factory.tableAt doc name = some entries) (key : String) :
    entries.get? key = valueAt doc name key := by
  unfold Factory.tableAt at h
  unfold valueAt
  cases hget : doc.get? name with
  | none =>
      rw [hget] at h
      cases h
      rfl
  | some value =>
      rw [hget] at h
      dsimp only at h
      rw [Option.bind_some, h]
      rfl

theorem tabled_iff {doc : Table} :
    Tabled doc ↔ ∃ entries, Factory.tableAt doc "paths" = some entries := by
  unfold Tabled Factory.tableAt
  cases doc.get? "paths" with
  | none => simp
  | some value => cases value <;> simp [Toml.asTable]

theorem tableAt_of_valueAt {doc : Table} {name key : String} {value : Toml}
    (h : valueAt doc name key = some value) :
    ∃ entries, Factory.tableAt doc name = some entries := by
  unfold valueAt at h
  unfold Factory.tableAt
  cases hget : doc.get? name with
  | none => exact ⟨[], rfl⟩
  | some found =>
      rw [hget, Option.bind_some] at h
      obtain ⟨entries, hentries, -⟩ := Option.bind_eq_some_iff.mp h
      exact ⟨entries, hentries⟩

theorem plainPath_source : PlainPath defaultSource := by
  unfold PlainPath
  decide

theorem plainPath_tests : PlainPath defaultTests := by
  unfold PlainPath
  decide

theorem factory_parse_eq_ok {doc : Table} {contract : TargetContract} :
    Factory.parse doc = .ok contract ↔
      Tabled doc ∧
        ∃ test raws, valueAt doc "commands" "test" = some test ∧
          Factory.protectedItems (valueAt doc "paths" "protected") = some raws ∧
          Factory.testField test = .ok contract.test ∧
          Factory.lintField (valueAt doc "commands" "lint") = .ok contract.lint ∧
          Factory.junitField (valueAt doc "paths" "junit") = .ok contract.junit ∧
          Factory.pathField "source" defaultSource (valueAt doc "paths" "source") =
            .ok contract.source ∧
          Factory.pathField "tests_dir" defaultTests (valueAt doc "paths" "tests") =
            .ok contract.testsDir ∧
          Factory.protectedField raws = .ok contract.protectedPaths := by
  rw [tabled_iff]
  unfold Factory.parse
  constructor
  · intro h
    cases hcommands : Factory.tableAt doc "commands" with
    | none =>
        rw [hcommands] at h
        cases h
    | some commands =>
        cases hpaths : Factory.tableAt doc "paths" with
        | none =>
            rw [hcommands, hpaths] at h
            cases h
        | some paths =>
            rw [hcommands, hpaths] at h
            simp only [tableAt_get? hcommands, tableAt_get? hpaths] at h
            cases htest : valueAt doc "commands" "test" with
            | none =>
                rw [htest] at h
                cases h
            | some test =>
                cases hitems : Factory.protectedItems (valueAt doc "paths" "protected") with
                | none =>
                    rw [htest, hitems] at h
                    cases h
                | some raws =>
                    rw [htest, hitems] at h
                    dsimp only at h
                    obtain ⟨test', htest', h⟩ := bind_eq_ok h
                    obtain ⟨lint, hlint, h⟩ := bind_eq_ok h
                    obtain ⟨junit, hjunit, h⟩ := bind_eq_ok h
                    obtain ⟨source, hsource, h⟩ := bind_eq_ok h
                    obtain ⟨testsDir, htests, h⟩ := bind_eq_ok h
                    obtain ⟨protectedPaths, hprotected, h⟩ := bind_eq_ok h
                    cases h
                    exact ⟨⟨paths, rfl⟩, test, raws, rfl, rfl, htest', hlint, hjunit, hsource,
                      htests, hprotected⟩
  · rintro ⟨⟨paths, hpaths⟩, test, raws, htest, hitems, htest', hlint, hjunit, hsource, htests,
      hprotected⟩
    obtain ⟨commands, hcommands⟩ := tableAt_of_valueAt htest
    rw [hcommands, hpaths]
    simp only [tableAt_get? hcommands, tableAt_get? hpaths, htest, hitems, htest', hlint, hjunit,
      hsource, htests, hprotected, ok_bind]

theorem exists_forall₂ {R : Str → Str → Prop} {raws : List Str}
    (h : ∀ raw ∈ raws, ∃ path, R raw path) : ∃ paths, List.Forall₂ R raws paths := by
  induction raws with
  | nil => exact ⟨[], .nil⟩
  | cons raw rest ih =>
      obtain ⟨path, hpath⟩ := h raw List.mem_cons_self
      obtain ⟨paths, hpaths⟩ := ih fun raw' hraw' => h raw' (List.mem_cons_of_mem _ hraw')
      exact ⟨path :: paths, .cons hpath hpaths⟩

/-- A directory of the factory is absent, or has a normal form. -/
theorem exists_pathField {field key : String} {fallback : Str} (hfallback : PlainPath fallback)
    {doc : Table}
    (h : ∀ value, valueAt doc "paths" key = some value →
      ∃ raw path, value = .string raw ∧ normalizeRelativePath false raw = .ok path) :
    ∃ path, Factory.pathField field fallback (valueAt doc "paths" key) = .ok path := by
  cases hvalue : valueAt doc "paths" key with
  | none => exact ⟨fallback, (factory_pathField_eq_ok hfallback).mpr (Or.inl ⟨rfl, rfl⟩)⟩
  | some value =>
      obtain ⟨raw, path, rfl, hpath⟩ := h value hvalue
      exact ⟨path, (factory_pathField_eq_ok hfallback).mpr (Or.inr ⟨raw, rfl, hpath⟩)⟩

theorem exists_of_forall₂ {R : Str → Str → Prop} {raws paths : List Str}
    (h : List.Forall₂ R raws paths) {raw : Str} (hraw : raw ∈ raws) : ∃ path, R raw path := by
  induction h with
  | nil => cases hraw
  | cons hpath _ ih =>
      rcases List.mem_cons.mp hraw with rfl | hraw
      · exact ⟨_, hpath⟩
      · exact ih hraw

theorem Factory.refuses_of_accepts {doc : Table} {contract : TargetContract}
    (hparse : Factory.parse doc = .ok contract) : ¬ FactoryRefuses doc := by
  obtain ⟨htabled, test, raws, htest, hitems, htest', hlint, hjunit, hsource, htests,
    hprotected⟩ := factory_parse_eq_ok.mp hparse
  obtain ⟨raw, rfl, husable, -⟩ := factory_test_eq_ok.mp htest'
  rintro (⟨value, h, hnot⟩ | h | ⟨raw', h, hblank⟩ | ⟨value, h, hbad⟩ | ⟨value, h, hbad⟩ |
    ⟨key, hkey, value, h, hbad⟩ | ⟨value, h, hbad⟩)
  · obtain ⟨entries, hentries⟩ := htabled value h
    exact hnot entries hentries
  · exact h raw htest
  · rw [htest] at h
    cases h
    exact hblank husable
  · rcases factory_lint_eq_ok.mp hlint with ⟨hnone, -⟩ | ⟨raw', hraw', husable', -⟩
    · rw [h] at hnone
      cases hnone
    · rw [h] at hraw'
      exact hbad raw' (Option.some.inj hraw') husable'
  · obtain ⟨⟨hnone, -⟩ | ⟨raw', hraw', hpath⟩, hfront⟩ := factory_junit_eq_ok.mp hjunit
    · rw [h] at hnone
      cases hnone
    · rw [h] at hraw'
      rw [hbad raw' _ (Option.some.inj hraw') hpath] at hfront
      cases hfront
  · rcases hkey with rfl | rfl
    · rcases (factory_pathField_eq_ok plainPath_source).mp hsource with
        ⟨hnone, -⟩ | ⟨raw', hraw', hpath⟩
      · rw [h] at hnone
        cases hnone
      · rw [h] at hraw'
        exact hbad raw' _ (Option.some.inj hraw') hpath
    · rcases (factory_pathField_eq_ok plainPath_tests).mp htests with
        ⟨hnone, -⟩ | ⟨raw', hraw', hpath⟩
      · rw [h] at hnone
        cases hnone
      · rw [h] at hraw'
        exact hbad raw' _ (Option.some.inj hraw') hpath
  · rcases protectedItems_eq_some.mp hitems with ⟨hnone, -⟩ | ⟨items, hvalue, htexts⟩
    · rw [h] at hnone
      cases hnone
    · rw [h] at hvalue
      cases hvalue
      obtain ⟨raw', hraw', hnot⟩ := hbad raws htexts
      obtain ⟨paths, hpaths, -⟩ := map_eq_ok.mp hprotected
      obtain ⟨path, hpath⟩ := exists_of_forall₂ (factory_paths_eq_ok.mp hpaths) hraw'
      exact hnot path hpath

/-- The factory accepts a document unless it refuses a field. -/
theorem factory_accepts_iff (doc : Table) :
    (∃ contract, Factory.parse doc = .ok contract) ↔ ¬ FactoryRefuses doc := by
  refine ⟨fun ⟨contract, hparse⟩ => Factory.refuses_of_accepts hparse, fun hnot => ?_⟩
  have htabled : Tabled doc := by
    intro value hvalue
    by_contra h
    exact hnot (.notTable value hvalue (not_exists.mp h))
  obtain ⟨raw, hraw⟩ : ∃ raw, valueAt doc "commands" "test" = some (.string raw) := by
    by_contra h
    exact hnot (.noTest (not_exists.mp h))
  have husable : Usable (trim Text.isSpace raw) := by
    by_contra h
    exact hnot (.blankTest raw hraw h)
  obtain ⟨lint, hlint⟩ :
      ∃ lint, Factory.lintField (valueAt doc "commands" "lint") = .ok lint := by
    cases hvalue : valueAt doc "commands" "lint" with
    | none => exact ⟨none, rfl⟩
    | some value =>
        by_contra h
        refine hnot (.lint value hvalue fun raw' hraw' husable' => ?_)
        exact h ⟨some (trim Text.isSpace raw'),
          factory_lint_eq_ok.mpr (Or.inr ⟨raw', congrArg some hraw', husable', rfl⟩)⟩
  obtain ⟨junit, hjunit⟩ :
      ∃ junit, Factory.junitField (valueAt doc "paths" "junit") = .ok junit := by
    cases hvalue : valueAt doc "paths" "junit" with
    | none => exact ⟨defaultJunit, factory_junit_eq_ok.mpr ⟨Or.inl ⟨rfl, rfl⟩, by decide⟩⟩
    | some value =>
        by_contra h
        refine hnot (.junit value hvalue fun raw' path hraw' hpath => ?_)
        rw [Bool.eq_false_iff]
        exact fun hfront => h ⟨path, factory_junit_eq_ok.mpr
          ⟨Or.inr ⟨raw', congrArg some hraw', hpath⟩, hfront⟩⟩
  have hdirectory : ∀ key, key = "source" ∨ key = "tests" → ∀ value,
      valueAt doc "paths" key = some value →
        ∃ raw path, value = .string raw ∧ normalizeRelativePath false raw = .ok path := by
    intro key hkey value hvalue
    by_contra h
    exact hnot (.directory key hkey value hvalue fun raw' path hraw' hpath =>
      h ⟨raw', path, hraw', hpath⟩)
  obtain ⟨source, hsource⟩ := @exists_pathField "source" "source" _ plainPath_source doc
    (hdirectory "source" (Or.inl rfl))
  obtain ⟨testsDir, htests⟩ := @exists_pathField "tests_dir" "tests" _ plainPath_tests doc
    (hdirectory "tests" (Or.inr rfl))
  obtain ⟨raws, protectedPaths, hitems, hprotected⟩ : ∃ raws protectedPaths,
      Factory.protectedItems (valueAt doc "paths" "protected") = some raws ∧
        Factory.protectedField raws = .ok protectedPaths := by
    cases hvalue : valueAt doc "paths" "protected" with
    | none => exact ⟨[], [], rfl, rfl⟩
    | some value =>
        by_contra h
        refine hnot (.protectedPaths value hvalue fun raws htexts => ?_)
        by_contra hpaths
        push Not at hpaths
        obtain ⟨paths, hall⟩ := exists_forall₂ hpaths
        refine h ⟨raws, distinct paths, protectedItems_eq_some.mpr (Or.inr ⟨value, rfl, htexts⟩),
          map_eq_ok.mpr ⟨paths, factory_paths_eq_ok.mpr hall, rfl⟩⟩
  exact ⟨⟨trim Text.isSpace raw, lint, junit, source, testsDir, protectedPaths⟩,
    factory_parse_eq_ok.mpr ⟨htabled, .string raw, raws, hraw, hitems,
      factory_test_eq_ok.mpr ⟨raw, rfl, husable, rfl⟩, hlint, hjunit, hsource, htests,
      hprotected⟩⟩

/-! ## Agreement -/

theorem mem_distinct {text : Str} {texts : List Str} : text ∈ distinct texts ↔ text ∈ texts := by
  induction texts with
  | nil => rfl
  | cons first rest ih =>
      by_cases h : text = first <;> simp [distinct, ih, h]

/-- The normal form of a normal form is that form itself. -/
theorem plain_of_normalize {raw path path' : Str}
    (h : normalizeRelativePath false raw = .ok path)
    (h' : normalizeRelativePath false path = .ok path') : PlainPath path := by
  have hsame := (normalize_of_normal (normal_of_normalize h) h').1
  rw [hsame] at h'
  exact h'

theorem forall₂_plain {raws : List Str} (h : ∀ raw ∈ raws, PlainPath raw) :
    List.Forall₂ (fun raw path => normalizeRelativePath false raw = .ok path) raws raws :=
  List.forall₂_same.mpr h

theorem exists_source_of_forall₂ {R : Str → Str → Prop} {raws paths : List Str}
    (h : List.Forall₂ R raws paths) {path : Str} (hpath : path ∈ paths) : ∃ raw, R raw path := by
  induction h with
  | nil => cases hpath
  | cons hraw _ ih =>
      rcases List.mem_cons.mp hpath with rfl | hpath
      · exact ⟨_, hraw⟩
      · exact ih hpath

/-- The two lists are equal only if nothing had to be brought into its normal form. -/
theorem plain_of_distinct {raws paths : List Str}
    (hall : List.Forall₂ (fun raw path => normalizeRelativePath false raw = .ok path) raws paths)
    (hsame : distinct raws = distinct paths) : ∀ raw ∈ raws, PlainPath raw := by
  intro raw hraw
  have hmem : raw ∈ paths := by
    rw [← mem_distinct, ← hsame]
    exact mem_distinct.mpr hraw
  obtain ⟨raw', hraw'⟩ := exists_source_of_forall₂ hall hmem
  obtain ⟨path, hpath⟩ := exists_of_forall₂ hall hraw
  exact plain_of_normalize hraw' hpath

/-- The text at a key of `paths`, seen by both. -/
theorem plain_directory {doc : Table} {field key : String} {fallback path : Str}
    (hfallback : PlainPath fallback)
    (hconsole : path = (Console.stringAt doc "paths" key).getD fallback)
    (hfactory : Factory.pathField field fallback (valueAt doc "paths" key) = .ok path) :
    Optional PlainPath (valueAt doc "paths" key) := by
  rcases (factory_pathField_eq_ok hfallback).mp hfactory with ⟨hnone, -⟩ | ⟨raw, hraw, hpath⟩
  · exact Or.inl hnone
  · rw [stringAt_eq_some.mpr hraw, Option.getD_some] at hconsole
    rw [hconsole] at hpath
    exact Or.inr ⟨raw, hraw, hpath⟩

theorem directory_of_plain {doc : Table} {field key : String} {fallback : Str}
    (hfallback : PlainPath fallback)
    (h : Optional PlainPath (valueAt doc "paths" key)) :
    Factory.pathField field fallback (valueAt doc "paths" key) =
      .ok ((Console.stringAt doc "paths" key).getD fallback) := by
  refine (factory_pathField_eq_ok hfallback).mpr ?_
  rcases h with hnone | ⟨raw, hraw, hplain⟩
  · refine Or.inl ⟨hnone, ?_⟩
    rw [Console.stringAt, hnone]
    rfl
  · refine Or.inr ⟨raw, hraw, ?_⟩
    rw [stringAt_eq_some.mpr hraw]
    exact hplain

theorem plainPath_junit : PlainPath defaultJunit := by
  unfold PlainPath
  decide

/-- Both readers accept, with the same contract, exactly the plain documents. -/
theorem plain_iff (doc : Table) :
    Plain doc ↔ ∃ contract, Console.parse doc = .ok contract ∧
      Factory.parse doc = .ok contract := by
  constructor
  · intro hplain
    obtain ⟨raw, hraw, hmargin, husable⟩ := hplain.test
    have hlint : ∃ lint, Console.command doc "lint" = .ok lint ∧
        Factory.lintField (valueAt doc "commands" "lint") = .ok lint := by
      rcases hplain.lint with hnone | ⟨raw', hraw', hmargin', husable'⟩
      · refine ⟨none, console_command_none.mpr fun raw' hraw' => ?_, by rw [hnone]; rfl⟩
        rw [hnone] at hraw'
        cases hraw'
      · refine ⟨some (trimText raw'), console_command_some.mpr ⟨raw', hraw', husable', rfl⟩, ?_⟩
        rw [← hmargin']
        exact factory_lint_eq_ok.mpr (Or.inr ⟨raw', hraw', hmargin'.symm ▸ husable', rfl⟩)
    have hprotected : ∃ paths raws, Console.protectedOf doc = .ok paths ∧
        Factory.protectedItems (valueAt doc "paths" "protected") = some raws ∧
        Factory.protectedField raws = .ok paths := by
      rcases hplain.protectedPaths with hnone | ⟨value, raws, hvalue, htexts, hall⟩
      · exact ⟨[], [], console_protected_eq_ok.mpr (Or.inl ⟨hnone, rfl⟩),
          protectedItems_eq_some.mpr (Or.inl ⟨hnone, rfl⟩), rfl⟩
      · exact ⟨distinct raws, raws,
          console_protected_eq_ok.mpr (Or.inr ⟨value, raws, hvalue, htexts, rfl⟩),
          protectedItems_eq_some.mpr (Or.inr ⟨value, hvalue, htexts⟩),
          map_eq_ok.mpr ⟨raws, factory_paths_eq_ok.mpr (forall₂_plain hall), rfl⟩⟩
    have hjunit : junitPrefix.isPrefixOf
          ((Console.stringAt doc "paths" "junit").getD defaultJunit) = true ∧
        Factory.junitField (valueAt doc "paths" "junit") =
          .ok ((Console.stringAt doc "paths" "junit").getD defaultJunit) := by
      rcases hplain.junit with hnone | ⟨raw', hraw', hpath, hfront⟩
      · rw [Console.stringAt, hnone]
        exact ⟨by decide, factory_junit_eq_ok.mpr ⟨Or.inl ⟨rfl, rfl⟩, by decide⟩⟩
      · rw [stringAt_eq_some.mpr hraw', Option.getD_some]
        exact ⟨hfront, factory_junit_eq_ok.mpr ⟨Or.inr ⟨raw', hraw', hpath⟩, hfront⟩⟩
    obtain ⟨lint, hlint, hlint'⟩ := hlint
    obtain ⟨paths, raws, hpaths, hitems, hpaths'⟩ := hprotected
    refine ⟨⟨trimText raw, lint, _, _, _, paths⟩, console_parse_eq_ok.mpr
      ⟨console_command_some.mpr ⟨raw, hraw, husable, rfl⟩, hlint, rfl, hjunit.1, hpaths, rfl, rfl⟩,
      factory_parse_eq_ok.mpr ⟨hplain.tables, .string raw, raws, hraw, hitems,
        factory_test_eq_ok.mpr ⟨raw, rfl, hmargin.symm ▸ husable, hmargin.symm⟩, hlint', hjunit.2,
        directory_of_plain plainPath_source hplain.source,
        directory_of_plain plainPath_tests hplain.tests, hpaths'⟩⟩
  · rintro ⟨contract, hconsole, hfactory⟩
    obtain ⟨hctest, hclint, hcjunit, hfront, hcpaths, hcsource, hctests⟩ :=
      console_parse_eq_ok.mp hconsole
    obtain ⟨htabled, test, raws, htest, hitems, hftest, hflint, hfjunit, hfsource, hftests,
      hfpaths⟩ := factory_parse_eq_ok.mp hfactory
    refine ⟨htabled, ?_, ?_, ?_, plain_directory plainPath_source hcsource hfsource,
      plain_directory plainPath_tests hctests hftests, ?_⟩
    · obtain ⟨raw, hraw, husable, hvalue⟩ := console_command_some.mp hctest
      obtain ⟨raw', rfl, -, hvalue'⟩ := factory_test_eq_ok.mp hftest
      rw [hraw] at htest
      cases htest
      exact ⟨raw, hraw, hvalue'.symm.trans hvalue, husable⟩
    · rcases factory_lint_eq_ok.mp hflint with ⟨hnone, -⟩ | ⟨raw, hraw, -, hvalue⟩
      · exact Or.inl hnone
      · rw [hvalue] at hclint
        obtain ⟨raw', hraw', husable, hsame⟩ := console_command_some.mp hclint
        rw [hraw] at hraw'
        cases hraw'
        exact Or.inr ⟨raw, hraw, hsame, husable⟩
    · rcases (factory_junit_eq_ok.mp hfjunit).1 with ⟨hnone, -⟩ | ⟨raw, hraw, hpath⟩
      · exact Or.inl hnone
      · rw [stringAt_eq_some.mpr hraw, Option.getD_some] at hcjunit
        rw [hcjunit] at hpath hfront
        exact Or.inr ⟨raw, hraw, hpath, hfront⟩
    · rcases console_protected_eq_ok.mp hcpaths with ⟨hnone, -⟩ | ⟨value, raws', hvalue, htexts, hsame⟩
      · exact Or.inl hnone
      · rcases protectedItems_eq_some.mp hitems with ⟨hnone, -⟩ | ⟨value', hvalue', htexts'⟩
        · rw [hvalue] at hnone
          cases hnone
        · rw [hvalue] at hvalue'
          cases hvalue'
          have hraws : raws' = raws := by
            unfold Texts at htexts htexts'
            rw [htexts] at htexts'
            have hinj : Function.Injective Toml.string := fun _ _ h => Toml.string.inj h
            exact List.map_injective_iff.mpr hinj (Toml.array.inj htexts')
          subst hraws
          obtain ⟨paths, hall, hdistinct⟩ := map_eq_ok.mp hfpaths
          rw [hsame] at hdistinct
          exact Or.inr ⟨value, raws', hvalue, htexts,
            plain_of_distinct (factory_paths_eq_ok.mp hall) hdistinct.symm⟩

/-- The file the console deletes before a run lies below `.factory/`. -/
def Below (path : Str) : Prop :=
  junitPrefix.isPrefixOf path = true ∧ ['.', '.'] ∉ splitAll '/' path

/-- The two readers agree on a document. -/
structure Agree (doc : Table) : Prop where
  accepts : (∃ contract, Console.parse doc = .ok contract) ↔
    ∃ contract, Factory.parse doc = .ok contract
  same : ∀ contract contract', Console.parse doc = .ok contract →
    Factory.parse doc = .ok contract' → contract = contract'
  junit : ∀ contract, Console.parse doc = .ok contract → Below contract.junit

theorem below_of_plain {path : Str} (h : PlainPath path)
    (hfront : junitPrefix.isPrefixOf path = true) : Below path :=
  ⟨hfront, fun hmem => ((canonical_of_normalize h).segments _ hmem).2.2 rfl⟩

/-- The readers agree exactly on the plain documents and on those both refuse. -/
theorem readers_agree_iff
    (doc : Table) :
    Agree doc ↔ Plain doc ∨ (ConsoleRefuses doc ∧ FactoryRefuses doc) := by
  constructor
  · intro hagree
    by_cases hconsole : ∃ contract, Console.parse doc = .ok contract
    · obtain ⟨contract', hfactory⟩ := hagree.accepts.mp hconsole
      obtain ⟨contract, hconsole⟩ := hconsole
      have hsame := hagree.same contract contract' hconsole hfactory
      exact Or.inl ((plain_iff doc).mpr ⟨contract, hconsole, hsame ▸ hfactory⟩)
    · have hfactory := mt hagree.accepts.mpr hconsole
      rw [console_accepts_iff, not_not] at hconsole
      rw [factory_accepts_iff, not_not] at hfactory
      exact Or.inr ⟨hconsole, hfactory⟩
  · rintro (hplain | ⟨hconsole, hfactory⟩)
    · obtain ⟨contract, hconsole, hfactory⟩ := (plain_iff doc).mp hplain
      refine ⟨iff_of_true ⟨contract, hconsole⟩ ⟨contract, hfactory⟩, ?_, ?_⟩
      · intro contract₁ contract₂ h₁ h₂
        rw [hconsole] at h₁
        rw [hfactory] at h₂
        cases h₁
        cases h₂
        rfl
      · intro contract₁ h₁
        rw [hconsole] at h₁
        cases h₁
        obtain ⟨-, -, hjunit, hfront, -⟩ := console_parse_eq_ok.mp hconsole
        refine below_of_plain ?_ hfront
        rcases hplain.junit with hnone | ⟨raw, hraw, hpath, -⟩
        · rw [Console.stringAt, hnone] at hjunit
          exact hjunit ▸ plainPath_junit
        · rw [stringAt_eq_some.mpr hraw] at hjunit
          exact hjunit ▸ hpath
    · have hc := mt (console_accepts_iff doc).mp (not_not.mpr hconsole)
      have hf := mt (factory_accepts_iff doc).mp (not_not.mpr hfactory)
      exact ⟨iff_of_false hc hf, fun contract _ h => absurd ⟨contract, h⟩ hc,
        fun contract h => absurd ⟨contract, h⟩ hc⟩

/-- A report outside `.factory/`, behind its prefix. -/
def escaping : Table :=
  [("commands", .table [("test", .string "pytest".toList)]),
    ("paths", .table [("junit", .string ".factory/../setup.py".toList)])]

/-- The console accepts a report path that leaves `.factory/`; the factory refuses it. -/
theorem report_path_escapes : ¬ Agree escaping := by
  intro h
  have hparse : Console.parse escaping = .ok
      ⟨"pytest".toList, none, ".factory/../setup.py".toList, defaultSource, defaultTests, []⟩ := by
    decide
  have hbelow := (h.junit _ hparse).2
  revert hbelow
  decide

end Contracts
end SwFactory
