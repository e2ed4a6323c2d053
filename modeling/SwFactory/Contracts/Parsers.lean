import SwFactory.Identities.Ids
import SwFactory.Machine.Dicts
import SwFactory.Paths.Relative

/-!
# The two readers of a target contract

A `factory.toml` is a tree of tables, lists and values.  The factory validates
every field of the tree; the console looks the fields up, takes a value of
another type for an absent one, and keeps the texts as they are.

Sources: `config.py` (`TargetContract`) and `delivery.rs` (`parse_contract`).
-/

namespace SwFactory
namespace Contracts

open Identities
open Lexical
open Machine
open Paths

/-- A parsed TOML value; numbers and dates as their text. -/
inductive Toml
  | string (text : Str)
  | integer (value : Int)
  | boolean (value : Bool)
  | float (text : Str)
  | datetime (text : Str)
  | array (items : List Toml)
  | table (entries : List (String × Toml))

abbrev Table :=
  Dict String Toml

def Toml.asString : Toml → Option Str
  | .string text => some text
  | _ => none

def Toml.asTable : Toml → Option Table
  | .table entries => some entries
  | _ => none

def Toml.asArray : Toml → Option (List Toml)
  | .array items => some items
  | _ => none

/-- What both readers make of a contract. -/
structure TargetContract where
  test : Str
  lint : Option Str
  junit : Str
  source : Str
  testsDir : Str
  protectedPaths : List Str
deriving DecidableEq, Repr

def defaultJunit : Str :=
  ".factory/junit.xml".toList

def junitPrefix : Str :=
  ".factory/".toList

def defaultSource : Str :=
  "src".toList

def defaultTests : Str :=
  "tests".toList

/-- Drop every text that came before; the first occurrence stays. -/
def distinct : List Str → List Str
  | [] => []
  | text :: rest => text :: (distinct rest).filter (· ≠ text)

/-! ## The console -/

namespace Console

/-- `table.get(section)?.as_table()?.get(key)` -/
def valueAt (doc : Table) (section' key : String) : Option Toml :=
  ((doc.get? section').bind Toml.asTable).bind (fun table => table.get? key)

/-- `string_at` -/
def stringAt (doc : Table) (section' key : String) : Option Str :=
  (valueAt doc section' key).bind Toml.asString

/-- `command` -/
def command (doc : Table) (key : String) : Except String (Option Str) :=
  match stringAt doc "commands" key with
  | some raw =>
      let value := trimText raw
      if value = [] ∨ '\x00' ∈ value then
        .error ("commands." ++ key ++ " must be a non-empty command")
      else
        .ok (some value)
  | none => .ok none

def notStrings : String :=
  "paths.protected must be an array of strings"

/-- `if !protected.iter().any(|seen| seen == value) { protected.push(value) }`, item by item. -/
def collect (found : List Str) : List Toml → Except String (List Str)
  | [] => .ok found
  | item :: rest =>
      match item.asString with
      | none => .error notStrings
      | some value => collect (if value ∈ found then found else found ++ [value]) rest

def protectedOf (doc : Table) : Except String (List Str) :=
  match valueAt doc "paths" "protected" with
  | none => .ok []
  | some values =>
      match values.asArray with
      | none => .error notStrings
      | some items => collect [] items

/-- `parse_contract` -/
def parse (doc : Table) : Except String TargetContract :=
  command doc "test" >>= fun test =>
    match test with
    | none => .error "factory.toml must define [commands].test"
    | some test =>
        command doc "lint" >>= fun lint =>
          let junit := (stringAt doc "paths" "junit").getD defaultJunit
          if junitPrefix.isPrefixOf junit then
            protectedOf doc >>= fun protectedPaths =>
              .ok ⟨test, lint, junit, (stringAt doc "paths" "source").getD defaultSource,
                (stringAt doc "paths" "tests").getD defaultTests, protectedPaths⟩
          else
            .error "paths.junit must live below .factory/"

end Console

/-! ## The factory -/

namespace Factory

inductive ContractError
  | notTables
  | noTest
  | protectedNotStrings
  | notString (field : String)
  | tooShort (field : String)
  | badCommand (field : String)
  | badPath (field : String) (error : PathError)
  | junitOutside
deriving DecidableEq, Repr

/-- `data.get(name, {})`, if it is a table. -/
def tableAt (doc : Table) (name : String) : Option Table :=
  match doc.get? name with
  | none => some []
  | some value => value.asTable

/-- A field of type `str`. -/
def text (field : String) (value : Toml) : Except ContractError Str :=
  match value.asString with
  | some raw => .ok raw
  | none => .error (.notString field)

/-- `_command` -/
def command (field : String) (raw : Str) : Except ContractError Str :=
  let value := trim Text.isSpace raw
  if value = [] ∨ '\x00' ∈ value then .error (.badCommand field) else .ok value

/-- `normalize_relative_path` for a field. -/
def path (field : String) (raw : Str) : Except ContractError Str :=
  match normalizeRelativePath false raw with
  | .ok value => .ok value
  | .error e => .error (.badPath field e)

/-- The field `test`, with `min_length=1`. -/
def testField (value : Toml) : Except ContractError Str :=
  text "test" value >>= fun raw =>
    if raw = [] then .error (.tooShort "test") else command "test" raw

/-- The field `lint`; an absent one is `None`. -/
def lintField : Option Toml → Except ContractError (Option Str)
  | none => .ok none
  | some value => (text "lint" value >>= command "lint").map some

/-- The fields `source` and `tests_dir`. -/
def pathField (field : String) (fallback : Str) : Option Toml → Except ContractError Str
  | none => path field fallback
  | some value => text field value >>= path field

/-- The field `junit`. -/
def junitField (value : Option Toml) : Except ContractError Str :=
  pathField "junit" defaultJunit value >>= fun junit =>
    if junitPrefix.isPrefixOf junit then .ok junit else .error .junitOutside

/-- The items of `paths.protected`, if they are strings. -/
def strings : List Toml → Option (List Str)
  | [] => some []
  | item :: rest => item.asString.bind (fun text => (strings rest).map (text :: ·))

def protectedItems (value : Option Toml) : Option (List Str) :=
  match value with
  | none => some []
  | some value => value.asArray.bind strings

def paths : List Str → Except ContractError (List Str)
  | [] => .ok []
  | raw :: rest =>
      path "protected" raw >>= fun value => (paths rest).map (value :: ·)

/-- `list(dict.fromkeys(...))` of the normal forms. -/
def protectedField (items : List Str) : Except ContractError (List Str) :=
  (paths items).map distinct

/-- `TargetContract.parse` -/
def parse (doc : Table) : Except ContractError TargetContract :=
  match tableAt doc "commands", tableAt doc "paths" with
  | some commands, some paths =>
      match commands.get? "test" with
      | none => .error .noTest
      | some test =>
          match protectedItems (paths.get? "protected") with
          | none => .error .protectedNotStrings
          | some items =>
              testField test >>= fun test =>
              lintField (commands.get? "lint") >>= fun lint =>
              junitField (paths.get? "junit") >>= fun junit =>
              pathField "source" defaultSource (paths.get? "source") >>= fun source =>
              pathField "tests_dir" defaultTests (paths.get? "tests") >>= fun testsDir =>
              protectedField items >>= fun protectedPaths =>
                .ok ⟨test, lint, junit, source, testsDir, protectedPaths⟩
  | _, _ => .error .notTables

end Factory

end Contracts
end SwFactory
