import Mathlib.Data.Rat.Defs
import SwFactory.Lexical.Splitting
import SwFactory.Machine.Dicts
import SwFactory.Text

/-!
# Blueprint documents

A parsed TOML document, and the ways in which the two readers of a blueprint
take a value out of it.  What the validation library makes of a value that is
not of the declared type is a parameter: `Coercion` holds its readings, and
`Coercion.Lawful` what is documented of them.

Sources: `blueprint.py`, `dags/blueprints.py`, and the built-in `int` and `timedelta`.
-/

namespace SwFactory
namespace Blueprints

open Lexical
open Machine

abbrev Text := List Char

/-- A date and time, with the offset from UTC if it has one. -/
structure Moment where
  wall : Text
  offset : Option Int
deriving DecidableEq

/-- `tzinfo is not None` -/
def Moment.aware (m : Moment) : Bool :=
  m.offset.isSome

/-- A parsed TOML value; the finite floats are exact. -/
inductive Toml
  | string (text : Text)
  | integer (value : Int)
  | boolean (value : Bool)
  | float (value : Rat)
  | nonFinite (text : Text)
  | datetime (moment : Moment)
  | date (text : Text)
  | time (text : Text)
  | array (items : List Toml)
  | table (entries : List (String × Toml))

abbrev Table :=
  Dict String Toml

namespace Toml

def asString : Toml → Option Text
  | .string text => some text
  | _ => none

def asArray : Toml → Option (List Toml)
  | .array items => some items
  | _ => none

def asTable : Toml → Option Table
  | .table entries => some entries
  | _ => none

/-- `list[str]` -/
def asTexts (v : Toml) : Option (List Text) :=
  v.asArray.bind (fun items => items.mapM asString)

/-- The truth value of a value. -/
def truthy : Toml → Bool
  | .string text => text != []
  | .integer n => n != 0
  | .boolean b => b
  | .float q => q != 0
  | .array items => !items.isEmpty
  | .table entries => !entries.isEmpty
  | _ => true

end Toml

/-! ## Built-in readings -/

section Integers

variable (digit : Char → Option Nat)

/-- Decimal digits, with single underscores between them. -/
def digitsValue : Nat → Text → Option Nat
  | n, [] => some n
  | n, '_' :: c :: rest => (digit c).bind (fun d => digitsValue (10 * n + d) rest)
  | n, c :: rest => (digit c).bind (fun d => digitsValue (10 * n + d) rest)

/-- A text of digits that starts with one; more than 4300 of them are refused. -/
def unsigned : Text → Option Nat
  | [] => none
  | c :: rest =>
      if 4300 < (c :: rest).countP (· ≠ '_') then
        none
      else
        (digit c).bind (fun d => digitsValue digit d rest)

/-- `int(text)` -/
def intText (text : Text) : Option Int :=
  match trim Text.isSpace text with
  | '-' :: rest => (unsigned digit rest).map (fun n => -(n : Int))
  | '+' :: rest => (unsigned digit rest).map Int.ofNat
  | rest => (unsigned digit rest).map Int.ofNat

/-- `int(value)` -/
def int : Toml → Option Int
  | .integer n => some n
  | .boolean b => some (if b then 1 else 0)
  | .float q => some (Int.tdiv q.num q.den)
  | .string text => intText digit text
  | _ => none

end Integers

/-- `timedelta(seconds=n)`, refused beyond 999999999 days. -/
def timedelta (seconds : Int) : Option Int :=
  if -999999999 ≤ seconds / 86400 ∧ seconds / 86400 ≤ 999999999 then
    some seconds
  else
    none

/-! ## Readings of the validation library -/

/-- What the fields of a model take for an integer, a float, a date and time, and for the
literal 1. -/
structure Coercion where
  int : Toml → Option Int
  float : Toml → Option Rat
  datetime : Toml → Option Moment
  literalOne : Toml → Bool

/-- What is documented of the readings. -/
structure Coercion.Lawful (C : Coercion) (digit : Char → Option Nat) : Prop where
  integer : ∀ n, C.int (.integer n) = some n
  boolean : ∀ b n, C.int (.boolean b) = some n → n = if b then 1 else 0
  /-- A float is taken if it is a whole number. -/
  float : ∀ q n, C.int (.float q) = some n → q = n
  /-- A numeric text stands for its number. -/
  string : ∀ text m n, C.int (.string text) = some n → intText digit text = some m → n = m
  empty : C.int (.string []) = none
  other : ∀ v n, C.int v = some n →
    (∃ n, v = .integer n) ∨ (∃ b, v = .boolean b) ∨ (∃ q, v = .float q) ∨ ∃ text, v = .string text
  datetime : ∀ m, C.datetime (.datetime m) = some m

section Fields

variable {α : Type}

/-- `extra="forbid"` -/
def only (keys : List String) (t : Table) : Option Unit :=
  if t.keys.all (fun k => keys.contains k) then some ⟨⟩ else none

/-- A field with a default, which is not validated. -/
def fieldOr (t : Table) (key : String) (default : α) (read : Toml → Option α) : Option α :=
  match t.get? key with
  | none => some default
  | some v => read v

def required (t : Table) (key : String) (read : Toml → Option α) : Option α :=
  (t.get? key).bind read

/-- A field whose default is `None`. -/
def optional (t : Table) (key : String) (read : Toml → Option α) : Option (Option α) :=
  fieldOr t key none (fun v => (read v).map some)

variable (C : Coercion)

/-- `int`, with `ge` -/
def atLeast (least : Int) (v : Toml) : Option Int :=
  (C.int v).filter (fun n => least ≤ n)

/-- `int`, with `ge` and `le` -/
def within (least most : Int) (v : Toml) : Option Int :=
  (C.int v).filter (fun n => least ≤ n && n ≤ most)

/-- `float`, with `gt=0` and without infinities -/
def positive (v : Toml) : Option Rat :=
  (C.float v).filter (fun q => 0 < q)

/-- A `str` with a validator. -/
def textBy (check : Text → Option Text) (v : Toml) : Option Text :=
  v.asString.bind check

/-- `list[Model]` -/
def listOf (read : Toml → Option α) (v : Toml) : Option (List α) :=
  v.asArray.bind (fun items => items.mapM read)

end Fields

end Blueprints
end SwFactory
