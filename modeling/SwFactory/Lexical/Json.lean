import Mathlib.Data.List.Basic

/-!
# JSON text

The writer prints without spaces and escapes what has to be escaped; the reader
takes any JSON text, with spaces, all escapes and the constants `NaN` and
`Infinity`.  A text is a list of code points.  A number is the literal it is
written as: printing a number and reading it back is a matter of the number
type, not of the text.

`json.dumps(value, separators=(",", ":"), ensure_ascii=False)` and
`json.loads(text)` are `dumps` and `loads`.
-/

namespace SwFactory
namespace Lexical
namespace Json

abbrev Str := List Nat

/-- The code point of a character. -/
abbrev cp (c : Char) : Nat := c.toNat

/-- The code points of a literal. -/
def word (s : String) : Str :=
  s.toList.map cp

/-! ## Numbers -/

def isDigit (c : Nat) : Bool :=
  cp '0' ≤ c && c ≤ cp '9'

/-- The digits in front. -/
def digits (s : Str) : Str × Str :=
  (s.takeWhile isDigit, s.dropWhile isDigit)

/-- `0`, or digits that do not start with it. -/
def takeNat : Str → Option (Str × Str)
  | [] => none
  | c :: rest =>
      if c = cp '0' then
        some ([c], rest)
      else if isDigit c then
        some (c :: (digits rest).1, (digits rest).2)
      else
        none

def takeInt : Str → Option (Str × Str)
  | [] => none
  | c :: rest =>
      if c = cp '-' then
        (takeNat rest).map (fun cut => (c :: cut.1, cut.2))
      else
        takeNat (c :: rest)

/-- A point and digits, or nothing. -/
def takeFraction : Str → Str × Str
  | [] => ([], [])
  | c :: rest =>
      if c = cp '.' ∧ (digits rest).1 ≠ [] then
        (c :: (digits rest).1, (digits rest).2)
      else
        ([], c :: rest)

/-- A sign, where there is one. -/
def takeSign : Str → Str × Str
  | [] => ([], [])
  | c :: rest =>
      if c = cp '+' ∨ c = cp '-' then ([c], rest) else ([], c :: rest)

/-- An exponent, or nothing. -/
def takeExponent : Str → Str × Str
  | [] => ([], [])
  | c :: rest =>
      if (c = cp 'e' ∨ c = cp 'E') ∧ (digits (takeSign rest).2).1 ≠ [] then
        (c :: (takeSign rest).1 ++ (digits (takeSign rest).2).1,
          (digits (takeSign rest).2).2)
      else
        ([], c :: rest)

/-- `sys.get_int_max_str_digits()`. -/
def maxStrDigits : Nat :=
  4300

/-- A number in front of the text; a longer integer is refused. -/
def number (s : Str) : Option (Str × Str) :=
  match takeInt s with
  | none => none
  | some (int, rest) =>
      let fraction := takeFraction rest
      let exponent := takeExponent fraction.2
      if fraction.1 = [] ∧ exponent.1 = [] ∧ maxStrDigits < int.countP isDigit then
        none
      else
        some (int ++ fraction.1 ++ exponent.1, exponent.2)

/-- The literals that are numbers. -/
def Literal :=
  { s : Str // number s = some (s, []) }

instance : DecidableEq Literal :=
  inferInstanceAs (DecidableEq { s : Str // number s = some (s, []) })

/-! ## Values -/

mutual

inductive Value
  | null
  | bool (value : Bool)
  | number (literal : Literal)
  | nan
  | infinity (negative : Bool)
  | string (text : List Nat)
  | array (items : Items)
  | object (members : Members)

inductive Items
  | nil
  | cons (head : Value) (tail : Items)

inductive Members
  | nil
  | cons (key : List Nat) (value : Value) (tail : Members)

end

/-! ## Strings -/

/-- One character of a string literal: itself or an escape, or a `\u` escape. -/
inductive Piece
  | plain (c : Nat)
  | unit (u : Nat)
deriving DecidableEq

def hexValue (c : Nat) : Option Nat :=
  if cp '0' ≤ c ∧ c ≤ cp '9' then
    some (c - cp '0')
  else if cp 'a' ≤ c ∧ c ≤ cp 'f' then
    some (c - cp 'a' + 10)
  else if cp 'A' ≤ c ∧ c ≤ cp 'F' then
    some (c - cp 'A' + 10)
  else
    none

def hexDigit (n : Nat) : Nat :=
  if n < 10 then cp '0' + n else cp 'a' + (n - 10)

/-- The characters that a backslash and one letter stand for. -/
def escaped (e : Nat) : Option Nat :=
  if e = cp '"' ∨ e = cp '\\' ∨ e = cp '/' then
    some e
  else if e = cp 'b' then
    some 0x08
  else if e = cp 'f' then
    some 0x0c
  else if e = cp 'n' then
    some 0x0a
  else if e = cp 'r' then
    some 0x0d
  else if e = cp 't' then
    some 0x09
  else
    none

/-- Four hexadecimal digits. -/
def hexUnit (a b c d : Nat) : Option Nat :=
  match hexValue a, hexValue b, hexValue c, hexValue d with
  | some a, some b, some c, some d => some (((a * 16 + b) * 16 + c) * 16 + d)
  | _, _, _, _ => none

/-- The characters up to the closing quote, and what follows it. -/
def pieces : Str → Option (List Piece × Str)
  | [] => none
  | c :: rest =>
      if c = cp '"' then
        some ([], rest)
      else if c = cp '\\' then
        match rest with
        | [] => none
        | e :: rest =>
            if e = cp 'u' then
              match rest with
              | a :: b :: c :: d :: rest =>
                  match hexUnit a b c d with
                  | some u => (pieces rest).map (fun cut => (.unit u :: cut.1, cut.2))
                  | none => none
              | _ => none
            else
              match escaped e with
              | some c => (pieces rest).map (fun cut => (.plain c :: cut.1, cut.2))
              | none => none
      else if c < 0x20 then
        none
      else
        (pieces rest).map (fun cut => (.plain c :: cut.1, cut.2))

def isHigh (u : Nat) : Bool :=
  0xd800 ≤ u && u < 0xdc00

def isLow (u : Nat) : Bool :=
  0xdc00 ≤ u && u < 0xe000

/-- Two `\u` escapes that are a surrogate pair stand for one character. -/
def join : List Piece → Str
  | [] => []
  | .plain c :: rest => c :: join rest
  | .unit u :: .unit v :: rest =>
      if isHigh u && isLow v then
        (0x10000 + (u - 0xd800) * 0x400 + (v - 0xdc00)) :: join rest
      else
        u :: join (.unit v :: rest)
  | .unit u :: rest => u :: join rest

/-- A string, behind its opening quote. -/
def string (s : Str) : Option (Str × Str) :=
  (pieces s).map (fun cut => (join cut.1, cut.2))

/-! ## The reader -/

def isSpace (c : Nat) : Bool :=
  c == 0x20 || c == 0x09 || c == 0x0a || c == 0x0d

def skipSpace (s : Str) : Str :=
  s.dropWhile isSpace

/-- The words that stand for a value. -/
def words : List (Str × Value) :=
  [(word "null", .null),
    (word "true", .bool true),
    (word "false", .bool false),
    (word "NaN", .nan),
    (word "Infinity", .infinity false),
    (word "-Infinity", .infinity true)]

/-- What follows the word, where the text starts with it. -/
def dropWord : Str → Str → Option Str
  | [], s => some s
  | _ :: _, [] => none
  | a :: w, c :: s => if c = a then dropWord w s else none

/-- The word that the first character announces. -/
def takeWord (s : Str) : Option (Value × Str) :=
  match words.find? (fun w => w.1.head? = s.head?) with
  | none => none
  | some (w, v) => (dropWord w s).map (fun rest => (v, rest))

/-- The literal that `number` took off the text. -/
def takeNumber (s : Str) : Option (Value × Str) :=
  match number s with
  | none => none
  | some (literal, rest) =>
      if h : number literal = some (literal, []) then
        some (.number ⟨literal, h⟩, rest)
      else
        none

/-- A value that is neither a string nor an array nor an object. -/
def scalar (s : Str) : Option (Value × Str) :=
  (takeWord s).or (takeNumber s)

/-- Insertion into a dictionary: a key keeps its place. -/
def Members.set (key : Str) (value : Value) : Members → Members
  | .nil => .cons key value .nil
  | .cons k v tail =>
      if k = key then .cons k value tail else .cons k v (tail.set key value)

/-- The pairs of a text, inserted in order. -/
def Members.into (dict : Members) : Members → Members
  | .nil => dict
  | .cons k v tail => Members.into (dict.set k v) tail

mutual

/-- A value at the front of the text, and what follows it. -/
def value : Nat → Str → Option (Value × Str)
  | 0, _ => none
  | _ + 1, [] => none
  | fuel + 1, c :: rest =>
      if c = cp '"' then
        (string rest).map (fun cut => (.string cut.1, cut.2))
      else if c = cp '[' then
        match skipSpace rest with
        | [] => none
        | d :: rest' =>
            if d = cp ']' then
              some (.array .nil, rest')
            else
              (items fuel (d :: rest')).map (fun cut => (.array cut.1, cut.2))
      else if c = cp '{' then
        match skipSpace rest with
        | [] => none
        | d :: rest' =>
            if d = cp '}' then
              some (.object .nil, rest')
            else
              (members fuel (d :: rest')).map
                (fun cut => (.object (Members.nil.into cut.1), cut.2))
      else
        scalar (c :: rest)

/-- The items of an array, up to its bracket. -/
def items : Nat → Str → Option (Items × Str)
  | 0, _ => none
  | fuel + 1, s =>
      match value fuel s with
      | none => none
      | some (v, rest) =>
          match skipSpace rest with
          | [] => none
          | d :: rest' =>
              if d = cp ']' then
                some (.cons v .nil, rest')
              else if d = cp ',' then
                (items fuel (skipSpace rest')).map (fun cut => (.cons v cut.1, cut.2))
              else
                none

/-- The members of an object, up to its brace. -/
def members : Nat → Str → Option (Members × Str)
  | 0, _ => none
  | _ + 1, [] => none
  | fuel + 1, c :: rest =>
      if c = cp '"' then
        match string rest with
        | none => none
        | some (key, rest) =>
            match skipSpace rest with
            | [] => none
            | d :: rest' =>
                if d = cp ':' then
                  match value fuel (skipSpace rest') with
                  | none => none
                  | some (v, rest) =>
                      match skipSpace rest with
                      | [] => none
                      | d :: rest' =>
                          if d = cp '}' then
                            some (.cons key v .nil, rest')
                          else if d = cp ',' then
                            (members fuel (skipSpace rest')).map
                              (fun cut => (.cons key v cut.1, cut.2))
                          else
                            none
                else
                  none
      else
        none

end

/-- `json.loads` of a text. -/
def loads (s : Str) : Option Value :=
  match value (s.length + 1) (skipSpace s) with
  | none => none
  | some (v, rest) => if skipSpace rest = [] then some v else none

/-! ## The writer -/

/-- `ESCAPE_DCT`, and the code points that stand for themselves. -/
def escape (c : Nat) : Str :=
  if c = cp '"' then
    [cp '\\', cp '"']
  else if c = cp '\\' then
    [cp '\\', cp '\\']
  else if c = 0x0a then
    [cp '\\', cp 'n']
  else if c = 0x0d then
    [cp '\\', cp 'r']
  else if c = 0x09 then
    [cp '\\', cp 't']
  else if c = 0x0c then
    [cp '\\', cp 'f']
  else if c = 0x08 then
    [cp '\\', cp 'b']
  else if c < 0x20 then
    [cp '\\', cp 'u', cp '0', cp '0', hexDigit (c / 16), hexDigit (c % 16)]
  else
    [c]

def dumpString (s : Str) : Str :=
  cp '"' :: s.flatMap escape ++ [cp '"']

mutual

/-- `json.dumps` of a value. -/
def dumps : Value → Str
  | .null => word "null"
  | .bool true => word "true"
  | .bool false => word "false"
  | .number literal => literal.1
  | .nan => word "NaN"
  | .infinity false => word "Infinity"
  | .infinity true => word "-Infinity"
  | .string text => dumpString text
  | .array items => cp '[' :: dumpItems items ++ [cp ']']
  | .object members => cp '{' :: dumpMembers members ++ [cp '}']

def dumpItems : Items → Str
  | .nil => []
  | .cons v .nil => dumps v
  | .cons v tail => dumps v ++ cp ',' :: dumpItems tail

def dumpMembers : Members → Str
  | .nil => []
  | .cons key v .nil => dumpString key ++ cp ':' :: dumps v
  | .cons key v tail => dumpString key ++ cp ':' :: dumps v ++ cp ',' :: dumpMembers tail

end

/-! ## Values that can be stored -/

/-- The key is not among the members. -/
def Members.lacks (key : Str) : Members → Bool
  | .nil => true
  | .cons k _ tail => k != key && tail.lacks key

mutual

/--
The value prints as text that can be encoded: its strings satisfy `ok`, its
keys are those of dictionaries, and no number in it is infinite.
-/
def plain (ok : Nat → Bool) : Value → Bool
  | .null | .bool _ | .number _ => true
  | .nan | .infinity _ => false
  | .string text => text.all ok
  | .array items => plainItems ok items
  | .object members => plainMembers ok members

def plainItems (ok : Nat → Bool) : Items → Bool
  | .nil => true
  | .cons v tail => plain ok v && plainItems ok tail

def plainMembers (ok : Nat → Bool) : Members → Bool
  | .nil => true
  | .cons key v tail =>
      key.all ok && tail.lacks key && plain ok v && plainMembers ok tail

end

end Json
end Lexical
end SwFactory
