import Mathlib.Data.List.Basic

/-!
# Text checks of the durable stores

The stores validate identifiers before they touch a table.  The checks are
written on the characters of a string, so that they evaluate.

Sources: `cells.py` (`is_cell_id`), `idempotency.py` (`_validate_digest`) and
the string methods of the language that they use.
-/

namespace SwFactory
namespace Text

/-- Clock readings and lease ends, in a fixed unit. -/
abbrev Time := Nat

/-- The characters `[0-9a-f]`. -/
def isLowerHex (c : Char) : Bool :=
  "0123456789abcdef".toList.contains c

/-- The code points that `str.strip` removes. -/
def isSpace (c : Char) : Bool :=
  let n := c.toNat
  (0x09 ≤ n && n ≤ 0x0d) || (0x1c ≤ n && n ≤ 0x20) ||
    (0x2000 ≤ n && n ≤ 0x200a) ||
    [0x85, 0xa0, 0x1680, 0x2028, 0x2029, 0x202f, 0x205f, 0x3000].contains n

/-- `not value.strip()`. -/
def isBlank (value : String) : Bool :=
  value.toList.all isSpace

/-- `value.strip()`. -/
def strip (value : String) : String :=
  String.ofList
    ((value.toList.dropWhile isSpace).reverse.dropWhile isSpace).reverse

/-- `value[:n]`. -/
def truncate (n : Nat) (value : String) : String :=
  String.ofList (value.toList.take n)

/--
`is_cell_id`: `cell_` and 24 lowercase hex characters.  The `$` of the pattern
also matches in front of one final line feed.
-/
def isCellId (value : String) : Bool :=
  let chars := value.toList
  let digest := (chars.drop 5).take 24
  chars.take 5 == "cell_".toList &&
    digest.length == 24 && digest.all isLowerHex &&
    (chars.drop 29 == [] || chars.drop 29 == ['\n'])

/-- `value.startswith("sha256:")`. -/
def hasDigestScheme (value : String) : Bool :=
  value.toList.take 7 == "sha256:".toList

/-- What follows `sha256:` has 64 lowercase hex characters. -/
def hasDigestForm (value : String) : Bool :=
  let digest := value.toList.drop 7
  digest.length == 64 && digest.all isLowerHex

end Text
end SwFactory
