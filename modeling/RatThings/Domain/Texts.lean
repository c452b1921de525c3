import Mathlib.Algebra.GroupWithZero.Nat

/-!
# Texts as JavaScript has them

A length is a number of UTF-16 code units, and a slice takes that many. `trim` knows white space and
line ends, which is more than the space characters of ASCII.

A text here is made of whole characters. A slice that would end inside of a surrogate pair ends in
front of it.
-/

namespace RatThings

/-! ## Lengths and slices -/

/-- The code units of a character in UTF-16. -/
def codeUnits (c : Char) : ℕ := if c.toNat < 0x10000 then 1 else 2

def utf16Length (s : String) : ℕ := (s.toList.map codeUnits).sum

/-- The first code units of a text. -/
def sliceUnits : ℕ → List Char → List Char
  | _, [] => []
  | units, c :: cs =>
    if codeUnits c ≤ units then c :: sliceUnits (units - codeUnits c) cs else []

def sliceText (units : ℕ) (s : String) : String := String.ofList (sliceUnits units s.toList)

/-! ## White space -/

/-- White space or a line end, as `trim` has them. -/
def isTrimmed (c : Char) : Bool :=
  let n := c.toNat
  (9 ≤ n && n ≤ 13) || n == 0x20 || n == 0xA0 || n == 0x1680 || (0x2000 ≤ n && n ≤ 0x200A) ||
    n == 0x2028 || n == 0x2029 || n == 0x202F || n == 0x205F || n == 0x3000 || n == 0xFEFF

/-- The messages are empty. -/
def isBlank (messages : List String) : Bool := (String.join messages).toList.all isTrimmed

def isLineBreak (c : Char) : Bool := c == '\r' || c == '\n'

/-- `replace(/[\r\n]+/g, ' ')`: a run of line breaks is one space. -/
def joinLines : (afterBreak : Bool) → List Char → List Char
  | _, [] => []
  | afterBreak, c :: cs =>
    if isLineBreak c then if afterBreak then joinLines true cs else ' ' :: joinLines true cs
    else c :: joinLines false cs

end RatThings
