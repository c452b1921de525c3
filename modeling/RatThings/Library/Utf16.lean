import Mathlib.Data.UInt
import Mathlib.Data.List.Basic

/-!
# Strings of 16-bit units and their bytes

A string is a list of 16-bit units. Two units that form a surrogate pair are one character, and a
surrogate outside a pair is none: writing it as bytes writes the replacement character in its place.
-/

namespace Concurrent

/-- A string as its 16-bit units. -/
abbrev Utf16 := List UInt16

namespace Utf16

instance : LawfulBEq Utf16 := inferInstance

/-- The first half of a surrogate pair. -/
def isLead (u : UInt16) : Bool := 0xD800 ≤ u && u < 0xDC00

/-- The second half of a surrogate pair. -/
def isTrail (u : UInt16) : Bool := 0xDC00 ≤ u && u < 0xE000

/-- The character of a surrogate pair. -/
def paired (lead trail : UInt16) : ℕ :=
  0x10000 + (lead.toNat - 0xD800) * 0x400 + (trail.toNat - 0xDC00)

/-- A unit that is not part of a pair: its character, or none for half a pair. -/
def single (u : UInt16) : Option ℕ :=
  if isLead u || isTrail u then none else some u.toNat

/-- The characters of a string, `none` for each surrogate outside a pair. -/
def characters : Utf16 → List (Option ℕ)
  | [] => []
  | [u] => [single u]
  | u :: v :: rest =>
    if isLead u && isTrail v then some (paired u v) :: characters rest
    else single u :: characters (v :: rest)

/-- The bytes of one character. -/
def characterBytes (c : ℕ) : List UInt8 :=
  if c < 0x80 then [c.toUInt8]
  else if c < 0x800 then [(0xC0 + c / 0x40).toUInt8, (0x80 + c % 0x40).toUInt8]
  else if c < 0x10000 then
    [(0xE0 + c / 0x1000).toUInt8, (0x80 + c / 0x40 % 0x40).toUInt8, (0x80 + c % 0x40).toUInt8]
  else
    [(0xF0 + c / 0x40000).toUInt8, (0x80 + c / 0x1000 % 0x40).toUInt8,
      (0x80 + c / 0x40 % 0x40).toUInt8, (0x80 + c % 0x40).toUInt8]

/-- The bytes of a string. -/
def bytes (s : Utf16) : List UInt8 :=
  (characters s).flatMap fun c ↦ characterBytes (c.getD 0xFFFD)

theorem characterBytes_ne_nil (c : ℕ) : characterBytes c ≠ [] := by
  simp only [characterBytes]
  split_ifs <;> exact List.cons_ne_nil _ _

theorem characters_ne_nil {s : Utf16} (h : s ≠ []) : characters s ≠ [] := by
  fun_cases characters s with
  | case1 => exact absurd rfl h
  | case2 => exact List.cons_ne_nil _ _
  | case3 => exact List.cons_ne_nil _ _
  | case4 => exact List.cons_ne_nil _ _

/-- A string that is not empty has bytes. -/
theorem bytes_ne_nil {s : Utf16} (h : s ≠ []) : bytes s ≠ [] := by
  obtain ⟨c, rest, hs⟩ := List.exists_cons_of_ne_nil (characters_ne_nil h)
  rw [bytes, hs, List.flatMap_cons]
  exact fun hnil ↦ characterBytes_ne_nil _ (List.append_eq_nil_iff.mp hnil).1

end Utf16

end Concurrent
