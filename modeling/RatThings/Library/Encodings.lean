import Mathlib.Data.List.DropRight
import RatThings.Library.Utf16

/-!
# Spellings of a string

The texts that stand for a string inside base64 data, a JSON document, a URL or a form. Each is
written unit by unit or byte by byte, so that a string that is not empty has no empty spelling.
-/

namespace Concurrent

namespace Utf16

/-- The units of an ASCII text. -/
def ascii (text : List Char) : Utf16 := text.map fun c ↦ c.toNat.toUInt16

/-- ASCII texts with the same units are the same. -/
theorem ascii_inj {s t : List Char} (hs : ∀ c ∈ s, c.toNat < 0x80) (ht : ∀ c ∈ t, c.toNat < 0x80)
    (h : ascii s = ascii t) : s = t := by
  have hread : ∀ l : List Char, (∀ c ∈ l, c.toNat < 0x80) →
      (ascii l).map (fun u ↦ Char.ofNat u.toNat) = l := by
    intro l hl
    rw [ascii, List.map_map]
    refine (List.map_congr_left fun c hc ↦ ?_).trans (List.map_id l)
    have hsmall : c.toNat % 2 ^ 16 = c.toNat := Nat.mod_eq_of_lt (by have := hl c hc; omega)
    change Char.ofNat (c.toNat % 2 ^ 16) = c
    rw [hsmall, Char.ofNat_toNat]
  rw [← hread s hs, h, hread t ht]

/-- A digit of a number to a base of at most sixteen, with `letter` for ten. -/
def digit (letter : Char) (n : ℕ) : UInt16 :=
  if n < 10 then ('0'.toNat + n).toUInt16 else (letter.toNat + (n - 10)).toUInt16

/-! ## Base64 -/

/-- The bytes in groups of six bits, the last one filled up with zeros. -/
def sextets : List UInt8 → List ℕ
  | [] => []
  | [a] => [a.toNat / 4, a.toNat % 4 * 16]
  | [a, b] => [a.toNat / 4, a.toNat % 4 * 16 + b.toNat / 16, b.toNat % 16 * 4]
  | a :: b :: c :: rest =>
    a.toNat / 4 :: (a.toNat % 4 * 16 + b.toNat / 16) :: (b.toNat % 16 * 4 + c.toNat / 64) ::
      c.toNat % 64 :: sextets rest

/-- A unit of the alphabet that ends in `last` and `last'`. -/
def sextetUnit (last last' : Char) (n : ℕ) : UInt16 :=
  if n < 26 then ('A'.toNat + n).toUInt16
  else if n < 52 then ('a'.toNat + (n - 26)).toUInt16
  else if n < 62 then ('0'.toNat + (n - 52)).toUInt16
  else if n = 62 then last.toNat.toUInt16
  else last'.toNat.toUInt16

/-- `=` -/
def padding : UInt16 := 0x3D

/-- `bytes.toString('base64')` -/
def base64 (bytes : List UInt8) : Utf16 :=
  (sextets bytes).map (sextetUnit '+' '/') ++
    List.replicate ((3 - bytes.length % 3) % 3) padding

/-- `bytes.toString('base64url')` -/
def base64url (bytes : List UInt8) : Utf16 := (sextets bytes).map (sextetUnit '-' '_')

/-- `text.replace(/=+$/, '')` -/
def withoutPadding (text : Utf16) : Utf16 := text.rdropWhile (· = padding)

/-! ## JSON -/

/-- `\u` and four digits. -/
def unicodeEscape (n : ℕ) : Utf16 :=
  ascii ['\\', 'u'] ++ [digit 'a' (n / 0x1000), digit 'a' (n / 0x100 % 0x10),
    digit 'a' (n / 0x10 % 0x10), digit 'a' (n % 0x10)]

/-- A unit in a JSON text, except half a surrogate pair. -/
def jsonUnit (u : UInt16) : Utf16 :=
  match u.toNat with
  | 0x08 => ascii ['\\', 'b']
  | 0x09 => ascii ['\\', 't']
  | 0x0A => ascii ['\\', 'n']
  | 0x0C => ascii ['\\', 'f']
  | 0x0D => ascii ['\\', 'r']
  | 0x22 => ascii ['\\', '"']
  | 0x5C => ascii ['\\', '\\']
  | n => if n < 0x20 then unicodeEscape n else [u]

def jsonSingle (u : UInt16) : Utf16 :=
  if isLead u || isTrail u then unicodeEscape u.toNat else jsonUnit u

def jsonUnits : Utf16 → Utf16
  | [] => []
  | [u] => jsonSingle u
  | u :: v :: rest =>
    if isLead u && isTrail v then u :: v :: jsonUnits rest
    else jsonSingle u ++ jsonUnits (v :: rest)

/-- `JSON.stringify(text)` -/
def stringify (text : Utf16) : Utf16 := ascii ['"'] ++ jsonUnits text ++ ascii ['"']

/-! ## URLs and forms -/

/-- A letter or a digit. -/
def isAlphanumeric (n : ℕ) : Bool :=
  ('A'.toNat ≤ n && n ≤ 'Z'.toNat) || ('a'.toNat ≤ n && n ≤ 'z'.toNat) ||
    ('0'.toNat ≤ n && n ≤ '9'.toNat)

/-- `%` and the two digits of a byte. -/
def percent (b : UInt8) : Utf16 :=
  ascii ['%'] ++ [digit 'A' (b.toNat / 0x10), digit 'A' (b.toNat % 0x10)]

/-- A byte of a URL component: itself if it is a letter, a digit or one of `marks`. -/
def escapedByte (marks : List Char) (b : UInt8) : Utf16 :=
  if isAlphanumeric b.toNat || marks.any (·.toNat = b.toNat) then [b.toNat.toUInt16]
  else percent b

/-- `encodeURIComponent(text)`. There is none for half a surrogate pair. -/
def encodeURIComponent (text : Utf16) : Except String Utf16 :=
  if none ∈ characters text then .error "URI malformed"
  else .ok ((bytes text).flatMap
    (escapedByte ['-', '_', '.', '!', '~', '*', '\'', '(', ')']))

/-- A digit as `[0-9A-F]` has it. -/
def isUpperHex (u : UInt16) : Bool :=
  ('0'.toNat ≤ u.toNat && u.toNat ≤ '9'.toNat) || ('A'.toNat ≤ u.toNat && u.toNat ≤ 'F'.toNat)

/-- `toLowerCase` of a letter of the ASCII alphabet. -/
def lower (u : UInt16) : UInt16 :=
  if 'A'.toNat ≤ u.toNat && u.toNat ≤ 'Z'.toNat then u + 0x20 else u

/-- `text.replace(/%[0-9A-F]{2}/g, part => part.toLowerCase())` -/
def lowerEscapes : Utf16 → Utf16
  | u :: v :: w :: rest =>
    if u.toNat = '%'.toNat && isUpperHex v && isUpperHex w then
      u :: lower v :: lower w :: lowerEscapes rest
    else u :: lowerEscapes (v :: w :: rest)
  | short => short

/-- A byte of a form: a space is a plus sign. -/
def formByte (b : UInt8) : Utf16 :=
  if b.toNat = ' '.toNat then ascii ['+'] else escapedByte ['*', '-', '.', '_'] b

/-- `new URLSearchParams({ [name]: value }).toString()` -/
def urlSearchParams (name value : Utf16) : Utf16 :=
  (bytes name).flatMap formByte ++ ascii ['='] ++ (bytes value).flatMap formByte

/-! ## No spelling is empty -/

variable {text : Utf16} {bytes : List UInt8}

theorem sextets_ne_nil (h : bytes ≠ []) : sextets bytes ≠ [] := by
  fun_cases sextets bytes with
  | case1 => exact absurd rfl h
  | case2 => exact List.cons_ne_nil _ _
  | case3 => exact List.cons_ne_nil _ _
  | case4 => exact List.cons_ne_nil _ _

theorem base64url_ne_nil (h : bytes ≠ []) : base64url bytes ≠ [] := by
  rw [base64url, Ne, List.map_eq_nil_iff]
  exact sextets_ne_nil h

theorem base64_ne_nil (h : bytes ≠ []) : base64 bytes ≠ [] := by
  intro hnil
  exact sextets_ne_nil h (List.map_eq_nil_iff.mp (List.append_eq_nil_iff.mp hnil).1)

/-- No group of six bits is written as the padding is. -/
theorem sextetUnit_ne_padding : ∀ n < 64, sextetUnit '+' '/' n ≠ padding := by decide

theorem withoutPadding_ne_nil (h : bytes ≠ []) : withoutPadding (base64 bytes) ≠ [] := by
  obtain ⟨b, rest, rfl⟩ := List.exists_cons_of_ne_nil h
  have hfirst : b.toNat / 4 ∈ sextets (b :: rest) := by
    rcases rest with _ | ⟨c, _ | ⟨d, rest⟩⟩ <;> exact List.mem_cons_self
  have hunit : sextetUnit '+' '/' (b.toNat / 4) ∈ base64 (b :: rest) :=
    List.mem_append_left _ (List.mem_map_of_mem hfirst)
  rw [withoutPadding, Ne, List.rdropWhile_eq_nil_iff]
  intro hall
  have hsmall : b.toNat / 4 < 64 := by
    have := b.toNat_lt
    omega
  exact sextetUnit_ne_padding _ hsmall (of_decide_eq_true (hall _ hunit))

theorem jsonUnit_ne_nil (u : UInt16) : jsonUnit u ≠ [] := by
  rw [jsonUnit]
  split
  case h_8 =>
    split
    · exact List.cons_ne_nil _ _
    · exact List.cons_ne_nil _ _
  all_goals exact List.cons_ne_nil _ _

theorem jsonSingle_ne_nil (u : UInt16) : jsonSingle u ≠ [] := by
  rw [jsonSingle]
  split
  · exact List.cons_ne_nil _ _
  · exact jsonUnit_ne_nil u

/-- What a JSON text has between its quotes. -/
theorem stringify_inside (text : Utf16) :
    ((stringify text).drop 1).dropLast = jsonUnits text := by
  have hdrop : (stringify text).drop 1 = jsonUnits text ++ ascii ['"'] := rfl
  rw [hdrop]
  exact List.dropLast_concat

theorem jsonUnits_ne_nil (h : text ≠ []) : jsonUnits text ≠ [] := by
  fun_cases jsonUnits text with
  | case1 => exact absurd rfl h
  | case2 => exact jsonSingle_ne_nil _
  | case3 => exact List.cons_ne_nil _ _
  | case4 => exact fun hnil ↦ jsonSingle_ne_nil _ (List.append_eq_nil_iff.mp hnil).1

theorem escapedByte_ne_nil (marks : List Char) (b : UInt8) : escapedByte marks b ≠ [] := by
  rw [escapedByte]
  split
  · exact List.cons_ne_nil _ _
  · exact List.cons_ne_nil _ _

theorem formByte_ne_nil (b : UInt8) : formByte b ≠ [] := by
  rw [formByte]
  split
  · exact List.cons_ne_nil _ _
  · exact escapedByte_ne_nil _ b

/-- Bytes that are each written as something are not written as nothing. -/
theorem flatMap_ne_nil {f : UInt8 → Utf16} (hf : ∀ b, f b ≠ []) (h : bytes ≠ []) :
    bytes.flatMap f ≠ [] := by
  obtain ⟨b, rest, rfl⟩ := List.exists_cons_of_ne_nil h
  rw [List.flatMap_cons]
  exact fun hnil ↦ hf b (List.append_eq_nil_iff.mp hnil).1

theorem encodeURIComponent_ne_nil {encoded : Utf16} (h : text ≠ [])
    (hok : encodeURIComponent text = .ok encoded) : encoded ≠ [] := by
  rw [encodeURIComponent] at hok
  split at hok
  · cases hok
  · obtain rfl := Except.ok.inj hok
    exact flatMap_ne_nil (escapedByte_ne_nil _) (bytes_ne_nil h)

theorem lowerEscapes_ne_nil (h : text ≠ []) : lowerEscapes text ≠ [] := by
  fun_cases lowerEscapes text with
  | case1 => exact List.cons_ne_nil _ _
  | case2 => exact List.cons_ne_nil _ _
  | case3 => exact h

end Utf16

end Concurrent
