import RatThings.Library.NumberText
import RatThings.Library.OrderedMap

/-!
# Reading JSON texts

The reader of a JSON text goes down one level at a time. A text that was printed without blanks is
read back part by part: each part is read in front of anything that does not continue it, so the
values of a list are read one after the other.

Objects have their members in the order of the text. A member that is set twice has its last value.
A member may also be `undefined`; no text gives such a member.
-/

namespace Concurrent

/-- A value of JavaScript that JSON can print. A member of an object without a value is
`undefined`. -/
inductive Data : Type
  | null
  | bool (value : Bool)
  | number (value : Double)
  | string (text : Utf16)
  | array (items : List Data)
  | object (members : List (Utf16 × Option Data))

namespace Data

open Double (unit)

/-! ## Strings -/

/-- The value of a hexadecimal digit. -/
def hexValue (u : UInt16) : Option ℕ :=
  if unit '0' ≤ u ∧ u ≤ unit '9' then some (u.toNat - (unit '0').toNat)
  else if unit 'a' ≤ u ∧ u ≤ unit 'f' then some (u.toNat - (unit 'a').toNat + 10)
  else if unit 'A' ≤ u ∧ u ≤ unit 'F' then some (u.toNat - (unit 'A').toNat + 10)
  else none

/-- The unit of an escape of one character. -/
def escaped (u : UInt16) : Option UInt16 :=
  if u = unit '"' ∨ u = unit '\\' ∨ u = unit '/' then some u
  else if u = unit 'b' then some 0x08
  else if u = unit 't' then some 0x09
  else if u = unit 'n' then some 0x0A
  else if u = unit 'f' then some 0x0C
  else if u = unit 'r' then some 0x0D
  else none

/-- The rest of a string, behind its first quote, and what follows it. -/
@[grind =]
def parseString : Utf16 → Option (Utf16 × Utf16)
  | [] => none
  | u :: rest =>
    if u = unit '"' then some ([], rest)
    else if u = unit '\\' then
      match rest with
      | [] => none
      | e :: rest =>
        if e = unit 'u' then
          match rest with
          | a :: b :: c :: d :: rest => do
            let a ← hexValue a
            let b ← hexValue b
            let c ← hexValue c
            let d ← hexValue d
            let (text, rest) ← parseString rest
            some ((((a * 16 + b) * 16 + c) * 16 + d).toUInt16 :: text, rest)
          | _ => none
        else do
          let v ← escaped e
          let (text, rest) ← parseString rest
          some (v :: text, rest)
    else if u < 0x20 then none
    else do
      let (text, rest) ← parseString rest
      some (u :: text, rest)

/-! ## Values -/

def isBlank (u : UInt16) : Bool := u = 0x20 || u = 0x0A || u = 0x0D || u = 0x09

def skip (text : Utf16) : Utf16 := text.dropWhile isBlank

/-- The text goes on with `word`. -/
def after (word : List Char) (text : Utf16) : Option Utf16 :=
  if Utf16.ascii word <+: text then some (text.drop word.length) else none

/-- Values up to a closing bracket. -/
@[grind =]
def parseItems (parse : Utf16 → Option (Data × Utf16)) : ℕ → Utf16 → Option (List Data × Utf16)
  | 0, _ => none
  | fuel + 1, text => do
    let (item, rest) ← parse text
    match skip rest with
    | [] => none
    | u :: rest =>
      if u = unit ',' then do
        let (items, rest) ← parseItems parse fuel rest
        some (item :: items, rest)
      else if u = unit ']' then some ([item], rest)
      else none

/-- The name of a member, a colon and its value. -/
def parseMember (parse : Utf16 → Option (Data × Utf16)) (text : Utf16) :
    Option ((Utf16 × Data) × Utf16) := do
  let rest ← after ['"'] (skip text)
  let (key, rest) ← parseString rest
  let rest ← after [':'] (skip rest)
  let (value, rest) ← parse rest
  some ((key, value), rest)

/-- Members up to a closing brace. -/
@[grind =]
def parseMembers (parse : Utf16 → Option (Data × Utf16)) :
    ℕ → Utf16 → Option (List (Utf16 × Data) × Utf16)
  | 0, _ => none
  | fuel + 1, text => do
    let (member, rest) ← parseMember parse text
    match skip rest with
    | [] => none
    | u :: rest =>
      if u = unit ',' then do
        let (members, rest) ← parseMembers parse fuel rest
        some (member :: members, rest)
      else if u = unit '}' then some ([member], rest)
      else none

/-- A dictionary of members: the value of a name that occurs twice is the last one. -/
def ofMembers (members : List (Utf16 × Data)) : Data :=
  .object ((OrderedMap.ofList members).entries.map fun member ↦ (member.1, some member.2))

/-- A value and what follows it, at most `fuel` levels deep. -/
@[grind =]
def parseValue : ℕ → Utf16 → Option (Data × Utf16)
  | 0, _ => none
  | fuel + 1, text =>
    match skip text with
    | [] => none
    | u :: rest =>
      if u = unit '\x7b' then
        match skip rest with
        | [] => none
        | v :: behind =>
          if v = unit '\x7d' then some (.object [], behind)
          else (parseMembers (parseValue fuel) (rest.length + 1) rest).map fun result ↦
            (ofMembers result.1, result.2)
      else if u = unit '[' then
        match skip rest with
        | [] => none
        | v :: behind =>
          if v = unit ']' then some (.array [], behind)
          else (parseItems (parseValue fuel) (rest.length + 1) rest).map fun result ↦
            (.array result.1, result.2)
      else if u = unit '"' then
        (parseString rest).map fun result ↦ (.string result.1, result.2)
      else if u = unit 't' then (after ['r', 'u', 'e'] rest).map fun rest ↦ (.bool true, rest)
      else if u = unit 'f' then
        (after ['a', 'l', 's', 'e'] rest).map fun rest ↦ (.bool false, rest)
      else if u = unit 'n' then (after ['u', 'l', 'l'] rest).map fun rest ↦ (.null, rest)
      else (Double.read ((u :: rest).takeWhile Double.isNumberUnit)).map fun x ↦
        (.number x, (u :: rest).dropWhile Double.isNumberUnit)

/-- `JSON.parse(text)`, as long as its numbers are finite. -/
def parse (text : Utf16) : Option Data :=
  match parseValue (text.length + 1) text with
  | some (value, rest) => if skip rest = [] then some value else none
  | none => none

/-! ## Members that have a value -/

/-- The members of an object that are not `undefined`. -/
def present (members : List (Utf16 × Option Data)) : List (Utf16 × Data) :=
  members.filterMap fun member ↦ member.2.map fun value ↦ (member.1, value)

theorem mem_present {members : List (Utf16 × Option Data)} {key : Utf16} {value : Data} :
    (key, value) ∈ present members ↔ (key, some value) ∈ members := by
  rw [present, List.mem_filterMap]
  constructor
  · rintro ⟨⟨key', value'⟩, hmem, hvalue⟩
    obtain ⟨value'', rfl, heq⟩ := Option.map_eq_some_iff.mp hvalue
    obtain ⟨rfl, rfl⟩ := Prod.mk.inj heq
    exact hmem
  · intro hmem
    exact ⟨_, hmem, rfl⟩

/-- What holds of a value if it holds of its parts holds of every value. -/
theorem induction {P : Data → Prop} (hnull : P .null) (hbool : ∀ value, P (.bool value))
    (hnumber : ∀ value, P (.number value)) (hstring : ∀ text, P (.string text))
    (harray : ∀ items, (∀ item ∈ items, P item) → P (.array items))
    (hobject : ∀ members, (∀ member ∈ present members, P member.2) → P (.object members)) :
    ∀ value, P value :=
  go
where
  go : ∀ value, P value
    | .null => hnull
    | .bool value => hbool value
    | .number value => hnumber value
    | .string text => hstring text
    | .array items => harray items (goItems items)
    | .object members => hobject members fun member hmember ↦
        goMembers members member.1 member.2 (mem_present.mp hmember)
  goItems : ∀ items : List Data, ∀ item ∈ items, P item
    | [], _, h => nomatch h
    | first :: items, item, h =>
      (List.mem_cons.mp h).elim (fun heq ↦ heq ▸ go first) (goItems items item)
  goMembers : ∀ (members : List (Utf16 × Option Data)) (key : Utf16) (value : Data),
      (key, some value) ∈ members → P value
    | [], _, _, h => nomatch h
    | (_, none) :: members, key, value, h =>
      (List.mem_cons.mp h).elim (fun heq ↦ nomatch congrArg Prod.snd heq)
        (goMembers members key value)
    | (_, some first) :: members, key, value, h =>
      (List.mem_cons.mp h).elim
        (fun heq ↦ Option.some.inj (congrArg Prod.snd heq) ▸ go first) (goMembers members key value)

/-! ## A string is read back -/

open Utf16

variable {u v : UInt16} {rest : Utf16}

/-- One more unit in front of the rest of a string. -/
def withUnit (u : UInt16) (result : Option (Utf16 × Utf16)) : Option (Utf16 × Utf16) :=
  result.map fun result ↦ (u :: result.1, result.2)

theorem bind_eq_withUnit (result : Option (Utf16 × Utf16)) :
    (result.bind fun result ↦ some (u :: result.1, result.2)) = withUnit u result := by
  rcases result with _ | _ <;> rfl

theorem parseString_plain (hquote : u ≠ unit '"') (hescape : u ≠ unit '\\')
    (hcontrol : ¬ u < 0x20) :
    parseString (u :: rest) = withUnit u (parseString rest) := by
  rw [parseString.eq_def]
  simp only [if_neg hquote, if_neg hescape, if_neg hcontrol]
  exact bind_eq_withUnit _

theorem parseString_escape (hplain : u ≠ unit 'u') (hescaped : escaped u = some v) :
    parseString (unit '\\' :: u :: rest) = withUnit v (parseString rest) := by
  have hquote : unit '\\' ≠ unit '"' := by decide
  rw [parseString.eq_def]
  simp only [if_neg hquote, if_true, if_neg hplain, hescaped]
  exact bind_eq_withUnit _

theorem hexValue_digit : ∀ n < 16, hexValue (digit 'a' n) = some n := by decide

theorem parseString_unicodeEscape {n : ℕ} (hn : n < 65536) :
    parseString (unicodeEscape n ++ rest) = withUnit n.toUInt16 (parseString rest) := by
  have hquote : unit '\\' ≠ unit '"' := by decide
  have hvalue : ((n / 0x1000 * 16 + n / 0x100 % 0x10) * 16 + n / 0x10 % 0x10) * 16 +
      n % 0x10 = n := by
    omega
  change parseString (unit '\\' :: unit 'u' :: digit 'a' (n / 0x1000) ::
    digit 'a' (n / 0x100 % 0x10) :: digit 'a' (n / 0x10 % 0x10) :: digit 'a' (n % 0x10) :: rest) = _
  rw [parseString.eq_def]
  simp only [if_neg hquote, if_true]
  rw [hexValue_digit _ (by omega), hexValue_digit _ (by omega), hexValue_digit _ (by omega),
    hexValue_digit _ (by omega)]
  simp only [Option.bind_eq_bind, Option.bind_some, hvalue]
  exact bind_eq_withUnit _

theorem parseString_jsonUnit (u : UInt16) (rest : Utf16) :
    parseString (jsonUnit u ++ rest) = withUnit u (parseString rest) := by
  rw [jsonUnit]
  split
  case h_8 n hb ht hn hf hr hquote hescape =>
    have hne : ∀ v : UInt16, u.toNat ≠ v.toNat → u ≠ v := fun v h heq ↦ h (congrArg _ heq)
    split
    · rw [parseString_unicodeEscape u.toNat_lt]
      simp
    · refine parseString_plain (hne _ hquote) (hne _ hescape) ?_
      rw [UInt16.lt_iff_toNat_lt]
      assumption
  all_goals
    rename_i hu
    have hvalue := congrArg Nat.toUInt16 hu
    simp only [UInt16.ofNat_toNat] at hvalue
    subst hvalue
    exact parseString_escape (by decide) (by decide)

theorem parseString_jsonSingle (u : UInt16) (rest : Utf16) :
    parseString (jsonSingle u ++ rest) = withUnit u (parseString rest) := by
  rw [jsonSingle]
  split
  · rw [parseString_unicodeEscape u.toNat_lt]
    simp
  · exact parseString_jsonUnit u rest

/-- A surrogate stands for itself. -/
theorem parseString_surrogate (h : (isLead u || isTrail u) = true) :
    parseString (u :: rest) = withUnit u (parseString rest) := by
  refine parseString_plain ?_ ?_ ?_
  · rintro rfl
    exact absurd h (by decide)
  · rintro rfl
    exact absurd h (by decide)
  · simp only [isLead, isTrail, Bool.or_eq_true, Bool.and_eq_true, decide_eq_true_eq,
      UInt16.le_iff_toNat_le, UInt16.lt_iff_toNat_lt] at h ⊢
    have hfirst : (0xD800 : UInt16).toNat = 0xD800 := rfl
    have hsecond : (0xDC00 : UInt16).toNat = 0xDC00 := rfl
    have hblank : (0x20 : UInt16).toNat = 0x20 := rfl
    omega

/-- **A string is read as it was printed.** -/
theorem parseString_jsonUnits (text rest : Utf16) :
    parseString (jsonUnits text ++ unit '"' :: rest) = some (text, rest) := by
  fun_induction jsonUnits text with
  | case1 =>
    rw [List.nil_append, parseString.eq_def]
    simp only [if_true]
  | case2 u =>
    rw [parseString_jsonSingle, parseString.eq_def]
    simp only [if_true]
    rfl
  | case3 u v text hpair ih =>
    obtain ⟨hlead, htrail⟩ := Bool.and_eq_true_iff.mp hpair
    rw [List.cons_append, List.cons_append, parseString_surrogate (by rw [hlead]; rfl),
      parseString_surrogate (by rw [htrail, Bool.or_true]), ih]
    rfl
  | case4 u v text hpair ih =>
    rw [List.append_assoc, parseString_jsonSingle, ih]
    rfl

theorem parseString_stringify (text rest : Utf16) :
    ∃ inside, stringify text ++ rest = unit '"' :: inside ∧
      parseString inside = some (text, rest) := by
  refine ⟨jsonUnits text ++ unit '"' :: rest, ?_, parseString_jsonUnits text rest⟩
  rw [stringify, List.append_assoc, List.append_assoc]
  rfl

/-! ## Lists are read back -/

/-- Texts with commas between them. -/
def joined : List Utf16 → Utf16
  | [] => []
  | [text] => text
  | text :: texts => text ++ unit ',' :: joined texts

variable {texts : List Utf16} {text : Utf16} {parse : Utf16 → Option (Data × Utf16)}

theorem length_le_joined (h : text ∈ texts) : text.length ≤ (joined texts).length := by
  induction texts with
  | nil => exact nomatch h
  | cons first texts ih =>
    rcases texts with _ | ⟨second, texts⟩
    · rw [List.mem_singleton.mp h]
      rfl
    · rw [joined, List.length_append, List.length_cons]
      rcases List.mem_cons.mp h with rfl | h
      · exact Nat.le_add_right _ _
      · exact (ih h).trans (by omega)
      · exact List.cons_ne_nil _ _

theorem length_le_length_joined (h : ∀ text ∈ texts, text ≠ []) :
    texts.length ≤ (joined texts).length := by
  induction texts with
  | nil => exact Nat.zero_le _
  | cons first texts ih =>
    have hfirst := List.length_pos_of_ne_nil (h first List.mem_cons_self)
    rcases texts with _ | ⟨second, texts⟩
    · exact hfirst
    · have hrest := ih fun text ht ↦ h text (List.mem_cons_of_mem _ ht)
      rw [joined, List.length_append]
      · simp only [List.length_cons] at hrest ⊢
        omega
      · exact List.cons_ne_nil _ _

/-- A unit at which a value ends. -/
def Delimited (rest : Utf16) : Prop := ∀ u, rest.head? = some u → Double.isNumberUnit u = false

/-- What is printed as `text` is read as `value`, in front of whatever ends it. -/
def Reads (parse : Utf16 → Option (Data × Utf16)) (text : Utf16) (value : Data) : Prop :=
  ∀ rest, Delimited rest → parse (text ++ rest) = some (value, rest)

theorem skip_cons (h : isBlank u = false) : skip (u :: rest) = u :: rest := by
  rw [skip, List.dropWhile_cons, h]
  rfl

theorem parseItems_joined {values : List Data} (h : List.Forall₂ (Reads parse) texts values)
    (hne : texts ≠ []) {fuel : ℕ} (hfuel : texts.length ≤ fuel) (rest : Utf16) :
    parseItems parse fuel (joined texts ++ unit ']' :: rest) = some (values, rest) := by
  induction h generalizing fuel with
  | nil => exact absurd rfl hne
  | @cons text value texts values hread hrest ih =>
    obtain ⟨fuel, rfl⟩ := Nat.exists_eq_succ_of_ne_zero (Nat.ne_zero_of_lt hfuel)
    rcases texts with _ | ⟨second, texts⟩
    · obtain rfl := List.forall₂_nil_left_iff.mp hrest
      have hend := hread (unit ']' :: rest) (by rintro u ⟨⟩; rfl)
      have hcomma : unit ']' ≠ unit ',' := by decide
      rw [joined, parseItems, hend]
      simp only [Option.bind_eq_bind, Option.bind_some,
        skip_cons (rfl : isBlank (unit ']') = false),
        if_neg hcomma, if_true]
    · have hnext := hread (unit ',' :: (joined (second :: texts) ++ unit ']' :: rest))
        (by rintro u ⟨⟩; rfl)
      rw [joined, List.append_assoc, List.cons_append, parseItems, hnext]
      · simp only [Option.bind_eq_bind, Option.bind_some,
          skip_cons (rfl : isBlank (unit ',') = false), if_true]
        rw [ih (List.cons_ne_nil _ _) (Nat.le_of_succ_le_succ hfuel)]
        rfl
      · exact List.cons_ne_nil _ _

/-- The text of a member. -/
def memberText (key text : Utf16) : Utf16 := stringify key ++ unit ':' :: text

theorem parseMember_memberText (key : Utf16) {value : Data} (rest : Utf16)
    (h : Reads parse text value) (hrest : Delimited rest) :
    parseMember parse (memberText key text ++ rest) = some ((key, value), rest) := by
  obtain ⟨inside, hinside, hkey⟩ := parseString_stringify key (unit ':' :: text ++ rest)
  have hquote : after ['"'] (skip (unit '"' :: inside)) = some inside := by
    rw [skip_cons rfl]
    rfl
  have hcolon : after [':'] (skip (unit ':' :: (text ++ rest))) = some (text ++ rest) := by
    rw [skip_cons rfl]
    rfl
  rw [memberText, List.append_assoc, hinside, parseMember, hquote]
  simp only [Option.bind_eq_bind, Option.bind_some, hkey, List.cons_append, hcolon, h rest hrest]

theorem parseMembers_joined {members : List (Utf16 × Data)}
    (h : List.Forall₂ (fun text member ↦ ∃ inside, text = memberText member.1 inside ∧
      Reads parse inside member.2) texts members)
    (hne : texts ≠ []) {fuel : ℕ} (hfuel : texts.length ≤ fuel) (rest : Utf16) :
    parseMembers parse fuel (joined texts ++ unit '\x7d' :: rest) = some (members, rest) := by
  induction h generalizing fuel with
  | nil => exact absurd rfl hne
  | @cons text member texts members hread hrest ih =>
    obtain ⟨fuel, rfl⟩ := Nat.exists_eq_succ_of_ne_zero (Nat.ne_zero_of_lt hfuel)
    obtain ⟨inside, rfl, hread⟩ := hread
    rcases texts with _ | ⟨second, texts⟩
    · obtain rfl := List.forall₂_nil_left_iff.mp hrest
      have hend := parseMember_memberText member.1 (unit '\x7d' :: rest) hread
        (by rintro u ⟨⟩; rfl)
      have hcomma : unit '\x7d' ≠ unit ',' := by decide
      rw [joined, parseMembers, hend]
      simp only [Option.bind_eq_bind, Option.bind_some,
        skip_cons (rfl : isBlank (unit '\x7d') = false), if_neg hcomma, if_true]
    · have hnext := parseMember_memberText member.1
        (unit ',' :: (joined (second :: texts) ++ unit '\x7d' :: rest)) hread
        (by rintro u ⟨⟩; rfl)
      rw [joined, List.append_assoc, List.cons_append, parseMembers, hnext]
      · simp only [Option.bind_eq_bind, Option.bind_some,
          skip_cons (rfl : isBlank (unit ',') = false), if_true]
        rw [ih (List.cons_ne_nil _ _) (Nat.le_of_succ_le_succ hfuel)]
        rfl
      · exact List.cons_ne_nil _ _

/-! ## Values are read back -/

theorem not_blank_of_number {u : UInt16} (h : Double.isNumberUnit u = true) {v : UInt16}
    (hv : Double.isNumberUnit v = false) : u ≠ v := by
  rintro rfl
  rw [h] at hv
  exact nomatch hv

theorem isBlank_of_number {u : UInt16} (h : Double.isNumberUnit u = true) : isBlank u = false := by
  have h1 := not_blank_of_number h (rfl : Double.isNumberUnit 0x20 = false)
  have h2 := not_blank_of_number h (rfl : Double.isNumberUnit 0x0A = false)
  have h3 := not_blank_of_number h (rfl : Double.isNumberUnit 0x0D = false)
  have h4 := not_blank_of_number h (rfl : Double.isNumberUnit 0x09 = false)
  simp [isBlank, h1, h2, h3, h4]

variable {fuel : ℕ}

theorem parseValue_number (x : Double) (hrest : Delimited rest) :
    parseValue (fuel + 1) (x.text ++ rest) = some (.number x.unsignZero, rest) := by
  obtain ⟨u, tail, htext⟩ := List.exists_cons_of_ne_nil x.text_ne_nil
  have hall : ∀ u ∈ x.text, Double.isNumberUnit u = true := fun u ↦ Double.isNumberUnit_text
  have hu := hall u (htext ▸ List.mem_cons_self)
  have hends : rest.takeWhile Double.isNumberUnit = [] ∧
      rest.dropWhile Double.isNumberUnit = rest := by
    rcases rest with _ | ⟨v, rest⟩
    · exact ⟨rfl, rfl⟩
    · have hv := hrest v rfl
      simp [hv]
  have htake : (u :: (tail ++ rest)).takeWhile Double.isNumberUnit = x.text := by
    rw [← List.cons_append, ← htext, List.takeWhile_append_of_pos hall, hends.1, List.append_nil]
  have hdrop : (u :: (tail ++ rest)).dropWhile Double.isNumberUnit = rest := by
    rw [← List.cons_append, ← htext, List.dropWhile_append_of_pos hall, hends.2]
  rw [htext, List.cons_append, parseValue, skip_cons (isBlank_of_number hu)]
  simp only [if_neg (not_blank_of_number hu (rfl : Double.isNumberUnit (unit '\x7b') = false)),
    if_neg (not_blank_of_number hu (rfl : Double.isNumberUnit (unit '[') = false)),
    if_neg (not_blank_of_number hu (rfl : Double.isNumberUnit (unit '"') = false)),
    if_neg (not_blank_of_number hu (rfl : Double.isNumberUnit (unit 't') = false)),
    if_neg (not_blank_of_number hu (rfl : Double.isNumberUnit (unit 'f') = false)),
    if_neg (not_blank_of_number hu (rfl : Double.isNumberUnit (unit 'n') = false)), htake, hdrop,
    Double.read_text, Option.map_some]

theorem parseValue_string (text rest : Utf16) :
    parseValue (fuel + 1) (stringify text ++ rest) = some (.string text, rest) := by
  obtain ⟨inside, hinside, hread⟩ := parseString_stringify text rest
  have hbrace : unit '"' ≠ unit '\x7b' := by decide
  have hbracket : unit '"' ≠ unit '[' := by decide
  rw [hinside, parseValue, skip_cons rfl]
  simp only [if_neg hbrace, if_neg hbracket, if_true, hread, Option.map_some]

theorem parseValue_array {texts : List Utf16} {values : List Data}
    (h : List.Forall₂ (Reads (parseValue fuel)) texts values)
    (hhead : ∀ text ∈ texts, ∃ u tail, text = u :: tail ∧ isBlank u = false ∧ u ≠ unit ']') :
    parseValue (fuel + 1) (unit '[' :: (joined texts ++ unit ']' :: rest)) =
      some (.array values, rest) := by
  have hbrace : unit '[' ≠ unit '\x7b' := by decide
  rcases texts with _ | ⟨text, texts⟩
  · obtain rfl := List.forall₂_nil_left_iff.mp h
    rw [parseValue, skip_cons rfl]
    simp only [if_neg hbrace, if_true, joined, List.nil_append,
      skip_cons (rfl : isBlank (unit ']') = false)]
  · obtain ⟨u, tail, htext, hblank, hclose⟩ := hhead text List.mem_cons_self
    have hne : ∀ text' ∈ text :: texts, text' ≠ [] := by
      intro text' hmem
      obtain ⟨u, tail, rfl, -⟩ := hhead text' hmem
      exact List.cons_ne_nil _ _
    obtain ⟨more, hmore⟩ : ∃ more, joined (text :: texts) ++ unit ']' :: rest = u :: more := by
      rcases texts with _ | ⟨second, texts⟩
      · exact ⟨_, by rw [joined, htext]; rfl⟩
      · exact ⟨_, by rw [joined, htext]; rfl; exact List.cons_ne_nil _ _⟩
    have hlength : (text :: texts).length ≤
        (joined (text :: texts) ++ unit ']' :: rest).length + 1 := by
      have hle := length_le_length_joined hne
      rw [List.length_append]
      omega
    rw [parseValue, skip_cons rfl]
    simp only [if_neg hbrace, if_true]
    rw [parseItems_joined h (List.cons_ne_nil _ _) hlength, hmore, skip_cons hblank]
    simp only [if_neg hclose, Option.map_some]

/-- The text of a member begins with a quote. -/
theorem joined_memberText {texts : List Utf16} {key text : Utf16} :
    ∃ more, joined (memberText key text :: texts) ++ rest = unit '"' :: more := by
  rcases texts with _ | ⟨second, texts⟩
  · exact ⟨_, rfl⟩
  · exact ⟨_, by rw [joined]; rfl; exact List.cons_ne_nil _ _⟩

theorem memberText_ne_nil (key text : Utf16) : memberText key text ≠ [] := List.cons_ne_nil _ _

theorem parseValue_object {texts : List (Utf16 × Utf16)} {values : List (Utf16 × Data)}
    (hnodup : (values.map Prod.fst).Nodup)
    (h : List.Forall₂ (fun text value ↦ text.1 = value.1 ∧
      Reads (parseValue fuel) text.2 value.2) texts values) :
    parseValue (fuel + 1) (unit '\x7b' ::
      (joined (texts.map fun text ↦ memberText text.1 text.2) ++ unit '\x7d' :: rest)) =
        some (.object (values.map fun value ↦ (value.1, some value.2)), rest) := by
  rcases texts with _ | ⟨first, texts⟩
  · obtain rfl := List.forall₂_nil_left_iff.mp h
    rw [parseValue, skip_cons rfl]
    simp only [if_true, List.map_nil, joined, List.nil_append,
      skip_cons (rfl : isBlank (unit '\x7d') = false)]
  · have hclose : unit '"' ≠ unit '\x7d' := by decide
    have htexts : List.Forall₂ (fun text member ↦ ∃ inside, text = memberText member.1 inside ∧
        Reads (parseValue fuel) inside member.2)
        ((first :: texts).map fun text ↦ memberText text.1 text.2) values := by
      rw [List.forall₂_map_left_iff]
      exact h.imp fun text value htext ↦ ⟨text.2, htext.1 ▸ rfl, htext.2⟩
    have hne : ∀ text ∈ (first :: texts).map fun text ↦ memberText text.1 text.2, text ≠ [] := by
      intro text hmem
      obtain ⟨member, -, rfl⟩ := List.mem_map.mp hmem
      exact memberText_ne_nil _ _
    have hlength : ((first :: texts).map fun text ↦ memberText text.1 text.2).length ≤
        (joined ((first :: texts).map fun text ↦ memberText text.1 text.2) ++
          unit '\x7d' :: rest).length + 1 := by
      have hle := length_le_length_joined hne
      rw [List.length_append]
      omega
    have hread := parseMembers_joined htexts (List.cons_ne_nil _ _) hlength rest
    obtain ⟨more, hmore⟩ : ∃ more, joined ((first :: texts).map fun text ↦
        memberText text.1 text.2) ++ unit '\x7d' :: rest = unit '"' :: more := joined_memberText
    rw [parseValue, skip_cons rfl]
    simp only [if_true]
    rw [hread, hmore, skip_cons rfl]
    simp only [if_neg hclose, Option.map_some, ofMembers, OrderedMap.entries_ofList hnodup]

end Data

end Concurrent
