import RatThings.Library.Decodings

/-!
# The tags of a page

A page is read unit by unit, as the tokenizer of a browser reads it: in each state, the next unit
says which state follows, and whether a tag ends. Behind the start tag of certain elements only the
end tag of the same element is one.

Of the states of the standard, the ones that belong to comments and to comments inside scripts are
left out: a text that begins with `<!` ends at the next `>`. The contents of the page are not kept.
-/

namespace Concurrent

namespace Html

/-- A start tag or an end tag, with its attributes as they are written. -/
structure Tag where
  closing : Bool
  name : Utf16
  attributes : List (Utf16 × Utf16)
deriving DecidableEq

inductive State : Type
  | data
  | declaration
  | tagOpen
  | endTagOpen
  | tagName (tag : Tag)
  | beforeAttributeName (tag : Tag)
  | attributeName (tag : Tag) (name : Utf16)
  | afterAttributeName (tag : Tag) (name : Utf16)
  | beforeAttributeValue (tag : Tag) (name : Utf16)
  | doubleQuoted (tag : Tag) (name value : Utf16)
  | singleQuoted (tag : Tag) (name value : Utf16)
  | unquoted (tag : Tag) (name value : Utf16)
  | afterQuoted (tag : Tag)
  | selfClosing (tag : Tag)
  /-- Inside an element that ends at its own end tag. -/
  | raw (element : Utf16)
  | rawLess (element : Utf16)
  | rawEnd (element name : Utf16)
deriving DecidableEq

def units (text : String) : Utf16 := text.toList.map fun c ↦ c.toNat.toUInt16

def isLetter (u : UInt16) : Bool :=
  (0x41 ≤ u && u ≤ 0x5A) || (0x61 ≤ u && u ≤ 0x7A)

def isSpace (u : UInt16) : Bool :=
  u = 0x09 || u = 0x0A || u = 0x0C || u = 0x0D || u = 0x20

def lowered (u : UInt16) : UInt16 :=
  if 0x41 ≤ u && u ≤ 0x5A then u + 0x20 else u

/-- The elements whose contents are text. -/
def rawElements : List Utf16 :=
  ["title", "textarea", "style", "xmp", "iframe", "noembed", "noframes", "script"].map units

def Tag.add (tag : Tag) (name value : Utf16) : Tag :=
  { tag with attributes := tag.attributes ++ [(name, value)] }

/-- A tag has ended. -/
def emit (tag : Tag) : State × List Tag :=
  (if !tag.closing && tag.name ∈ rawElements then .raw tag.name else .data, [tag])

def opening (letter : UInt16) (closing : Bool) : State :=
  .tagName { closing, name := [lowered letter], attributes := [] }

def stepBeforeAttributeName (tag : Tag) (u : UInt16) : State × List Tag :=
  if isSpace u then (.beforeAttributeName tag, [])
  else if u = 0x2F then (.selfClosing tag, [])
  else if u = 0x3E then emit tag
  else (.attributeName tag [lowered u], [])

def stepRaw (element : Utf16) (u : UInt16) : State :=
  if u = 0x3C then .rawLess element else .raw element

/-- The next state, and the tag that ends. In the comments of the cases, `"` is `0x22`, `'` is
`0x27`, `/` is `0x2F`, `<` is `0x3C`, `=` is `0x3D` and `>` is `0x3E`. -/
def step (u : UInt16) : State → State × List Tag
  | .data => (if u = 0x3C then .tagOpen else .data, [])
  | .declaration => (if u = 0x3E then .data else .declaration, [])
  | .tagOpen =>
    if u = 0x21 ∨ u = 0x3F then (.declaration, [])
    else if u = 0x2F then (.endTagOpen, [])
    else if isLetter u then (opening u false, [])
    else (if u = 0x3C then .tagOpen else .data, [])
  | .endTagOpen =>
    if isLetter u then (opening u true, [])
    else if u = 0x3E then (.data, [])
    else (.declaration, [])
  | .tagName tag =>
    if isSpace u then (.beforeAttributeName tag, [])
    else if u = 0x2F then (.selfClosing tag, [])
    else if u = 0x3E then emit tag
    else (.tagName { tag with name := tag.name ++ [lowered u] }, [])
  | .beforeAttributeName tag => stepBeforeAttributeName tag u
  | .attributeName tag name =>
    if isSpace u then (.afterAttributeName tag name, [])
    else if u = 0x2F then (.selfClosing (tag.add name []), [])
    else if u = 0x3E then emit (tag.add name [])
    else if u = 0x3D then (.beforeAttributeValue tag name, [])
    else (.attributeName tag (name ++ [lowered u]), [])
  | .afterAttributeName tag name =>
    if isSpace u then (.afterAttributeName tag name, [])
    else if u = 0x2F then (.selfClosing (tag.add name []), [])
    else if u = 0x3D then (.beforeAttributeValue tag name, [])
    else if u = 0x3E then emit (tag.add name [])
    else (.attributeName (tag.add name []) [lowered u], [])
  | .beforeAttributeValue tag name =>
    if isSpace u then (.beforeAttributeValue tag name, [])
    else if u = 0x22 then (.doubleQuoted tag name [], [])
    else if u = 0x27 then (.singleQuoted tag name [], [])
    else if u = 0x3E then emit (tag.add name [])
    else (.unquoted tag name [u], [])
  | .doubleQuoted tag name value =>
    if u = 0x22 then (.afterQuoted (tag.add name value), [])
    else (.doubleQuoted tag name (value ++ [u]), [])
  | .singleQuoted tag name value =>
    if u = 0x27 then (.afterQuoted (tag.add name value), [])
    else (.singleQuoted tag name (value ++ [u]), [])
  | .unquoted tag name value =>
    if isSpace u then (.beforeAttributeName (tag.add name value), [])
    else if u = 0x3E then emit (tag.add name value)
    else (.unquoted tag name (value ++ [u]), [])
  | .afterQuoted tag => stepBeforeAttributeName tag u
  | .selfClosing tag => if u = 0x3E then emit tag else stepBeforeAttributeName tag u
  | .raw element => (stepRaw element u, [])
  | .rawLess element => (if u = 0x2F then .rawEnd element [] else stepRaw element u, [])
  | .rawEnd element name =>
    if isLetter u then (.rawEnd element (name ++ [lowered u]), [])
    else if name = element ∧ isSpace u then
      (.beforeAttributeName { closing := true, name, attributes := [] }, [])
    else if name = element ∧ u = 0x2F then
      (.selfClosing { closing := true, name, attributes := [] }, [])
    else if name = element ∧ u = 0x3E then emit { closing := true, name, attributes := [] }
    else (stepRaw element u, [])

/-- The state behind a text, and the tags that have ended in it. -/
@[grind =]
def read (state : State) : Utf16 → State × List Tag
  | [] => (state, [])
  | u :: text =>
    let (next, ended) := step u state
    let (last, tags) := read next text
    (last, ended ++ tags)

/-- The tags of a page. -/
def tags (page : Utf16) : List Tag := (read .data page).2

/-- What a tag is apart from the values of its attributes. -/
def Tag.outline (tag : Tag) : Bool × Utf16 × List Utf16 :=
  (tag.closing, tag.name, tag.attributes.map Prod.fst)

/-! ## Character references -/

/-- The references that stand for the characters with a meaning in HTML. -/
def references : List (Utf16 × UInt16) :=
  [(units "&amp;", 0x26), (units "&lt;", 0x3C), (units "&gt;", 0x3E), (units "&quot;", 0x22),
    (units "&#39;", 0x27)]

/-- The text that a value stands for, as far as it uses these references. -/
def dereference : Utf16 → Utf16
  | [] => []
  | u :: text =>
    match references.find? fun reference ↦ reference.1 <+: u :: text with
    | some reference => reference.2 :: dereference (text.drop (reference.1.length - 1))
    | none => u :: dereference text
termination_by text => text.length
decreasing_by
  · simp only [List.length_cons, List.length_drop]
    omega
  · simp

/-! ## Refreshing -/

def isDigit (u : UInt16) : Bool := 0x30 ≤ u && u ≤ 0x39

/-- A text that begins with a quote ends at the next one like it. -/
def unquote : Utf16 → Utf16
  | [] => []
  | u :: text => if u = 0x22 ∨ u = 0x27 then text.takeWhile (· ≠ u) else u :: text

/-- The reference behind the time of a refresh: `url=` may stand before it. -/
def refreshReference (text : Utf16) : Utf16 :=
  if (text.take 3).map lowered = units "url" then
    match (text.drop 3).dropWhile isSpace with
    | u :: behind => if u = 0x3D then unquote (behind.dropWhile isSpace) else text
    | [] => text
  else unquote text

/-- What the content of a `refresh` refers to, if it is well formed. The empty reference is the
page. -/
def refreshTarget (content : Utf16) : Option Utf16 :=
  let time := content.dropWhile isSpace
  let behind := time.dropWhile isDigit
  if behind.length = time.length ∧ behind.head? ≠ some 0x2E then none
  else
    match behind.dropWhile fun u ↦ isDigit u || u = 0x2E with
    | [] => some []
    | u :: rest =>
      if u = 0x3B ∨ u = 0x2C then some (refreshReference (rest.dropWhile isSpace))
      else if isSpace u then
        match rest.dropWhile isSpace with
        | [] => some []
        | v :: rest =>
          if v = 0x3B ∨ v = 0x2C then some (refreshReference (rest.dropWhile isSpace))
          else some (refreshReference (v :: rest))
      else none

/-! ## Reading in parts -/

/-- A literal is its characters, as the kernel reads one. -/
theorem units_ofList (text : List Char) :
    units (String.ofList text) = text.map fun c ↦ c.toNat.toUInt16 := by
  rw [units, String.toList_ofList]

theorem read_append (state : State) (s t : Utf16) :
    read state (s ++ t) =
      ((read (read state s).1 t).1, (read state s).2 ++ (read (read state s).1 t).2) := by
  induction s generalizing state with
  | nil => simp [read]
  | cons u s ih => simp only [List.cons_append, read, ih, List.append_assoc]

theorem notMem_units (u : UInt16) (text : List Char)
    (h : text.all (fun c ↦ c.toNat.toUInt16 ≠ u) = true) : u ∉ units (String.ofList text) := by
  rw [units_ofList, List.mem_map]
  rintro ⟨c, hc, rfl⟩
  simpa using List.all_eq_true.1 h c hc

theorem forall_mem_units {p : UInt16 → Prop} (text : List Char)
    (h : ∀ c ∈ text, p c.toNat.toUInt16) : ∀ u ∈ units (String.ofList text), p u := by
  rw [units_ofList]
  exact List.forall_mem_map.2 h

theorem read_append_eq {before between behind : State} {s t : Utf16} {first second : List Tag}
    (hs : read before s = (between, first)) (ht : read between t = (behind, second)) :
    read before (s ++ t) = (behind, first ++ second) := by
  rw [read_append, hs]
  dsimp only
  rw [ht]

/-- What is inserted behind a fixed text ends no tag. -/
theorem read_mixed_cons {before between behind last : State} {fixed inserted : Utf16}
    {pieces : List (Utf16 × Utf16)} {first rest : List Tag}
    (hfixed : read before fixed = (between, first))
    (hinserted : read between inserted = (behind, []))
    (hrest : read behind (Utf16.mixed pieces) = (last, rest)) :
    read before (Utf16.mixed ((fixed, inserted) :: pieces)) = (last, first ++ rest) := by
  rw [Utf16.mixed_cons]
  exact read_append_eq hfixed (read_append_eq hinserted hrest)

/-- A text without `<` is only text. -/
theorem read_data {text : Utf16} (h : 0x3C ∉ text) : read .data text = (.data, []) := by
  induction text with
  | nil => rfl
  | cons u text ih =>
    rw [List.mem_cons, not_or] at h
    rw [read, step, if_neg (Ne.symm h.1)]
    dsimp only
    rw [ih h.2]
    rfl

theorem read_raw {text : Utf16} (h : 0x3C ∉ text) (element : Utf16) :
    read (.raw element) text = (.raw element, []) := by
  induction text with
  | nil => rfl
  | cons u text ih =>
    rw [List.mem_cons, not_or] at h
    rw [read, step, stepRaw, if_neg (Ne.symm h.1)]
    dsimp only
    rw [ih h.2]
    rfl

/-- A value between quotes ends at the next one. -/
theorem read_doubleQuoted {text : Utf16} (h : 0x22 ∉ text) (tag : Tag) (name value : Utf16) :
    read (.doubleQuoted tag name value) text = (.doubleQuoted tag name (value ++ text), []) := by
  induction text generalizing value with
  | nil => rw [read, List.append_nil]
  | cons u text ih =>
    rw [List.mem_cons, not_or] at h
    rw [read, step, if_neg (Ne.symm h.1)]
    dsimp only
    rw [ih h.2, List.append_assoc]
    rfl

end Html

end Concurrent
