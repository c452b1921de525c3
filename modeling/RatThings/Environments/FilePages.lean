import RatThings.Agents.Errors
import RatThings.Library.Decodings
import RatThings.Library.JsonText
import RatThings.Library.Listing
import RatThings.Library.Pages
import Mathlib.Data.Rat.Floor
import Mathlib.Order.PiLex

/-!
# Pages of workspace files

The files of a directory are shown in the order of their path segments. The cursor of a page is a
text that holds the path of its last file and a digest of what was asked for; a cursor that was made
for another request is refused. What is written into a cursor is read from it, also if the path is
not well-formed text.

## The order

Two paths are compared at the first segments that differ, and one that has ended counts as empty
there. This is the order of a key with empty segments behind the path (`segmentKey`), so it is a
linear order on paths, and sorting by it leaves one list. Pages are cuts of this list.

## Cursors

A cursor is JSON in base64url. That it is read back is put together from the library: the text of
a JSON string, its bytes, and their groups of six bits. A path that is not well-formed text is
escaped in the JSON and so survives its encoding.
-/

namespace RatThings.Environments

open Concurrent Utf16 Data

open Double (unit)

/-! ## Directories -/

/-- `value.split('/')` -/
def segments (value : Utf16) : List Utf16 := value.splitOn (unit '/')

def absolutePath (value : Utf16) (param : String) : Except AgentsApiError Utf16 :=
  if ¬ [unit '/'] <+: value ∨ 0 ∈ value ∨
      (segments value).any (fun part ↦ part = ascii ['.', '.'] ∨ part = ascii ['.']) then
    .error (.invalid "An absolute path without traversal segments is required" param)
  else .ok value

def workspace : Utf16 := ascii ['/', 'w', 'o', 'r', 'k', 's', 'p', 'a', 'c', 'e']

/-- The directory that is listed, without slashes at its end. -/
def environmentDirectory (path : Utf16) : Except AgentsApiError Utf16 := do
  let _ ← absolutePath path "path"
  if path ≠ workspace ∧ ¬ workspace ++ [unit '/'] <+: path then
    throw (.invalid "File access is limited to /workspace" "path")
  pure (path.rdropWhile (· = unit '/'))

/-! ## Cursors -/

/-- `JSON.stringify({ scope, after })` -/
def cursorText (scope after : Utf16) : Utf16 :=
  unit '\x7b' :: (joined [memberText (ascii ['s', 'c', 'o', 'p', 'e']) (stringify scope),
    memberText (ascii ['a', 'f', 't', 'e', 'r']) (stringify after)] ++ [unit '\x7d'])

def encodeCursor (scope after : Utf16) : Utf16 := base64url (bytes (cursorText scope after))

/-- The path in a cursor of this scope. -/
def decodeCursor (scope page : Utf16) : Option Utf16 :=
  match parse (ofBytes (fromBase64url page)) with
  | some (.object members) =>
    match members.lookup (ascii ['s', 'c', 'o', 'p', 'e']),
        members.lookup (ascii ['a', 'f', 't', 'e', 'r']) with
    | some (some (.string cursorScope)), some (some (.string after)) =>
      if cursorScope = scope then some after else none
    | _, _ => none
  | _ => none

/-! ## Pages -/

structure EnvironmentFile (F : Type) where
  path : Utf16
  rest : F
deriving DecidableEq, Repr

structure FileListParams where
  path : Option Utf16
  /-- `order === 'asc'` -/
  ascending : Bool
  limit : Option ℚ
  page : Option Utf16
deriving DecidableEq, Repr

/-- How the first segments compare that differ; a path that has ended counts as empty. -/
def comparison (left right : List Utf16) : ℤ :=
  (((List.range (max left.length right.length)).map fun i ↦
    if left.getD i [] < right.getD i [] then -1
    else if right.getD i [] < left.getD i [] then 1 else 0).find? (· ≠ 0)).getD 0

variable {F : Type}

/-- The files of a directory in their order. -/
def sortedFiles (ascending : Bool) (path : Utf16) (files : List (EnvironmentFile F)) :
    List (EnvironmentFile F) :=
  (files.filter fun file ↦ path ++ [unit '/'] <+: file.path).insertionSort fun a b ↦
    (if ascending then comparison (segments a.path) (segments b.path)
      else -comparison (segments a.path) (segments b.path)) ≤ 0

/-- `JSON.stringify` of a list of strings. -/
def jsonTexts (texts : List Utf16) : Utf16 :=
  unit '[' :: (joined (texts.map stringify) ++ [unit ']'])

/-- What a cursor is bound to. `digest` is the hexadecimal SHA-256 of a text. -/
def scopeOf (digest : Utf16 → Utf16) (ownerId environmentId path : Utf16) (ascending : Bool) :
    Utf16 :=
  digest (jsonTexts [ownerId, environmentId, path,
    if ascending then ascii ['a', 's', 'c'] else ascii ['d', 'e', 's', 'c']])

/-- How many files the page comes after. -/
def startOf (scope : Utf16) (sorted : List (EnvironmentFile F)) (page : Option Utf16) :
    Except AgentsApiError ℕ :=
  match page.filter (· ≠ []) with
  | none => .ok 0
  | some page =>
    match decodeCursor scope page with
    | none => .error (.invalid "Invalid file cursor" "page")
    | some after =>
      if after = [] then .ok 0
      else match sorted.findIdx? (·.path = after) with
        | none => .error (.invalid "Invalid file cursor" "page")
        | some index => .ok (index + 1)

/-- `environmentFilePage(files, ownerId, environmentId, query)` -/
def environmentFilePage (digest : Utf16 → Utf16) (files : List (EnvironmentFile F))
    (ownerId environmentId : Utf16) (query : FileListParams) :
    Except AgentsApiError (Page (EnvironmentFile F) Utf16) := do
  let path ← environmentDirectory (query.path.getD workspace)
  let scope := scopeOf digest ownerId environmentId path query.ascending
  let limit := query.limit.getD 20
  if ¬ (limit.den = 1 ∧ 1 ≤ limit ∧ limit ≤ 100) then
    throw (.invalid "limit must be an integer from 1 to 100" "limit")
  let sorted := sortedFiles query.ascending path files
  let start ← startOf scope sorted query.page
  let (data, hasMore) := slicePage start limit.num.toNat sorted
  pure {
    data
    hasMore
    next := if hasMore then data.getLast?.map fun file ↦ encodeCursor scope file.path else none }

/-! ## The order of files

The comparison of the source is a comparison of keys, in which all orders are linear. -/

theorem lt_iff_map_toNat (a b : Utf16) : a < b ↔ a.map UInt16.toNat < b.map UInt16.toNat := by
  induction a generalizing b with
  | nil => rcases b with _ | ⟨v, b⟩ <;> simp
  | cons u a ih =>
    rcases b with _ | ⟨v, b⟩
    · simp
    · rw [List.map_cons, List.map_cons, List.cons_lt_cons_iff, List.cons_lt_cons_iff, ih,
        UInt16.lt_iff_toNat_lt, UInt16.toNat_inj]

/-- The segments of a path, as numbers and with empty ones behind them. -/
def segmentKey (parts : List Utf16) : Lex (ℕ → List ℕ) :=
  toLex fun i ↦ (parts.getD i []).map UInt16.toNat

theorem segmentKey_lt {left right : List Utf16} {i : ℕ}
    (hbefore : ∀ j < i, left.getD j [] = right.getD j []) (h : left.getD i [] < right.getD i []) :
    segmentKey left < segmentKey right :=
  ⟨i, fun j hj ↦ congrArg (List.map UInt16.toNat) (hbefore j hj), (lt_iff_map_toNat _ _).mp h⟩

/-- **Comparing segments is comparing by a key.** -/
theorem comparison_cases (left right : List Utf16) :
    segmentKey left < segmentKey right ∧ comparison left right = -1 ∨
      segmentKey left = segmentKey right ∧ comparison left right = 0 ∨
        segmentKey right < segmentKey left ∧ comparison left right = 1 := by
  -- Where neither is less, the segments are the same.
  have hsame : ∀ i, ¬ left.getD i [] < right.getD i [] → ¬ right.getD i [] < left.getD i [] →
      left.getD i [] = right.getD i [] := by
    intro i hlt hgt
    rw [lt_iff_map_toNat, not_lt] at hlt hgt
    exact List.map_injective_iff.mpr (fun _ _ ↦ UInt16.toNat_inj.mp) (le_antisymm hgt hlt)
  have hzero : ∀ i, (if left.getD i [] < right.getD i [] then (-1 : ℤ)
      else if right.getD i [] < left.getD i [] then 1 else 0) = 0 →
        left.getD i [] = right.getD i [] := by
    intro i hi
    split at hi
    · exact nomatch hi
    next hlt =>
    split at hi
    · exact nomatch hi
    next hgt => exact hsame i hlt hgt
  rw [comparison, List.find?_map]
  rcases hfirst : (List.range (max left.length right.length)).find? _ with _ | i
  · have hequal : segmentKey left = segmentKey right := by
      refine congrArg toLex (funext fun i ↦ congrArg (List.map UInt16.toNat) ?_)
      by_cases hi : i < max left.length right.length
      · rw [List.find?_range_eq_none] at hfirst
        exact hzero i (by simpa using hfirst i hi)
      · rw [List.getD_eq_getElem?_getD, List.getD_eq_getElem?_getD,
          List.getElem?_eq_none (by omega), List.getElem?_eq_none (by omega)]
    exact .inr (.inl ⟨hequal, rfl⟩)
  · rw [List.find?_range_eq_some] at hfirst
    obtain ⟨hsign, -, hbefore⟩ := hfirst
    have hbegins : ∀ j < i, left.getD j [] = right.getD j [] := fun j hj ↦
      hzero j (by simpa using hbefore j hj)
    rw [Option.map_some, Option.getD_some]
    split
    · next hlt => exact .inl ⟨segmentKey_lt hbegins hlt, rfl⟩
    next hlt =>
    split
    · next hgt =>
      exact .inr (.inr ⟨segmentKey_lt (fun j hj ↦ (hbegins j hj).symm) hgt, rfl⟩)
    · next hgt =>
      simp only [Function.comp_apply, if_neg hlt, if_neg hgt] at hsign
      exact absurd hsign (by decide)

theorem comparison_iff {ascending : Bool} (left right : List Utf16) :
    (if ascending then comparison left right else -comparison left right) ≤ 0 ↔
      Follows ascending (segmentKey left) (segmentKey right) := by
  rcases ascending with _ | _
  · rcases comparison_cases left right with ⟨hkey, heq⟩ | ⟨hkey, heq⟩ | ⟨hkey, heq⟩
    · exact iff_of_false (by simp [heq]) (not_le.mpr hkey)
    · exact iff_of_true (by simp [heq]) hkey.ge
    · exact iff_of_true (by simp [heq]) hkey.le
  · rcases comparison_cases left right with ⟨hkey, heq⟩ | ⟨hkey, heq⟩ | ⟨hkey, heq⟩
    · exact iff_of_true (by simp [heq]) hkey.le
    · exact iff_of_true (by simp [heq]) hkey.le
    · exact iff_of_false (by simp [heq]) (not_le.mpr hkey)

/-- **The files are shown in the order of their segments**, or the other way round. -/
theorem sortedFiles_eq (ascending : Bool) (path : Utf16) (files : List (EnvironmentFile F)) :
    sortedFiles ascending path files = sortBy ascending (fun file ↦ segmentKey (segments file.path))
      (files.filter fun file ↦ path ++ [unit '/'] <+: file.path) := by
  rw [sortedFiles, sortBy]
  congr 1
  funext a b
  exact propext (comparison_iff _ _)

/-! ## Cursors are read back -/

theorem paired_cursorText (scope after : Utf16) : Paired (cursorText scope after) := by
  have hmember : ∀ key text : Utf16, Paired (memberText key (stringify text)) := by
    intro key text
    exact (paired_stringify key).append
      (.single (isLead_isTrail_of_lt (by decide)) (paired_stringify text))
  refine .single (isLead_isTrail_of_lt (by decide)) (.append (.append (hmember _ _) ?_)
    (.of_small (by decide)))
  exact .single (isLead_isTrail_of_lt (by decide)) (hmember _ _)

theorem parse_cursorText (scope after : Utf16) : parse (cursorText scope after) =
    some (.object [(ascii ['s', 'c', 'o', 'p', 'e'], some (.string scope)),
      (ascii ['a', 'f', 't', 'e', 'r'], some (.string after))]) := by
  have hreads : ∀ (fuel : ℕ) (text : Utf16), Reads (parseValue (fuel + 1)) (stringify text)
      (.string text) := fun fuel text rest _ ↦ parseValue_string text rest
  have hnodup : (([(ascii ['s', 'c', 'o', 'p', 'e'], .string scope),
      (ascii ['a', 'f', 't', 'e', 'r'], .string after)] : List (Utf16 × Data)).map
        Prod.fst).Nodup := by
    simp only [List.map_cons, List.map_nil]
    decide
  have hmembers : ∀ fuel : ℕ, List.Forall₂ (fun (text : Utf16 × Utf16) (value : Utf16 × Data) ↦
      text.1 = value.1 ∧ Reads (parseValue (fuel + 1)) text.2 value.2)
      [(ascii ['s', 'c', 'o', 'p', 'e'], stringify scope),
        (ascii ['a', 'f', 't', 'e', 'r'], stringify after)]
      [(ascii ['s', 'c', 'o', 'p', 'e'], .string scope),
        (ascii ['a', 'f', 't', 'e', 'r'], .string after)] :=
    fun fuel ↦ .cons ⟨rfl, hreads fuel scope⟩ (.cons ⟨rfl, hreads fuel after⟩ .nil)
  have hvalue : parseValue ((cursorText scope after).length + 1) (cursorText scope after) =
      some (.object [(ascii ['s', 'c', 'o', 'p', 'e'], some (.string scope)),
        (ascii ['a', 'f', 't', 'e', 'r'], some (.string after))], []) :=
    parseValue_object hnodup (hmembers _)
  rw [parse, hvalue]
  rfl

/-- **A cursor gives the path back that it was made from**, in the same scope. -/
theorem decodeCursor_encodeCursor (scope after : Utf16) :
    decodeCursor scope (encodeCursor scope after) = some after := by
  have hscope : ([(ascii ['s', 'c', 'o', 'p', 'e'], some (Data.string scope)),
      (ascii ['a', 'f', 't', 'e', 'r'], some (Data.string after))] :
        List (Utf16 × Option Data)).lookup
        (ascii ['s', 'c', 'o', 'p', 'e']) = some (some (.string scope)) := rfl
  have hafter : ([(ascii ['s', 'c', 'o', 'p', 'e'], some (Data.string scope)),
      (ascii ['a', 'f', 't', 'e', 'r'], some (Data.string after))] :
        List (Utf16 × Option Data)).lookup
        (ascii ['a', 'f', 't', 'e', 'r']) = some (some (.string after)) := rfl
  rw [decodeCursor, encodeCursor, fromBase64url_base64url, ofBytes_bytes (paired_cursorText _ _),
    parse_cursorText]
  simp only [hscope, hafter, if_true]

theorem encodeCursor_ne_nil (scope after : Utf16) : encodeCursor scope after ≠ [] :=
  base64url_ne_nil (bytes_ne_nil (List.cons_ne_nil _ _))

/-! ## All files are shown

The pages of one directory, from the first one on, show every file once. -/

theorem mem_sortedFiles {ascending : Bool} {path : Utf16} {files : List (EnvironmentFile F)}
    {file : EnvironmentFile F} : file ∈ sortedFiles ascending path files ↔
      file ∈ files ∧ path ++ [unit '/'] <+: file.path := by
  rw [sortedFiles, List.mem_insertionSort, List.mem_filter, decide_eq_true_eq]

theorem nodup_sortedFiles {ascending : Bool} {path : Utf16} {files : List (EnvironmentFile F)}
    (h : (files.map (·.path)).Nodup) : ((sortedFiles ascending path files).map (·.path)).Nodup :=
  ((List.perm_insertionSort _ _).map _).nodup_iff.mpr (h.sublist (List.filter_sublist.map _))

/-- A limit that the file list accepts. -/
def IsFileLimit (limit : Option ℚ) : Prop :=
  ∀ value ∈ limit, value.den = 1 ∧ 1 ≤ value ∧ value ≤ 100

instance (limit : Option ℚ) : Decidable (IsFileLimit limit) :=
  inferInstanceAs (Decidable (∀ value ∈ limit, value.den = 1 ∧ 1 ≤ value ∧ value ≤ 100))

theorem valid_of_isFileLimit {limit : Option ℚ} (h : IsFileLimit limit) :
    ((limit.getD 20).den = 1 ∧ 1 ≤ limit.getD 20 ∧ limit.getD 20 ≤ 100) ∧
      0 < (limit.getD 20).num.toNat := by
  have hvalid : (limit.getD 20).den = 1 ∧ 1 ≤ limit.getD 20 ∧ limit.getD 20 ≤ 100 := by
    rcases hlimit : limit with _ | value
    · decide
    · exact h value hlimit
  refine ⟨hvalid, ?_⟩
  obtain ⟨hden, hle, -⟩ := hvalid
  rw [← Rat.coe_int_num_of_den_eq_one hden] at hle
  have hone : (1 : ℤ) ≤ (limit.getD 20).num := by exact_mod_cast hle
  omega

theorem ne_nil_of_mem_sortedFiles {ascending : Bool} {path : Utf16}
    {files : List (EnvironmentFile F)} {file : EnvironmentFile F}
    (h : file ∈ sortedFiles ascending path files) : file.path ≠ [] := by
  intro hnil
  have hbegins := (mem_sortedFiles.mp h).2
  rw [hnil, List.prefix_nil, List.append_eq_nil_iff] at hbegins
  exact List.cons_ne_nil _ _ hbegins.2

/-- Where the page behind some files begins. -/
theorem startOf_eq {scope : Utf16} {sorted shown rest : List (EnvironmentFile F)}
    (hl : sorted = shown ++ rest) (hfiles : (sorted.map (·.path)).Nodup)
    (hne : ∀ file ∈ sorted, file.path ≠ []) :
    startOf scope sorted (shown.getLast?.map fun file ↦ encodeCursor scope file.path) =
      .ok shown.length := by
  rcases List.eq_nil_or_concat' shown with rfl | ⟨init, last, rfl⟩
  · rfl
  · rw [List.append_assoc, List.singleton_append] at hl
    have hlast : last ∈ sorted := by
      rw [hl]
      exact List.mem_append_right _ List.mem_cons_self
    have hpage : ((init ++ [last]).getLast?.map fun file ↦ encodeCursor scope file.path).filter
        (· ≠ []) = some (encodeCursor scope last.path) := by
      simp [Option.filter, encodeCursor_ne_nil]
    have hindex : sorted.findIdx? (·.path = last.path) = some init.length := by
      refine findIdx?_append hl (decide_eq_true rfl) fun other hother ↦ ?_
      rw [hl] at hfiles
      rw [decide_eq_false_iff_not]
      exact ne_of_nodup_append hfiles other hother
    rw [startOf, hpage]
    dsimp only
    rw [decodeCursor_encodeCursor]
    dsimp only
    rw [if_neg (hne last hlast), hindex, List.length_append]
    rfl

/-- **The pages of a directory show all its files**, if paths differ. -/
theorem environmentFilePage_visits (digest : Utf16 → Utf16) (files : List (EnvironmentFile F))
    (ownerId environmentId : Utf16) (rawPath : Option Utf16) (ascending : Bool)
    (limits : ℕ → Option ℚ) (hlimits : ∀ i, IsFileLimit (limits i)) {path : Utf16}
    (hpath : environmentDirectory (rawPath.getD workspace) = .ok path)
    (hfiles : (files.map (·.path)).Nodup) :
    VisitsOnce (fun i page ↦ (environmentFilePage digest files ownerId environmentId
      ⟨rawPath, ascending, limits i, page⟩).toOption) (sortedFiles ascending path files) := by
  have hpos : ∀ i, 0 < ((limits i).getD 20).num.toNat :=
    fun i ↦ (valid_of_isFileLimit (hlimits i)).2
  set scope := scopeOf digest ownerId environmentId path ascending with hscope
  refine .of_cuts (fun shown ↦ shown.getLast?.map fun file ↦ encodeCursor scope file.path) hpos rfl
    fun i shown rest hl _ ↦ ?_
  have hstart : startOf scope (sortedFiles ascending path files)
      (shown.getLast?.map fun file ↦ encodeCursor scope file.path) = .ok shown.length :=
    startOf_eq hl (nodup_sortedFiles hfiles) fun _ ↦ ne_nil_of_mem_sortedFiles
  have hpage : environmentFilePage digest files ownerId environmentId ⟨rawPath, ascending, limits i,
      shown.getLast?.map fun file ↦ encodeCursor scope file.path⟩ = .ok {
        data := rest.take ((limits i).getD 20).num.toNat
        hasMore := decide (((limits i).getD 20).num.toNat < rest.length)
        next := if decide (((limits i).getD 20).num.toNat < rest.length) then
            (rest.take ((limits i).getD 20).num.toNat).getLast?.map fun file ↦
              encodeCursor scope file.path
          else none } := by
    rw [environmentFilePage, hpath]
    dsimp only [bind, Except.bind]
    rw [if_neg (not_not.mpr (valid_of_isFileLimit (hlimits i)).1), ← hscope, hstart]
    dsimp only [pure, Except.pure]
    rw [slicePage_append hl]
  exact ⟨_, congrArg Except.toOption hpage,
    (isCut_map (fun file : EnvironmentFile F ↦ encodeCursor scope file.path) (hpos i)).ite_next⟩

end RatThings.Environments
