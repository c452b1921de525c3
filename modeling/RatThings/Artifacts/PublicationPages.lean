import RatThings.Artifacts.Publications

/-!
# The tags of generated pages

Titles and names of files stand in the generated pages as text, between quotes of attributes and,
for a redirect, in a `refresh`. In each of these places the page is read as if they were not there:
they can hold neither a `<` nor a quote.

## How a page is read

The reader of the library goes from unit to unit, and its state says whether it is in a text, in a
tag or between quotes. A page is given by its pieces: a fixed text, then one that was inserted, and
so on. `Body` says of pieces which tags they are, whatever is inserted, provided that it is `Inert`;
so the bodies are dealt with one at a time, and a page is its head, its heading, its body and its
tail.

What is inserted is escaped text or an encoded path, and both are inert.
-/

namespace RatThings.Publications

open Concurrent Utf16 Html

/-! ## Escaped text

A reference is written for each of five units. Read back, it stands for that unit alone, for the
ampersand of a reference is never one of the text. -/

theorem notMem_escapeHtml {u : UInt16} (hu : u ∈ units "<>\"'") (value : Utf16) :
    u ∉ escapeHtml value := by
  have hspecial : u = 0x3C ∨ u = 0x3E ∨ u = 0x22 ∨ u = 0x27 := by
    have hlist : units "<>\"'" = [0x3C, 0x3E, 0x22, 0x27] := rfl
    simpa [hlist] using hu
  have hunit : ∀ entity ∈ [units "&amp;", units "&lt;", units "&gt;", units "&quot;",
      units "&#39;"], u ∉ entity := by
    rcases hspecial with rfl | rfl | rfl | rfl <;> decide
  intro hmem
  obtain ⟨v, -, hv⟩ := List.mem_flatMap.1 hmem
  rw [escapeUnit] at hv
  split_ifs at hv with h1 h2 h3 h4 h5
  · exact hunit _ (by simp) hv
  · exact hunit _ (by simp) hv
  · exact hunit _ (by simp) hv
  · exact hunit _ (by simp) hv
  · exact hunit _ (by simp) hv
  · obtain rfl := List.mem_singleton.1 hv
    rcases hspecial with h | h | h | h
    · exact h2 h
    · exact h3 h
    · exact h4 h
    · exact h5 h

/-- A unit that begins no reference stands for itself. -/
theorem dereference_cons {u : UInt16} (hu : u ≠ 0x26) (text : Utf16) :
    dereference (u :: text) = u :: dereference text := by
  have hnone : references.find? (fun reference ↦ reference.1 <+: u :: text) = none := by
    rw [List.find?_eq_none]
    intro reference hreference
    have hfirst : ∀ reference ∈ references, reference.1.head? = some 0x26 := by decide
    rw [decide_eq_true_eq]
    rintro ⟨rest, hrest⟩
    have hhead := congrArg List.head? hrest
    rw [List.head?_append, hfirst reference hreference] at hhead
    exact hu (Option.some.inj hhead).symm
  rw [dereference, hnone]

theorem dereference_of_notMem {text : Utf16} (h : 0x26 ∉ text) : dereference text = text := by
  induction text with
  | nil => rw [dereference]
  | cons u text ih =>
    rw [List.mem_cons, not_or] at h
    rw [dereference_cons (Ne.symm h.1), ih h.2]

theorem dereference_reference (reference : Utf16 × UInt16) (h : reference ∈ references)
    (text : Utf16) : dereference (reference.1 ++ text) = reference.2 :: dereference text := by
  have hfind : ∀ reference ∈ references, ∀ u more, reference.1 = u :: more →
      references.find? (fun other ↦ other.1 <+: u :: (more ++ text)) = some reference := by
    intro reference hreference u more hmore
    simp only [references, List.mem_cons, List.not_mem_nil, or_false] at hreference
    rcases hreference with rfl | rfl | rfl | rfl | rfl
    all_goals
      obtain ⟨rfl, rfl⟩ := List.cons.inj hmore
      rfl
  rcases hreference : reference.1 with _ | ⟨u, more⟩
  · have hne : ∀ reference ∈ references, reference.1 ≠ [] := by decide
    exact absurd hreference (hne reference h)
  · rw [List.cons_append, dereference, hfind reference h u more hreference]
    dsimp only
    rw [hreference, List.length_cons, Nat.add_sub_cancel, List.drop_left]

theorem dereference_escapeUnit (u : UInt16) (text : Utf16) :
    dereference (escapeUnit u ++ text) = u :: dereference text := by
  rw [escapeUnit]
  split_ifs with h1 h2 h3 h4 h5
  · rw [h1]
    exact dereference_reference (units "&amp;", 0x26) (by simp [references]) text
  · rw [h2]
    exact dereference_reference (units "&lt;", 0x3C) (by simp [references]) text
  · rw [h3]
    exact dereference_reference (units "&gt;", 0x3E) (by simp [references]) text
  · rw [h4]
    exact dereference_reference (units "&quot;", 0x22) (by simp [references]) text
  · rw [h5]
    exact dereference_reference (units "&#39;", 0x27) (by simp [references]) text
  · exact dereference_cons h1 text

/-- Escaped text stands for the text. -/
theorem dereference_escapeHtml (text : Utf16) : dereference (escapeHtml text) = text := by
  induction text with
  | nil =>
    rw [escapeHtml, List.flatMap_nil, dereference]
  | cons u text ih =>
    rw [escapeHtml, List.flatMap_cons, dereference_escapeUnit]
    rw [escapeHtml] at ih
    rw [ih]

/-! ## Texts that end nothing -/

/-- A text that ends nothing where it stands: it has neither `<` nor `"`. -/
def Inert (text : Utf16) : Prop := 0x3C ∉ text ∧ 0x22 ∉ text

theorem inert_wellFormed {text : Utf16} (h : Inert text) : Inert (wellFormed text) :=
  ⟨fun hmem ↦ h.1 (mem_of_mem_wellFormed (by decide) hmem),
    fun hmem ↦ h.2 (mem_of_mem_wellFormed (by decide) hmem)⟩

theorem inert_escapeHtml (value : Utf16) : Inert (escapeHtml value) := by
  constructor
  · exact notMem_escapeHtml (by decide) value
  · exact notMem_escapeHtml (by decide) value

theorem ascii_units (text : List Char) (h : text.all (·.toNat < 0x80) = true) :
    Ascii (units (String.ofList text)) := by
  refine forall_mem_units text fun c hc ↦ ?_
  have hsmall := of_decide_eq_true (List.all_eq_true.1 h c hc)
  change c.toNat % 2 ^ 16 < 0x80
  omega

/-- What a fixed text of a page has to be. -/
def Fixed (text : Utf16) : Prop := Ascii text ∧ text ≠ []

theorem fixed_units (c : Char) (text : List Char)
    (h : (c :: text).all (·.toNat < 0x80) = true) : Fixed (units (String.ofList (c :: text))) := by
  refine ⟨ascii_units _ h, ?_⟩
  rw [units_ofList]
  exact List.cons_ne_nil _ _

theorem Fixed.append {s t : Utf16} (hs : Fixed s) (ht : Ascii t) : Fixed (s ++ t) :=
  ⟨hs.1.append ht, List.append_ne_nil_of_left_ne_nil hs.2 t⟩

/-! ## The tags of a page

The fixed pieces are read by evaluation. Between them stands what was inserted, and the reader is in
the same state behind it as before. -/

def startTag (name : String) (attributes : List (String × Utf16)) : Tag where
  closing := false
  name := units name
  attributes := attributes.map fun named ↦ (units named.1, named.2)

def endTag (name : String) : Tag where
  closing := true
  name := units name
  attributes := []

/-- Inside the quotes of an attribute. -/
def quoted (tag : Tag) (name : String) : State := .doubleQuoted tag (units name) []

theorem read_quoted {value : Utf16} (h : Inert value) (tag : Tag) (name : String) :
    read (quoted tag name) value = (.doubleQuoted tag (units name) value, []) := by
  rw [quoted, read_doubleQuoted h.2, List.nil_append]

/-- The page in front of its title, between the title and the heading, and behind its body. -/
def headText : Utf16 :=
  units "<!doctype html><html lang=\"en\"><head><meta charset=\"utf-8\">" ++
    units "<meta name=\"viewport\" content=\"width=device-width,initial-scale=1\"><title>"

def styleText : Utf16 :=
  units "</title><style>" ++ (pageStyle ++ units "</style></head><body><main><h1>")

def tailText : Utf16 :=
  units "</main><script>" ++
    (publicationAssetAuthorizationScript ++ units "</script></body></html>")

/-- The tags in front of the body of a page with a file. -/
def headTags : List Tag :=
  [startTag "html" [("lang", units "en")], startTag "head" [],
    startTag "meta" [("charset", units "utf-8")],
    startTag "meta" [("name", units "viewport"),
      ("content", units "width=device-width,initial-scale=1")],
    startTag "title" []]

def styleTags : List Tag :=
  [endTag "title", startTag "style" [], endTag "style", endTag "head", startTag "body" [],
    startTag "main" [], startTag "h1" []]

def tailTags : List Tag :=
  [endTag "main", startTag "script" [], endTag "script", endTag "body", endTag "html"]

theorem read_doctype : read .data
    (units "<!doctype html><html lang=\"en\"><head><meta charset=\"utf-8\">") =
      (.data, [startTag "html" [("lang", units "en")], startTag "head" [],
        startTag "meta" [("charset", units "utf-8")]]) := by
  decide +kernel

theorem read_viewport : read .data
    (units "<meta name=\"viewport\" content=\"width=device-width,initial-scale=1\"><title>") =
      (.raw (units "title"), [startTag "meta" [("name", units "viewport"),
        ("content", units "width=device-width,initial-scale=1")], startTag "title" []]) := by
  decide +kernel

theorem read_headText : read .data headText = (.raw (units "title"), headTags) :=
  read_append_eq read_doctype read_viewport

theorem read_styleText : read (.raw (units "title")) styleText = (.data, styleTags) := by
  have hstyle : 0x3C ∉ pageStyle := by
    delta pageStyle
    simp only [List.mem_append, not_or]
    and_intros <;> exact notMem_units _ _ rfl
  have hopen : read (.raw (units "title")) (units "</title><style>") =
      (.raw (units "style"), [endTag "title", startTag "style" []]) := rfl
  have hclose : read (.raw (units "style")) (units "</style></head><body><main><h1>") =
      (.data, [endTag "style", endTag "head", startTag "body" [], startTag "main" [],
        startTag "h1" []]) := rfl
  exact read_append_eq hopen (read_append_eq (read_raw hstyle _) hclose)

theorem read_tailText : read .data tailText = (.data, tailTags) := by
  have hscript : 0x3C ∉ publicationAssetAuthorizationScript := by
    delta publicationAssetAuthorizationScript
    simp only [List.mem_append, not_or]
    and_intros <;> exact notMem_units _ _ rfl
  have hopen : read .data (units "</main><script>") =
      (.raw (units "script"), [endTag "main", startTag "script" []]) := rfl
  have hclose : read (.raw (units "script")) (units "</script></body></html>") =
      (.data, [endTag "script", endTag "body", endTag "html"]) := rfl
  exact read_append_eq hopen (read_append_eq (read_raw hscript _) hclose)

theorem fixed_headText : Fixed headText := by
  rw [headText]
  exact Fixed.append (fixed_units _ _ rfl) (ascii_units _ rfl)

theorem fixed_styleText : Fixed styleText := by
  have hstyle : Ascii pageStyle := by
    delta pageStyle
    repeat' apply Ascii.append
    all_goals exact ascii_units _ rfl
  rw [styleText]
  exact Fixed.append (fixed_units _ _ rfl) (Ascii.append hstyle (ascii_units _ rfl))

theorem fixed_tailText : Fixed tailText := by
  have hscript : Ascii publicationAssetAuthorizationScript := by
    delta publicationAssetAuthorizationScript
    repeat' apply Ascii.append
    all_goals exact ascii_units _ rfl
  rw [tailText]
  exact Fixed.append (fixed_units _ _ rfl) (Ascii.append hscript (ascii_units _ rfl))

/-! ## Bodies

One lemma for each kind of page body. -/

/-- A body, with the texts that are inserted into it. -/
def linkPieces (href name : Utf16) : List (Utf16 × Utf16) :=
  [(units "<a class=\"download\" data-publication-href=\"", href),
    (units "\" download>Download ", name), (units "</a>", [])]

def imagePieces (href name : Utf16) : List (Utf16 × Utf16) :=
  [(units "<img data-publication-src=\"", href), (units "\" alt=\"", name), (units "\">", [])]

def audioPieces (href : Utf16) : List (Utf16 × Utf16) :=
  [(units "<audio data-publication-src=\"", href),
    (units "\" controls preload=\"metadata\"></audio>", [])]

def documentPieces (href name : Utf16) : List (Utf16 × Utf16) :=
  [(units "<iframe data-publication-src=\"", href), (units "\" title=\"", name),
    (units "\"></iframe>", [])]

def videoPieces (href : Utf16) : Option Utf16 → List (Utf16 × Utf16)
  | some poster =>
    [(units "<video data-publication-src=\"", href),
      (units "\"" ++ units " data-publication-poster=\"", poster),
      (units "\"" ++ units " controls playsinline preload=\"metadata\"></video>", [])]
  | none =>
    [(units "<video data-publication-src=\"", href),
      (units "\"" ++ units " controls playsinline preload=\"metadata\"></video>", [])]

def linkTags (href : Utf16) : List Tag :=
  [startTag "a" [("class", units "download"), ("data-publication-href", href), ("download", [])],
    endTag "a"]

def imageTags (href name : Utf16) : List Tag :=
  [startTag "img" [("data-publication-src", href), ("alt", name)]]

def audioTags (href : Utf16) : List Tag :=
  [startTag "audio" [("data-publication-src", href), ("controls", []),
    ("preload", units "metadata")], endTag "audio"]

def documentTags (href name : Utf16) : List Tag :=
  [startTag "iframe" [("data-publication-src", href), ("title", name)], endTag "iframe"]

def videoTags (href : Utf16) : Option Utf16 → List Tag
  | some poster =>
    [startTag "video" [("data-publication-src", href), ("data-publication-poster", poster),
      ("controls", []), ("playsinline", []), ("preload", units "metadata")], endTag "video"]
  | none =>
    [startTag "video" [("data-publication-src", href), ("controls", []), ("playsinline", []),
      ("preload", units "metadata")], endTag "video"]

/-- These pieces are these tags, when the inserted texts end nothing. -/
structure Body (pieces : List (Utf16 × Utf16)) (found : List Tag) : Prop where
  fixed : ∀ piece ∈ pieces, Fixed piece.1
  reading : read .data (mixed (pieces.map fun piece ↦ (piece.1, wellFormed piece.2))) =
    (.data, found)

theorem mixed_append (first second : List (Utf16 × Utf16)) :
    mixed (first ++ second) = mixed first ++ mixed second :=
  List.flatMap_append

theorem Body.append {first second : List (Utf16 × Utf16)} {found more : List Tag}
    (hfirst : Body first found) (hsecond : Body second more) :
    Body (first ++ second) (found ++ more) where
  fixed piece hpiece := by
    rcases List.mem_append.1 hpiece with hpiece | hpiece
    · exact hfirst.fixed piece hpiece
    · exact hsecond.fixed piece hpiece
  reading := by
    rw [List.map_append, mixed_append]
    exact read_append_eq hfirst.reading hsecond.reading

section

variable {href name : Utf16} (hhref : Inert href)
include hhref

theorem link_body (hname : Inert name) :
    Body (linkPieces href name) (linkTags (wellFormed href)) where
  fixed := by
    simp only [linkPieces, List.forall_mem_cons]
    exact ⟨fixed_units _ _ rfl, fixed_units _ _ rfl, fixed_units _ _ rfl, fun _ ↦ nofun⟩
  reading := by
    have hopen : read .data (units "<a class=\"download\" data-publication-href=\"") =
        (quoted (startTag "a" [("class", units "download")]) "data-publication-href", []) := rfl
    have hlink : read (.doubleQuoted (startTag "a" [("class", units "download")])
        (units "data-publication-href") (wellFormed href)) (units "\" download>Download ") =
          (.data, [startTag "a" [("class", units "download"),
            ("data-publication-href", wellFormed href), ("download", [])]]) := rfl
    have hclose : read .data (units "</a>") = (.data, [endTag "a"]) := by decide
    exact read_mixed_cons hopen (read_quoted (inert_wellFormed hhref) _ _)
      (read_mixed_cons hlink (read_data (inert_wellFormed hname).1)
        (read_mixed_cons hclose rfl rfl))

theorem image_body (hname : Inert name) :
    Body (imagePieces href name) (imageTags (wellFormed href) (wellFormed name)) where
  fixed := by
    simp only [imagePieces, List.forall_mem_cons]
    exact ⟨fixed_units _ _ rfl, fixed_units _ _ rfl, fixed_units _ _ rfl, fun _ ↦ nofun⟩
  reading := by
    have hopen : read .data (units "<img data-publication-src=\"") =
        (quoted (startTag "img" []) "data-publication-src", []) := rfl
    have hname' : read (.doubleQuoted (startTag "img" []) (units "data-publication-src")
        (wellFormed href)) (units "\" alt=\"") =
          (quoted (startTag "img" [("data-publication-src", wellFormed href)]) "alt", []) := rfl
    have hclose : read (.doubleQuoted (startTag "img" [("data-publication-src", wellFormed href)])
        (units "alt") (wellFormed name)) (units "\">") =
          (.data, imageTags (wellFormed href) (wellFormed name)) := rfl
    exact read_mixed_cons hopen (read_quoted (inert_wellFormed hhref) _ _)
      (read_mixed_cons hname' (read_quoted (inert_wellFormed hname) _ _)
        (read_mixed_cons hclose rfl rfl))

theorem audio_body : Body (audioPieces href) (audioTags (wellFormed href)) where
  fixed := by
    simp only [audioPieces, List.forall_mem_cons]
    exact ⟨fixed_units _ _ rfl, fixed_units _ _ rfl, fun _ ↦ nofun⟩
  reading := by
    have hopen : read .data (units "<audio data-publication-src=\"") =
        (quoted (startTag "audio" []) "data-publication-src", []) := rfl
    have hclose : read (.doubleQuoted (startTag "audio" []) (units "data-publication-src")
        (wellFormed href)) (units "\" controls preload=\"metadata\"></audio>") =
          (.data, audioTags (wellFormed href)) := rfl
    exact read_mixed_cons hopen (read_quoted (inert_wellFormed hhref) _ _)
      (read_mixed_cons hclose rfl rfl)

theorem document_body (hname : Inert name) :
    Body (documentPieces href name) (documentTags (wellFormed href) (wellFormed name)) where
  fixed := by
    simp only [documentPieces, List.forall_mem_cons]
    exact ⟨fixed_units _ _ rfl, fixed_units _ _ rfl, fixed_units _ _ rfl, fun _ ↦ nofun⟩
  reading := by
    have hopen : read .data (units "<iframe data-publication-src=\"") =
        (quoted (startTag "iframe" []) "data-publication-src", []) := rfl
    have hname' : read (.doubleQuoted (startTag "iframe" []) (units "data-publication-src")
        (wellFormed href)) (units "\" title=\"") =
          (quoted (startTag "iframe" [("data-publication-src", wellFormed href)]) "title", []) :=
      rfl
    have hclose :
        read (.doubleQuoted (startTag "iframe" [("data-publication-src", wellFormed href)])
          (units "title") (wellFormed name)) (units "\"></iframe>") =
          (.data, documentTags (wellFormed href) (wellFormed name)) := rfl
    exact read_mixed_cons hopen (read_quoted (inert_wellFormed hhref) _ _)
      (read_mixed_cons hname' (read_quoted (inert_wellFormed hname) _ _)
        (read_mixed_cons hclose rfl rfl))

theorem video_body {poster : Option Utf16} (hposter : ∀ value ∈ poster, Inert value) :
    Body (videoPieces href poster) (videoTags (wellFormed href) (poster.map wellFormed)) := by
  have hopen : read .data (units "<video data-publication-src=\"") =
      (quoted (startTag "video" []) "data-publication-src", []) := rfl
  rcases poster with _ | poster
  · have hclose : read (.doubleQuoted (startTag "video" []) (units "data-publication-src")
        (wellFormed href)) (units "\"" ++
          units " controls playsinline preload=\"metadata\"></video>") =
          (.data, videoTags (wellFormed href) none) := rfl
    refine ⟨?_, read_mixed_cons hopen (read_quoted (inert_wellFormed hhref) _ _)
      (read_mixed_cons hclose rfl rfl)⟩
    simp only [videoPieces, List.forall_mem_cons]
    exact ⟨fixed_units _ _ rfl, Fixed.append (fixed_units _ _ rfl) (ascii_units _ rfl),
      fun _ ↦ nofun⟩
  · have hname : read (.doubleQuoted (startTag "video" []) (units "data-publication-src")
        (wellFormed href)) (units "\"" ++ units " data-publication-poster=\"") =
          (quoted (startTag "video" [("data-publication-src", wellFormed href)])
            "data-publication-poster", []) := rfl
    have hclose : read (.doubleQuoted (startTag "video" [("data-publication-src", wellFormed href)])
        (units "data-publication-poster") (wellFormed poster)) (units "\"" ++
          units " controls playsinline preload=\"metadata\"></video>") =
          (.data, videoTags (wellFormed href) (some (wellFormed poster))) := rfl
    refine ⟨?_, read_mixed_cons hopen (read_quoted (inert_wellFormed hhref) _ _)
      (read_mixed_cons hname (read_quoted (inert_wellFormed (hposter poster rfl)) _ _)
        (read_mixed_cons hclose rfl rfl))⟩
    simp only [videoPieces, List.forall_mem_cons]
    exact ⟨fixed_units _ _ rfl, Fixed.append (fixed_units _ _ rfl) (ascii_units _ rfl),
      Fixed.append (fixed_units _ _ rfl) (ascii_units _ rfl), fun _ ↦ nofun⟩

end

/-! ## Pages

The pages that the builders write, put together from these. -/

/-- A page with a title, from the pieces of its body. -/
def pagePieces (title : Utf16) (body : List (Utf16 × Utf16)) : List (Utf16 × Utf16) :=
  (headText, title) :: (styleText, title) :: (units "</h1>", []) :: (body ++ [(tailText, [])])

def pageTags (body : List Tag) : List Tag :=
  headTags ++ (styleTags ++ ([endTag "h1"] ++ (body ++ tailTags)))

theorem htmlDocument_eq (title : Utf16) (body : List (Utf16 × Utf16)) :
    htmlDocument title (mixed body) = mixed (pagePieces (escapeHtml title) body) := by
  have htail : mixed [(tailText, [])] = tailText := by
    rw [mixed_cons, mixed, List.flatMap_nil, List.append_nil, List.append_nil]
  rw [pagePieces, mixed_cons, mixed_cons, mixed_cons, mixed_append, htail, htmlDocument, headText,
    styleText, tailText]
  simp only [List.append_assoc, List.nil_append]

theorem page_body {title : Utf16} (htitle : Inert title) {body : List (Utf16 × Utf16)}
    {found : List Tag} (hbody : Body body found) :
    Body (pagePieces title body) (pageTags found) where
  fixed := by
    simp only [pagePieces, List.forall_mem_cons, List.forall_mem_append]
    exact ⟨fixed_headText, fixed_styleText, fixed_units _ _ rfl, hbody.fixed, fixed_tailText,
      fun _ ↦ nofun⟩
  reading := by
    have hclose : read .data (units "</h1>") = (.data, [endTag "h1"]) := by decide
    have htail : read .data (mixed [(tailText, [])]) = (.data, tailTags ++ []) :=
      read_mixed_cons read_tailText rfl rfl
    have hrest := read_append_eq hbody.reading htail
    rw [← mixed_append, List.append_nil] at hrest
    have hshown := inert_wellFormed htitle
    simp only [pagePieces, List.map_cons, List.map_append, List.map_nil]
    exact read_mixed_cons read_headText (read_raw hshown.1 _)
      (read_mixed_cons read_styleText (read_data hshown.1) (read_mixed_cons hclose rfl hrest))

/-- The page that refers to another one. -/
def redirectPieces (href name : Utf16) : List (Utf16 × Utf16) :=
  [(units "<!doctype html><html lang=\"en\"><head><meta charset=\"utf-8\">" ++
      units "<meta http-equiv=\"refresh\" content=\"0;url=", href),
    (units "\">" ++
      units "<meta name=\"viewport\" content=\"width=device-width,initial-scale=1\"><title>", name),
    (units "</title></head><body><a href=\"", href), (units "\">Open ", name),
    (units "</a></body></html>", [])]

def redirectTags (href : Utf16) : List Tag :=
  [startTag "html" [("lang", units "en")], startTag "head" [],
      startTag "meta" [("charset", units "utf-8")]] ++
    (([startTag "meta" [("http-equiv", units "refresh"), ("content", units "0;url=" ++ href)]] ++
      [startTag "meta" [("name", units "viewport"),
        ("content", units "width=device-width,initial-scale=1")], startTag "title" []]) ++
    ([endTag "title", endTag "head", startTag "body" []] ++
      ([startTag "a" [("href", href)]] ++ [endTag "a", endTag "body", endTag "html"])))

theorem redirect_body {href name : Utf16} (hhref : Inert href) (hname : Inert name) :
    Body (redirectPieces href name) (redirectTags (wellFormed href)) where
  fixed := by
    simp only [redirectPieces, List.forall_mem_cons]
    exact ⟨Fixed.append (fixed_units _ _ rfl) (ascii_units _ rfl),
      Fixed.append (fixed_units _ _ rfl) (ascii_units _ rfl), fixed_units _ _ rfl,
      fixed_units _ _ rfl, fixed_units _ _ rfl, fun _ ↦ nofun⟩
  reading := by
    have hhref' := inert_wellFormed hhref
    have hname' := inert_wellFormed hname
    have hopen : read .data (units "<meta http-equiv=\"refresh\" content=\"0;url=") =
        (.doubleQuoted (startTag "meta" [("http-equiv", units "refresh")]) (units "content")
          (units "0;url="), []) := rfl
    have hrefresh : read (.doubleQuoted (startTag "meta" [("http-equiv", units "refresh")])
        (units "content") (units "0;url=" ++ wellFormed href)) (units "\">") =
          (.data, [startTag "meta" [("http-equiv", units "refresh"),
            ("content", units "0;url=" ++ wellFormed href)]]) := rfl
    have hlink : read (.raw (units "title")) (units "</title></head><body><a href=\"") =
        (quoted (startTag "a" []) "href",
          [endTag "title", endTag "head", startTag "body" []]) := rfl
    have hname'' : read (.doubleQuoted (startTag "a" []) (units "href") (wellFormed href))
        (units "\">Open ") = (.data, [startTag "a" [("href", wellFormed href)]]) := rfl
    have hclose : read .data (units "</a></body></html>") =
        (.data, [endTag "a", endTag "body", endTag "html"]) := rfl
    exact read_mixed_cons (read_append_eq read_doctype hopen) (read_doubleQuoted hhref'.2 _ _ _)
      (read_mixed_cons (read_append_eq hrefresh read_viewport) (read_raw hname'.1 _)
        (read_mixed_cons hlink (read_quoted hhref' _ _)
          (read_mixed_cons hname'' (read_data hname'.1) (read_mixed_cons hclose rfl rfl))))

/-- The tags of a page, when it is read from its bytes. -/
theorem Body.tags_eq {pieces : List (Utf16 × Utf16)} {found : List Tag} (h : Body pieces found) :
    tags (ofBytes (bytes (mixed pieces))) = found := by
  rw [tags, ofBytes_bytes_eq, wellFormed_mixed h.fixed, h.reading]

end RatThings.Publications
