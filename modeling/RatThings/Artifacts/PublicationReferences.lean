import RatThings.Artifacts.PublicationPages

/-!
# The references of generated pages

A page refers to files by the attributes that its script and the browser read, and a redirect by its
`refresh`. The paths of a plan are encoded where they are written, and resolve to themselves.
-/

namespace RatThings.Publications

open Concurrent Utf16 Html

/-- The attributes with references, also those that the script of a page copies. -/
def referenceNames : List Utf16 :=
  ["src", "href", "poster", "data-publication-src", "data-publication-href",
    "data-publication-poster"].map units

def isReferenceName (name : Utf16) : Bool := referenceNames.any (· = name)

/-- The tag asks for another page. -/
def refreshes (tag : Tag) : Bool :=
  tag.name = units "meta" && tag.attributes.any fun named ↦
    named.1 = units "http-equiv" && named.2.map lowered = units "refresh"

def tagReferences (tag : Tag) : List Utf16 :=
  ((tag.attributes.filter fun named ↦ isReferenceName named.1).map (dereference ·.2)) ++
    if refreshes tag then
      (tag.attributes.filter fun named ↦ named.1 = units "content").filterMap
        (refreshTarget <| dereference ·.2)
    else []

def pageReferences (page : Utf16) : List Utf16 := (tags page).flatMap tagReferences

/-! ## The shapes of pages -/

inductive Preview : Type
  | image
  | audio
  | document
  | plain
deriving DecidableEq

def preview (mediaType : Utf16) : Preview :=
  if units "image/" <+: mediaType then .image
  else if units "audio/" <+: mediaType then .audio
  else if mediaType = units "application/pdf" then .document
  else .plain

def Preview.pieces (href name : Utf16) : Preview → List (Utf16 × Utf16)
  | image => imagePieces href name
  | audio => audioPieces href
  | document => documentPieces href name
  | plain => []

def Preview.tags (href name : Utf16) : Preview → List Tag
  | image => imageTags href name
  | audio => audioTags href
  | document => documentTags href name
  | plain => []

/-- What a page is apart from the texts and paths on it. -/
inductive PageShape : Type
  | file (preview : Preview)
  | video (poster : Bool)
  | redirect
deriving DecidableEq

def PageShape.tags (href poster name : Utf16) : PageShape → List Tag
  | file preview => pageTags (preview.tags href name ++ linkTags href)
  | video true => pageTags (videoTags href (some poster) ++ linkTags href)
  | video false => pageTags (videoTags href none ++ linkTags href)
  | redirect => redirectTags href

/-- The tags and the names of their attributes. -/
def PageShape.outline (shape : PageShape) : List (Bool × Utf16 × List Utf16) :=
  (shape.tags [] [] []).map Tag.outline

theorem outline_tags (href poster name : Utf16) (shape : PageShape) :
    (shape.tags href poster name).map Tag.outline = shape.outline := by
  rcases shape with preview | poster | _
  · rcases preview <;> rfl
  · rcases poster <;> rfl
  · rfl

/-! ## References in tags -/

theorem references_headTags : headTags.flatMap tagReferences = [] := by decide

theorem references_styleTags : styleTags.flatMap tagReferences = [] := by decide

theorem references_tailTags : tailTags.flatMap tagReferences = [] := by decide

theorem references_pageTags (body : List Tag) :
    (pageTags body).flatMap tagReferences = body.flatMap tagReferences := by
  have hheading : [endTag "h1"].flatMap tagReferences = [] := by decide
  rw [pageTags]
  simp only [List.flatMap_append, references_headTags, references_styleTags, hheading,
    references_tailTags, List.nil_append, List.append_nil]

/-- The attributes on pages that are references, and the ones that are not. -/
theorem isReferenceName_iff :
    (["data-publication-src", "data-publication-href", "data-publication-poster", "href"].all
      fun name ↦ isReferenceName (units name)) ∧
    (["class", "download", "alt", "title", "controls", "preload", "playsinline", "http-equiv",
      "content"].all fun name ↦ !isReferenceName (units name)) := by
  decide

theorem not_refreshes {name : String} {attributes : List (String × Utf16)}
    (h : units name ≠ units "meta") : refreshes (startTag name attributes) = false := by
  rw [refreshes, startTag, decide_eq_false h, Bool.false_and]

theorem references_endTag (name : String) : tagReferences (endTag name) = [] := by
  simp [tagReferences, endTag, refreshes]

theorem references_startTag {name : String} {attributes : List (String × Utf16)}
    (h : units name ≠ units "meta") :
    tagReferences (startTag name attributes) =
      (attributes.filter fun named ↦ isReferenceName (units named.1)).map (dereference ·.2) := by
  rw [tagReferences, not_refreshes h, startTag, List.filter_map, List.map_map]
  simp [Function.comp_def]

theorem references_linkTags (href : Utf16) :
    (linkTags href).flatMap tagReferences = [dereference href] := by
  have hname : units "a" ≠ units "meta" := by decide
  have hnames := isReferenceName_iff
  simp only [List.all_cons, Bool.and_eq_true, Bool.not_eq_true'] at hnames
  simp [linkTags, references_startTag hname, references_endTag, hnames]

theorem references_preview (href name : Utf16) (preview : Preview) :
    ∀ reference ∈ (preview.tags href name).flatMap tagReferences, reference = dereference href := by
  have hnames := isReferenceName_iff
  simp only [List.all_cons, Bool.and_eq_true, Bool.not_eq_true'] at hnames
  intro reference hreference
  rcases preview
  · have hname : units "img" ≠ units "meta" := by decide
    simpa [Preview.tags, imageTags, references_startTag hname, hnames] using hreference
  · have hname : units "audio" ≠ units "meta" := by decide
    simpa [Preview.tags, audioTags, references_startTag hname, references_endTag, hnames]
      using hreference
  · have hname : units "iframe" ≠ units "meta" := by decide
    simpa [Preview.tags, documentTags, references_startTag hname, references_endTag, hnames]
      using hreference
  · exact absurd hreference List.not_mem_nil

theorem references_videoTags (href : Utf16) (poster : Option Utf16) :
    (videoTags href poster).flatMap tagReferences =
      dereference href :: (poster.map dereference).toList := by
  have hname : units "video" ≠ units "meta" := by decide
  have hnames := isReferenceName_iff
  simp only [List.all_cons, Bool.and_eq_true, Bool.not_eq_true'] at hnames
  rcases poster with _ | poster
  · simp [videoTags, references_startTag hname, references_endTag, hnames]
  · simp [videoTags, references_startTag hname, references_endTag, hnames]

theorem references_redirectTags (href : Utf16) :
    (redirectTags href).flatMap tagReferences =
      (refreshTarget (dereference (units "0;url=" ++ href))).toList ++ [dereference href] := by
  have hopen : [startTag "html" [("lang", units "en")], startTag "head" [],
      startTag "meta" [("charset", units "utf-8")]].flatMap tagReferences = [] := by
    decide
  have hhead : [startTag "meta" [("name", units "viewport"),
      ("content", units "width=device-width,initial-scale=1")],
      startTag "title" []].flatMap tagReferences = [] := by
    decide
  have hbetween : [endTag "title", endTag "head", startTag "body" []].flatMap tagReferences =
      [] := by
    decide
  have hclose : [endTag "a", endTag "body", endTag "html"].flatMap tagReferences = [] := by
    decide
  have hnames := isReferenceName_iff
  simp only [List.all_cons, Bool.and_eq_true, Bool.not_eq_true'] at hnames
  have hrefresh : tagReferences (startTag "meta" [("http-equiv", units "refresh"),
      ("content", units "0;url=" ++ href)]) =
        (refreshTarget (dereference (units "0;url=" ++ href))).toList := by
    have hrefreshes : refreshes (startTag "meta" [("http-equiv", units "refresh"),
        ("content", units "0;url=" ++ href)]) = true := rfl
    have hdifferent : units "http-equiv" ≠ units "content" := by decide
    rw [tagReferences, if_pos hrefreshes]
    simp only [startTag, List.map_cons, List.map_nil, List.filter_cons, hnames, hdifferent,
      decide_true, decide_false, if_true, List.filter_nil, Bool.false_eq_true, if_false,
      List.nil_append]
    rcases hnone : refreshTarget (dereference (units "0;url=" ++ href)) with _ | target
    · exact List.filterMap_cons_none hnone
    · exact List.filterMap_cons_some hnone
  have hlink : tagReferences (startTag "a" [("href", href)]) = [dereference href] := by
    have hname : units "a" ≠ units "meta" := by decide
    simp [references_startTag hname, hnames]
  rw [redirectTags]
  simp only [List.flatMap_append, hopen, hhead, hbetween, hclose, List.flatMap_singleton, hrefresh,
    hlink, List.nil_append, List.append_nil]

end RatThings.Publications
