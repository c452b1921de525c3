import RatThings.Artifacts.PublicationReferences

/-!
# What viewers write

A viewer encodes the path of its file once, and every reference of its page is that path. A redirect
writes the path once more behind `url=`, where a path that begins with an apostrophe ends at the
next one.
-/

namespace RatThings.Publications

open Concurrent Utf16 Html

/-! ## Encoded paths on pages -/

theorem mapM_encodeURIComponent {parts : List Utf16} (h : ∀ part ∈ parts, Paired part) :
    parts.mapM encodeURIComponent = .ok (parts.map encodedPart) := by
  induction parts with
  | nil => rfl
  | cons part parts ih =>
    have hpart : encodeURIComponent part = .ok (encodedPart part) :=
      encodeURIComponent_eq_ok.2 ⟨characters_of_paired (h part List.mem_cons_self), rfl⟩
    rw [List.mapM_cons, hpart, ih fun other hother ↦ h other (List.mem_cons_of_mem _ hother)]
    rfl

theorem encodePath_eq {path : Utf16} (h : Paired path) :
    encodePath path = .ok (encodedPath path) := by
  rw [encodePath, mapM_encodeURIComponent fun part ↦ paired_of_mem_splitOn h,
    ← intercalate_encodedPart]
  rfl

theorem isPathUnit_of_mem {path : Utf16} {u : UInt16} (hu : u ∈ encodedPath path) :
    isPathUnit u = true :=
  List.all_eq_true.1 (isPathUnit_encodedPath path) u hu

/-- An encoded path has no unit with a meaning in HTML, apart from apostrophes. -/
theorem notMem_of_not_isPathUnit {u : UInt16} (hu : isPathUnit u = false) (path : Utf16) :
    u ∉ encodedPath path :=
  fun hmem ↦ Bool.false_ne_true (hu.symm.trans (isPathUnit_of_mem hmem))

theorem inert_encodedPath (path : Utf16) : Inert (encodedPath path) :=
  ⟨notMem_of_not_isPathUnit (by decide) path, notMem_of_not_isPathUnit (by decide) path⟩

theorem ascii_encodedPath (path : Utf16) : Ascii (encodedPath path) := by
  intro u hu
  by_contra hlarge
  have hpath := isPathUnit_of_mem hu
  rw [isPathUnit, Bool.or_eq_true, isAlphanumeric] at hpath
  rcases hpath with halphanumeric | hmark
  · simp at halphanumeric
    omega
  · obtain ⟨mark, hmark, hvalue⟩ := List.any_eq_true.1 hmark
    have hsmall : (['-', '_', '.', '!', '~', '*', '\'', '(', ')', '%', '/'].all fun mark ↦
        decide (mark.toNat < 0x80)) = true := rfl
    have hvalue' := of_decide_eq_true (List.all_eq_true.1 hsmall mark hmark)
    exact hlarge (of_decide_eq_true hvalue ▸ hvalue')

theorem dereference_encodedPath (path : Utf16) :
    dereference (wellFormed (encodedPath path)) = encodedPath path := by
  rw [(ascii_encodedPath path).wellFormed_eq]
  exact dereference_of_notMem (notMem_of_not_isPathUnit (by decide) path)

theorem ascii_escapeHtml {text : Utf16} (h : Ascii text) : Ascii (escapeHtml text) := by
  intro u hu
  obtain ⟨v, hv, hu⟩ := List.mem_flatMap.1 hu
  rw [escapeUnit] at hu
  split_ifs at hu
  · exact ascii_units _ rfl u hu
  · exact ascii_units _ rfl u hu
  · exact ascii_units _ rfl u hu
  · exact ascii_units _ rfl u hu
  · exact ascii_units _ rfl u hu
  · rw [List.mem_singleton.1 hu]
    exact h v hv

theorem escapeHtml_append (first second : Utf16) :
    escapeHtml (first ++ second) = escapeHtml first ++ escapeHtml second :=
  List.flatMap_append

/-! ## Pages of viewers -/

theorem fileViewer_eq (title : Option Utf16) (file : PublicationSourceFile) {assetPath : Utf16}
    (h : Paired assetPath) :
    fileViewer title file assetPath = .ok (htmlDocument (title.getD (basename file.path))
      (mixed ((preview file.blob.mediaType).pieces (encodedPath assetPath)
        (escapeHtml (title.getD (basename file.path))) ++
          linkPieces (encodedPath assetPath) (escapeHtml (basename file.path))))) := by
  have hlink : ∀ href name, mixed (linkPieces href (escapeHtml name)) = downloadLink href name := by
    intro href name
    simp [mixed, linkPieces, downloadLink]
  rw [fileViewer, encodePath_eq h, mixed_append, hlink, preview]
  split_ifs
  · simp [mixed, Preview.pieces, imagePieces, bind, Except.bind, pure, Except.pure]
  · simp [mixed, Preview.pieces, audioPieces, bind, Except.bind, pure, Except.pure]
  · simp [mixed, Preview.pieces, documentPieces, bind, Except.bind, pure, Except.pure]
  · simp [mixed, Preview.pieces, bind, Except.bind, pure, Except.pure]

theorem videoViewer_eq (title : Option Utf16) (video : PublicationSourceFile) {videoPath : Utf16}
    {posterPath : Option Utf16} (h : Paired videoPath)
    (hposter : ∀ path ∈ posterPath, Paired path) :
    videoViewer title video videoPath posterPath = .ok (htmlDocument
      (title.getD (basename video.path))
      (mixed (videoPieces (encodedPath videoPath) (posterPath.map encodedPath) ++
        linkPieces (encodedPath videoPath) (escapeHtml (basename video.path))))) := by
  rcases posterPath with _ | posterPath
  · rw [videoViewer, encodePath_eq h]
    simp [mixed, videoPieces, linkPieces, downloadLink, bind, Except.bind, pure, Except.pure]
  · rw [videoViewer, encodePath_eq h]
    simp [encodePath_eq (hposter posterPath rfl), mixed, videoPieces, linkPieces,
      downloadLink, bind,
      Except.bind, pure, Except.pure]

theorem redirectViewer_eq (title : Option Utf16) {entrypoint : Utf16} (h : Paired entrypoint) :
    redirectViewer title entrypoint = .ok (mixed (redirectPieces
      (escapeHtml (encodedPath entrypoint))
        (escapeHtml (title.getD (units "Published site"))))) := by
  rw [redirectViewer, encodePath_eq h]
  simp [mixed, redirectPieces, bind, Except.bind, pure, Except.pure]

theorem Preview.body {href name : Utf16} (hhref : Inert href) (hname : Inert name)
    (preview : Preview) :
    Body (preview.pieces href name) (preview.tags (wellFormed href) (wellFormed name)) := by
  rcases preview
  · exact image_body hhref hname
  · exact audio_body hhref
  · exact document_body hhref hname
  · exact ⟨fun _ ↦ nofun, rfl⟩

/-- The tags of the page of a file. -/
theorem tags_fileViewer {title : Option Utf16} {file : PublicationSourceFile}
    {assetPath page : Utf16}
    (h : Paired assetPath) (hpage : fileViewer title file assetPath = .ok page) :
    ∃ name, tags (ofBytes (bytes page)) = (PageShape.file (preview file.blob.mediaType)).tags
      (wellFormed (encodedPath assetPath)) [] name := by
  rw [fileViewer_eq title file h] at hpage
  rw [← Except.ok.inj hpage, htmlDocument_eq]
  exact ⟨_, (page_body (inert_escapeHtml _) (((preview file.blob.mediaType).body
    (inert_encodedPath assetPath) (inert_escapeHtml _)).append
      (link_body (inert_encodedPath assetPath) (inert_escapeHtml _)))).tags_eq⟩

theorem tags_videoViewer {title : Option Utf16} {video : PublicationSourceFile}
    {videoPath page : Utf16} {posterPath : Option Utf16} (h : Paired videoPath)
    (hposter : ∀ path ∈ posterPath, Paired path)
    (hpage : videoViewer title video videoPath posterPath = .ok page) :
    tags (ofBytes (bytes page)) = (PageShape.video posterPath.isSome).tags
      (wellFormed (encodedPath videoPath)) (wellFormed (encodedPath (posterPath.getD []))) [] := by
  rw [videoViewer_eq title video h hposter] at hpage
  rw [← Except.ok.inj hpage, htmlDocument_eq]
  have hinert : ∀ value ∈ posterPath.map encodedPath, Inert value := by
    rintro value hvalue
    obtain ⟨path, -, rfl⟩ := Option.mem_map.1 hvalue
    exact inert_encodedPath path
  rw [(page_body (inert_escapeHtml _) ((video_body (inert_encodedPath videoPath) hinert).append
    (link_body (inert_encodedPath videoPath) (inert_escapeHtml _)))).tags_eq]
  rcases posterPath with _ | posterPath
  · rfl
  · rfl

theorem tags_redirectViewer {title : Option Utf16} {entrypoint page : Utf16} (h : Paired entrypoint)
    (hpage : redirectViewer title entrypoint = .ok page) :
    tags (ofBytes (bytes page)) =
      PageShape.redirect.tags (wellFormed (escapeHtml (encodedPath entrypoint))) [] [] := by
  rw [redirectViewer_eq title h] at hpage
  rw [← Except.ok.inj hpage]
  exact (redirect_body (inert_escapeHtml _) (inert_escapeHtml _)).tags_eq

/-! ## Refreshing -/

theorem dropWhile_isSpace {e : Utf16} (h : ∀ u ∈ e, isPathUnit u = true) :
    e.dropWhile isSpace = e := by
  rcases e with _ | ⟨u, e⟩
  · rfl
  · refine List.dropWhile_cons_of_neg fun hspace ↦ ?_
    have hpath := h u List.mem_cons_self
    rw [isSpace] at hspace
    simp only [Bool.or_eq_true, decide_eq_true_eq] at hspace
    rcases hspace with (((rfl | rfl) | rfl) | rfl) | rfl
    all_goals exact absurd hpath (by decide)

/-- What a refresh refers to with an encoded path behind `url=`. -/
theorem refreshTarget_url {e : Utf16} (h : ∀ u ∈ e, isPathUnit u = true) :
    refreshTarget (units "0;url=" ++ e) = some (unquote e) := by
  have htext : units "0;url=" ++ e = 0x30 :: 0x3B :: 0x75 :: 0x72 :: 0x6C :: 0x3D :: e := by
    rw [show units "0;url=" = [0x30, 0x3B, 0x75, 0x72, 0x6C, 0x3D] by decide]
    rfl
  have hreference : refreshReference (0x75 :: 0x72 :: 0x6C :: 0x3D :: e) = unquote e := by
    have hurl : (([0x75, 0x72, 0x6C] : Utf16).map lowered) = units "url" := by decide
    have hstart : ((0x75 :: 0x72 :: 0x6C :: 0x3D :: e).take 3).map lowered = units "url" := hurl
    rw [refreshReference, if_pos hstart]
    exact congrArg unquote (dropWhile_isSpace h)
  rw [htext]
  -- The time is one digit, and a semicolon stands behind it.
  have htime : ¬ ((0x3B :: 0x75 :: 0x72 :: 0x6C :: 0x3D :: e).length =
      (0x30 :: 0x3B :: 0x75 :: 0x72 :: 0x6C :: 0x3D :: e).length ∧
        (0x3B :: 0x75 :: 0x72 :: 0x6C :: 0x3D :: e).head? ≠ some 0x2E) := by
    simp
  exact (if_neg htime).trans (congrArg some hreference)

theorem unquote_eq {e : Utf16} (hdouble : 0x22 ∉ e) (hsingle : e.head? ≠ some 0x27) :
    unquote e = e := by
  rcases e with _ | ⟨u, e⟩
  · rfl
  · rw [unquote, if_neg]
    rintro (rfl | rfl)
    · exact hdouble List.mem_cons_self
    · exact hsingle rfl

theorem encodedPath_append_quote (before behind : Utf16) :
    encodedPath (before ++ 0x27 :: behind) = encodedPath before ++ 0x27 :: encodedPath behind :=
  encodedPath_append_kept (b := 0x27) (by decide) rfl rfl before behind

theorem quote_notMem_encodedPath {path : Utf16} (h : 0x27 ∉ path) : 0x27 ∉ encodedPath path :=
  notMem_encodedPath (by decide) (by decide) (by decide) h

theorem encodedPath_takeWhile (path : Utf16) :
    (encodedPath path).takeWhile (· ≠ 0x27) = encodedPath (path.takeWhile (· ≠ 0x27)) := by
  have hplain : ∀ s : Utf16, 0x27 ∉ s → s.takeWhile (· ≠ 0x27) = s := by
    intro s hs
    rw [List.takeWhile_eq_self_iff]
    intro u hu
    exact decide_eq_true fun h ↦ hs (h ▸ hu)
  induction path using @separated_induction UInt16 0x27 with
  | single path hpath => rw [hplain path hpath, hplain _ (quote_notMem_encodedPath hpath)]
  | parts before behind hbefore _ =>
    have hend : ∀ s t : Utf16, 0x27 ∉ s → (s ++ 0x27 :: t).takeWhile (· ≠ 0x27) = s := by
      intro s t hs
      have hkeep : ∀ u ∈ s, decide (u ≠ 0x27) = true := by
        intro u hu
        exact decide_eq_true fun h ↦ hs (h ▸ hu)
      rw [List.takeWhile_append_of_pos hkeep, List.takeWhile_cons_of_neg (by simp), List.append_nil]
    rw [encodedPath_append_quote, hend _ _ hbefore, hend _ _ (quote_notMem_encodedPath hbefore)]

/-- The file in the directory of a page that a refresh refers to, with this path behind `url=`. -/
def refreshedPath (path : Utf16) : Utf16 :=
  if path.head? = some 0x27 then (path.drop 1).takeWhile (· ≠ 0x27) else path

theorem unquote_encodedPath (path : Utf16) :
    unquote (encodedPath path) = encodedPath (refreshedPath path) := by
  have hdouble : 0x22 ∉ encodedPath path := notMem_of_not_isPathUnit (by decide) path
  rw [refreshedPath]
  split_ifs with hhead
  · obtain ⟨rest, rfl⟩ : ∃ rest, path = 0x27 :: rest := by
      rcases path with _ | ⟨u, rest⟩
      · exact absurd hhead nofun
      · exact ⟨rest, by rw [Option.some.inj hhead]⟩
    have happend := encodedPath_append_quote [] rest
    rw [List.nil_append] at happend
    rw [happend]
    exact encodedPath_takeWhile rest
  · refine unquote_eq hdouble fun hquote ↦ hhead ?_
    by_contra
    -- In front of the first apostrophe stands something, and it is written as something.
    have hmem : 0x27 ∈ path := by
      by_contra hnone
      exact quote_notMem_encodedPath hnone (List.mem_of_mem_head? hquote)
    obtain ⟨before, behind, rfl, hbefore⟩ := List.eq_append_cons_of_mem hmem
    rcases before with _ | ⟨u, before⟩
    · exact hhead rfl
    · have hfirst : 0x27 ∉ encodedPath (u :: before) := quote_notMem_encodedPath hbefore
      rw [encodedPath_append_quote] at hquote
      rcases hencoded : encodedPath (u :: before) with _ | ⟨v, rest⟩
      · exact encodedPath_ne_nil (List.cons_ne_nil u before) hencoded
      · rw [hencoded] at hquote hfirst
        exact hfirst (Option.some.inj hquote ▸ List.mem_cons_self)

/-- The references of a page that refers to a path. -/
theorem references_redirectViewer {title : Option Utf16} {entrypoint page : Utf16}
    (h : Paired entrypoint) (hpage : redirectViewer title entrypoint = .ok page) :
    pageReferences (ofBytes (bytes page)) =
      [encodedPath (refreshedPath entrypoint), encodedPath entrypoint] := by
  have hescaped : wellFormed (escapeHtml (encodedPath entrypoint)) =
      escapeHtml (encodedPath entrypoint) :=
    (ascii_escapeHtml (ascii_encodedPath entrypoint)).wellFormed_eq
  have hcontent : dereference (units "0;url=" ++ escapeHtml (encodedPath entrypoint)) =
      units "0;url=" ++ encodedPath entrypoint := by
    have hfixed : escapeHtml (units "0;url=") = units "0;url=" := by decide
    have happend := escapeHtml_append (units "0;url=") (encodedPath entrypoint)
    rw [hfixed] at happend
    rw [← happend, dereference_escapeHtml]
  rw [pageReferences, tags_redirectViewer h hpage, PageShape.tags, references_redirectTags,
    hescaped,
    hcontent, dereference_escapeHtml, refreshTarget_url fun u ↦ isPathUnit_of_mem,
    unquote_encodedPath]
  rfl

theorem references_fileViewer {title : Option Utf16} {file : PublicationSourceFile}
    {assetPath page : Utf16} (h : Paired assetPath)
    (hpage : fileViewer title file assetPath = .ok page) :
    ∀ reference ∈ pageReferences (ofBytes (bytes page)), reference = encodedPath assetPath := by
  obtain ⟨name, htags⟩ := tags_fileViewer h hpage
  intro reference hreference
  rw [pageReferences, htags, PageShape.tags, references_pageTags, List.flatMap_append,
    references_linkTags, dereference_encodedPath] at hreference
  rcases List.mem_append.1 hreference with hreference | hreference
  · rw [references_preview _ _ _ reference hreference, dereference_encodedPath]
  · exact List.mem_singleton.1 hreference

theorem references_videoViewer {title : Option Utf16} {video : PublicationSourceFile}
    {videoPath page : Utf16} {posterPath : Option Utf16} (h : Paired videoPath)
    (hposter : ∀ path ∈ posterPath, Paired path)
    (hpage : videoViewer title video videoPath posterPath = .ok page) :
    ∀ reference ∈ pageReferences (ofBytes (bytes page)),
      reference = encodedPath videoPath ∨ ∃ path ∈ posterPath, reference = encodedPath path := by
  intro reference hreference
  rw [pageReferences, tags_videoViewer h hposter hpage] at hreference
  rcases posterPath with _ | posterPath
  · rw [Option.isSome_none, PageShape.tags, references_pageTags, List.flatMap_append,
      references_linkTags, references_videoTags, dereference_encodedPath] at hreference
    exact .inl (by simpa using hreference)
  · rw [Option.isSome_some, PageShape.tags, references_pageTags, List.flatMap_append,
      references_linkTags, references_videoTags, dereference_encodedPath, Option.getD_some,
      Option.map_some, dereference_encodedPath] at hreference
    rcases List.mem_append.1 hreference with hreference | hreference
    · rcases List.mem_cons.1 hreference with hreference | hreference
      · exact .inl hreference
      · exact .inr ⟨posterPath, rfl, List.mem_singleton.1 hreference⟩
    · exact .inl (List.mem_singleton.1 hreference)

end RatThings.Publications
