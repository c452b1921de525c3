import RatThings.Artifacts.PublicationManifests
import RatThings.Artifacts.PublicationPlans
import RatThings.Artifacts.PublicationViewers

/-!
# Safe publications

A publication is safe when its pages carry no markup but that of their kind, refer to nothing but
files of the plan, and a plan that is not rejected yields a manifest that is accepted. This module
proves the first and the last of these for every plan, and says exactly when the second holds.

## Where a reference can lead

The page of a plan has the tags of its shape, whatever is written on it (`CarriesNoMarkup`), so its
references are those that the builder put there. They are encoded paths, and an encoded path
resolves to the path it was made from, which is one of the plan. Of the redirects, this leaves out
the ones whose entrypoint begins with an apostrophe: the reader of a `refresh` takes the apostrophe
for a quote, and the next one for its end, so the redirect may lead somewhere else for it.
`RefreshesWithin` is the condition that it does not.

`safePublication_iff` has both directions, and a site with such an entrypoint is at the end.
-/

namespace RatThings.Publications

open Concurrent Utf16 Html

section

variable (isDate : Utf16 → Bool) (localeCompare : Utf16 → Utf16 → ℤ)

/-! ## Safe pages

The three parts of safety, and the condition on the entrypoint. Each is stated about the request and
the plan that its builder makes of it. -/

/-- The shape of the page that a builder writes for a request. -/
def pageShape (spec : PublicationSpec) (files : List PublicationSourceFile) : PageShape :=
  match spec with
  | .file path _ => .file (preview (((findFile files path).map (·.blob.mediaType)).getD []))
  | .video _ poster _ => .video (poster.filter (· ≠ [])).isSome
  | .site _ _ _ => .redirect

/-- The pages of a plan, as they are read. -/
def generatedPages (planned : List PlannedPublicationFile) : List Utf16 :=
  planned.filterMap fun
    | .blob _ _ => none
    | .generated _ data _ => some (ofBytes data)

def pageFile (page : Utf16) : PlannedPublicationFile := .generated indexPath (bytes page) htmlType

/-- The tags and attributes of a page are those of its shape. -/
def CarriesNoMarkup (spec : PublicationSpec) (files : List PublicationSourceFile)
    (plan : PublicationPlan) : Prop :=
  ∀ page ∈ generatedPages plan.files, (tags page).map Tag.outline = (pageShape spec files).outline

/-- Every reference of a page is a path of the plan. -/
def LinksWithin (plan : PublicationPlan) : Prop :=
  ∀ page ∈ generatedPages plan.files, ∀ reference ∈ pageReferences page,
    ∃ path ∈ plan.files.map (·.path), resolveReference indexPath reference = some path

/-- A plan that is not rejected has an accepted manifest. -/
def ManifestAccepted (spec : PublicationSpec) (files : List PublicationSourceFile)
    (plan : PublicationPlan) : Prop :=
  validatePublicationPlan plan spec files = .ok () →
    ∀ stageBytes : Utf16 → List UInt8 → Utf16 → BlobReference,
      (∀ path data mediaType, validBlobReference (stageBytes path data mediaType) = true) →
        ∀ input : ManifestInput, input.plan = plan → input.files = stagedFiles stageBytes plan →
          validPublicationId input.publicationId = true →
            validProvenance isDate (provenanceOf input) = true →
              ∃ manifest, publicationManifest isDate localeCompare input = .ok manifest

structure SafePublication (spec : PublicationSpec) (files : List PublicationSourceFile)
    (plan : PublicationPlan) : Prop where
  markup : CarriesNoMarkup spec files plan
  links : LinksWithin plan
  manifest : ManifestAccepted isDate localeCompare spec files plan

/-- A site needs no redirect, or the path of its entrypoint does not begin with an apostrophe, or
what stands behind it up to the next one leads to a file of the site. -/
def RefreshesWithin (spec : PublicationSpec) (files : List PublicationSourceFile) : Prop :=
  match spec with
  | .site root entrypoint _ =>
    let path := entrypoint.getD indexPath
    path = indexPath ∨ path.head? ≠ some 0x27 ∨
      ∃ target, resolvePath indexPath ((path.drop 1).takeWhile (· ≠ 0x27)) = some target ∧
        (target = indexPath ∨ siteStart root ++ target ∈ files.map (·.path))
  | .file _ _ => True
  | .video _ _ _ => True

section

variable {files : List PublicationSourceFile}
  (hfiles : ∀ file ∈ files, validArtifactPath file.path = true ∧ Paired file.path)
include hfiles

theorem followed_of_mem {file : PublicationSourceFile} (h : file ∈ files) : Followed file.path :=
  ⟨(hfiles file h).2, parts_of_valid (hfiles file h).1⟩

/-- The entrypoint of a site leads to itself. -/
theorem followed_entrypoint {root : Option Utf16} {entrypoint : Utf16}
    {target : PublicationSourceFile}
    (htarget : target ∈ files) (hpath : target.path = siteStart root ++ entrypoint) :
    Followed entrypoint := by
  have hfollowed := followed_of_mem hfiles htarget
  rw [hpath, siteStart] at hfollowed
  split at hfollowed
  · rw [List.append_assoc, List.singleton_append] at hfollowed
    exact hfollowed.behind
  · exact hfollowed

theorem mem_siteFiles {root : Option Utf16} {path : Utf16} :
    path ∈ (siteFiles root files).map (·.path) ↔ siteStart root ++ path ∈ files.map (·.path) := by
  rw [siteFiles, List.map_filterMap, List.mem_filterMap, List.mem_map]
  refine exists_congr fun file ↦ and_congr_right fun hfile ↦ ?_
  constructor
  · intro hpath
    split_ifs at hpath with hsite
    · obtain ⟨rest, hrest⟩ := hsite.1
      rw [Option.map_some, PlannedPublicationFile.path, ← hrest, List.drop_left] at hpath
      rw [← hrest, Option.some.inj hpath]
    · exact absurd hpath nofun
  · intro hpath
    have hne : path ≠ [] := by
      rintro rfl
      -- A path of a file does not end in a slash, and is not empty.
      exact ((followed_entrypoint hfiles hfile hpath).2 []
        (by rw [List.splitOn_nil]; exact List.mem_singleton_self _)).1 rfl
    have hdrop : file.path.drop (siteStart root).length = path := by rw [hpath, List.drop_left]
    rw [hdrop, if_pos ⟨⟨path, hpath.symm⟩, hne⟩]
    rfl

omit hfiles in
theorem generatedPages_siteFiles (root : Option Utf16) (rest : List PlannedPublicationFile) :
    generatedPages (siteFiles root files ++ rest) = generatedPages rest := by
  have hnone : generatedPages (siteFiles root files) = [] := by
    rw [generatedPages, List.filterMap_eq_nil_iff]
    intro file hfile
    rw [siteFiles] at hfile
    obtain ⟨source, -, hsource⟩ := List.mem_filterMap.1 hfile
    split_ifs at hsource
    rw [← Option.some.inj hsource]
  rw [generatedPages, List.filterMap_append]
  rw [generatedPages] at hnone
  rw [hnone, List.nil_append, generatedPages]

omit hfiles in
theorem noPoster : ∀ path ∈ (none : Option Utf16), Paired path :=
  fun path hpath ↦ absurd hpath (Option.not_mem_none path)

omit hfiles in
theorem onePoster {poster : Utf16} (h : Paired poster) : ∀ path ∈ some poster, Paired path := by
  rintro path hpath
  rwa [← Option.some.inj hpath]

theorem carriesNoMarkup {spec : PublicationSpec} {plan : PublicationPlan}
    (h : Planned files spec plan) : CarriesNoMarkup spec files plan := by
  rcases h with ⟨hfile, hfind, hpage⟩ | ⟨hvideo, hposter, hpage⟩ |
    ⟨hvideo, hposter, himage, hpage⟩ | ⟨hentrypoint⟩ | ⟨hentrypoint, htarget, hpath, hpage⟩
  · intro page hmem
    obtain rfl : page = _ := List.mem_singleton.1 hmem
    obtain ⟨name, htags⟩ := tags_fileViewer (followed_of_mem hfiles hfile).asset.1 hpage
    rw [htags, outline_tags, pageShape, hfind]
    rfl
  · intro page hmem
    obtain rfl : page = _ := List.mem_singleton.1 hmem
    rw [tags_videoViewer (followed_of_mem hfiles hvideo).asset.1 noPoster hpage, outline_tags,
      pageShape, hposter, Option.isSome_none]
  · intro page hmem
    obtain rfl : page = _ := List.mem_singleton.1 hmem
    rw [tags_videoViewer (followed_of_mem hfiles hvideo).asset.1
      (onePoster (followed_of_mem hfiles himage).asset.1) hpage, outline_tags, pageShape, hposter]
    rfl
  · intro page hmem
    dsimp only at hmem
    rw [← List.append_nil (siteFiles _ _), generatedPages_siteFiles] at hmem
    exact absurd hmem List.not_mem_nil
  · intro page hmem
    dsimp only at hmem
    rw [generatedPages_siteFiles] at hmem
    obtain rfl : page = _ := List.mem_singleton.1 hmem
    rw [tags_redirectViewer (followed_entrypoint hfiles htarget hpath).1 hpage, outline_tags]
    rfl

omit hfiles in
theorem paired_refreshedPath {path : Utf16} (h : Paired path) : Paired (refreshedPath path) := by
  rw [refreshedPath]
  split_ifs with hhead
  · obtain ⟨rest, rfl⟩ : ∃ rest, path = 0x27 :: rest := by
      rcases path with _ | ⟨u, rest⟩
      · exact absurd hhead (fun h ↦ by contradiction)
      · exact ⟨rest, by rw [Option.some.inj hhead]⟩
    have hrest : Paired rest := ((paired_append_cons (s := []) (by decide)).1 h).2
    rw [List.drop_succ_cons, List.drop_zero]
    by_cases hmem : 0x27 ∈ rest
    · obtain ⟨before, behind, rfl, hbefore⟩ := List.eq_append_cons_of_mem hmem
      have hkeep : ∀ u ∈ before, decide (u ≠ 0x27) = true := by
        intro u hu
        exact decide_eq_true fun heq ↦ hbefore (heq ▸ hu)
      rw [List.takeWhile_append_of_pos hkeep, List.takeWhile_cons_of_neg (by simp), List.append_nil]
      exact ((paired_append_cons (by decide)).1 hrest).1
    · rwa [List.takeWhile_eq_self_iff.2]
      intro u hu
      exact decide_eq_true fun heq ↦ hmem (heq ▸ hu)
  · exact h

theorem links_redirect_iff {root entrypoint title : Option Utf16} {target : PublicationSourceFile}
    {page : Utf16} (hentrypoint : entrypoint.getD indexPath ≠ indexPath) (htarget : target ∈ files)
    (hpath : target.path = siteStart root ++ entrypoint.getD indexPath)
    (hpage : redirectViewer title (entrypoint.getD indexPath) = .ok page) :
    (∀ text ∈ generatedPages [pageFile page],
      ∀ reference ∈ pageReferences text,
        ∃ path ∈ (siteFiles root files ++ [pageFile page]).map PlannedPublicationFile.path,
          resolveReference indexPath reference = some path) ↔
      RefreshesWithin (.site root entrypoint title) files := by
  have hfollowed := followed_entrypoint hfiles htarget hpath
  have hpaths : ∀ path,
      path ∈ (siteFiles root files ++ [pageFile page]).map PlannedPublicationFile.path ↔
        siteStart root ++ path ∈ files.map (·.path) ∨ path = indexPath := by
    intro path
    rw [List.map_append, List.mem_append, mem_siteFiles hfiles, List.map_singleton,
      List.mem_singleton]
    rfl
  have hself : siteStart root ++ entrypoint.getD indexPath ∈ files.map (·.path) :=
    hpath ▸ List.mem_map_of_mem htarget
  have hpages : generatedPages [pageFile page] = [ofBytes (bytes page)] :=
    rfl
  rw [hpages, List.forall_mem_singleton, references_redirectViewer hfollowed.1 hpage,
    List.forall_mem_cons, List.forall_mem_singleton]
  have hlink : ∃ path ∈ (siteFiles root files ++
      [pageFile page]).map PlannedPublicationFile.path,
        resolveReference indexPath (encodedPath (entrypoint.getD indexPath)) = some path :=
    ⟨_, (hpaths _).2 (.inl hself), hfollowed.resolve indexPath⟩
  rw [and_iff_left hlink, resolveReference_encodedPath (paired_refreshedPath hfollowed.1),
    RefreshesWithin]
  simp only [hpaths, or_iff_right hentrypoint]
  rw [refreshedPath]
  split_ifs with hhead
  · rw [or_iff_right (not_not_intro hhead)]
    exact exists_congr fun path ↦ by rw [and_comm, or_comm]
  · exact iff_of_true ⟨_, .inl hself, resolvePath_eq indexPath hfollowed.2⟩ (.inl hhead)

/-- **The references of a plan's pages are paths of it, except for what an apostrophe hides.** -/
theorem linksWithin_iff {spec : PublicationSpec} {plan : PublicationPlan}
    (h : Planned files spec plan) : LinksWithin plan ↔ RefreshesWithin spec files := by
  rcases h with ⟨hfile, hfind, hpage⟩ | ⟨hvideo, hposter, hpage⟩ |
    ⟨hvideo, hposter, himage, hpage⟩ | ⟨hentrypoint⟩ | ⟨hentrypoint, htarget, hpath, hpage⟩
  · refine iff_of_true (fun page hmem reference hreference ↦ ?_) trivial
    obtain rfl : page = _ := List.mem_singleton.1 hmem
    have hasset := (followed_of_mem hfiles hfile).asset
    rw [references_fileViewer hasset.1 hpage reference hreference]
    exact ⟨_, by simp [PlannedPublicationFile.path], hasset.resolve indexPath⟩
  · refine iff_of_true (fun page hmem reference hreference ↦ ?_) trivial
    obtain rfl : page = _ := List.mem_singleton.1 hmem
    have hasset := (followed_of_mem hfiles hvideo).asset
    rcases references_videoViewer hasset.1 noPoster hpage reference hreference with rfl |
      ⟨path, hpath, -⟩
    · exact ⟨_, by simp [PlannedPublicationFile.path], hasset.resolve indexPath⟩
    · exact absurd hpath nofun
  · refine iff_of_true (fun page hmem reference hreference ↦ ?_) trivial
    obtain rfl : page = _ := List.mem_singleton.1 hmem
    have hasset := (followed_of_mem hfiles hvideo).asset
    have himageAsset := (followed_of_mem hfiles himage).asset
    rcases references_videoViewer hasset.1 (onePoster himageAsset.1) hpage reference hreference with
      rfl | ⟨path, hpath, rfl⟩
    · exact ⟨_, by simp [PlannedPublicationFile.path], hasset.resolve indexPath⟩
    · obtain rfl := Option.some.inj hpath
      exact ⟨_, by simp [PlannedPublicationFile.path], himageAsset.resolve indexPath⟩
  · refine iff_of_true (fun page hmem ↦ ?_) (.inl hentrypoint)
    dsimp only at hmem
    rw [← List.append_nil (siteFiles _ _), generatedPages_siteFiles] at hmem
    exact absurd hmem List.not_mem_nil
  · rw [LinksWithin]
    dsimp only
    rw [generatedPages_siteFiles]
    exact links_redirect_iff hfiles hentrypoint htarget hpath hpage

end

/-- **A publication is safe exactly if its redirect refers to a file of the site.** -/
theorem safePublication_iff {spec : PublicationSpec} {files : List PublicationSourceFile}
    {value : PublicationPlan}
    (hfiles : ∀ file ∈ files, validArtifactPath file.path = true ∧ Paired file.path)
    (hplan : plan spec files = .ok value) :
    SafePublication isDate localeCompare spec files value ↔ RefreshesWithin spec files := by
  have hplanned := planned_of_plan hplan
  -- Only the links depend on the condition; markup and manifest are safe for every plan.
  refine ⟨fun h ↦ (linksWithin_iff hfiles hplanned).1 h.links, fun h ↦
    ⟨carriesNoMarkup hfiles hplanned, (linksWithin_iff hfiles hplanned).2 h, ?_⟩⟩
  rintro hvalid stageBytes hstage input rfl hstaged hid hprovenance
  exact publicationManifest_ok isDate localeCompare hvalid hstage hstaged hid hprovenance

end

/-! ## An entrypoint with an apostrophe

A site whose entrypoint is `'a.html` has a page that leads to `a.html`, which is not one of its
files. -/

def quotedSite : PublicationSpec := .site none (some (units "'a.html")) none

def quotedFile : PublicationSourceFile where
  path := units "'a.html"
  blob :=
    { id := units "blob", digest := units "sha256:00", size := 1, mediaType := units "text/html" }

theorem valid_quotedFile :
    ∀ file ∈ [quotedFile], validArtifactPath file.path = true ∧ Paired file.path := by
  rw [List.forall_mem_singleton]
  exact ⟨by decide, .of_small (by decide)⟩

theorem plan_quotedSite : ∃ value, plan quotedSite [quotedFile] = .ok value := by
  have hpaired : Paired (units "'a.html") := (valid_quotedFile quotedFile (by simp)).2
  have hselected : siteFiles none [quotedFile] = [.blob quotedFile.path quotedFile.blob] := by
    decide
  have hfind : ¬ (findFile [quotedFile] (units "'a.html")).isNone = true := by decide
  have hentrypoint : units "'a.html" ≠ indexPath := by decide
  have hindex : quotedFile.path ≠ indexPath := by decide
  rw [plan, quotedSite, PublicationSpec.kind]
  dsimp only
  rw [sitePublicationPlan_eq, hselected, Option.getD_some, if_neg nofun]
  rw [show siteStart none ++ units "'a.html" = units "'a.html" from rfl, if_neg hfind,
    if_neg hentrypoint, redirectViewer_eq none hpaired,
    if_neg (by simp [PlannedPublicationFile.path, hindex])]
  refine ⟨_, bind_eq_ok.2 ⟨_, rfl, success_ok ?_⟩⟩
  simp [duplicatePath, PlannedPublicationFile.path, Ne.symm hindex]

theorem quoted_entrypoint_leaves : (∃ value, plan quotedSite [quotedFile] = .ok value) ∧
    (∀ file ∈ [quotedFile], validArtifactPath file.path = true ∧ Paired file.path) ∧
    ∀ value, plan quotedSite [quotedFile] = .ok value → ¬ LinksWithin value := by
  refine ⟨plan_quotedSite, valid_quotedFile, fun value hvalue hlinks ↦ ?_⟩
  have hwithin := (linksWithin_iff valid_quotedFile (planned_of_plan hvalue)).1 hlinks
  have hpath : (some (units "'a.html")).getD indexPath = units "'a.html" := rfl
  have htarget : resolvePath indexPath (((units "'a.html").drop 1).takeWhile (· ≠ 0x27)) =
      some (units "a.html") := by
    decide
  rw [quotedSite, RefreshesWithin] at hwithin
  rw [hpath, htarget] at hwithin
  rcases hwithin with hsame | hhead | ⟨target, htarget, hfile⟩
  · exact absurd hsame (by decide)
  · exact absurd hhead (by decide)
  · rw [← Option.some.inj htarget] at hfile
    exact absurd hfile (by decide)

/-- Lexicographically, by units. -/
def compareUnits (left right : Utf16) : ℤ :=
  if left < right then -1 else if left = right then 0 else 1

theorem quotedSite_safe_iff : ∃ value, plan quotedSite [quotedFile] = .ok value ∧
    (SafePublication (fun text ↦ text ≠ []) compareUnits quotedSite [quotedFile] value ↔
      RefreshesWithin quotedSite [quotedFile]) := by
  obtain ⟨value, hvalue⟩ := plan_quotedSite
  exact ⟨value, hvalue, safePublication_iff _ _ valid_quotedFile hvalue⟩

end RatThings.Publications
