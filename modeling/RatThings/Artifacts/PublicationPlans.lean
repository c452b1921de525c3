import RatThings.Artifacts.Publications

/-!
# The plans of builders

The path of a file leads to itself, and so do its last part and what stands behind a slash in it. A
builder that returns a plan returns one of five.
-/

namespace RatThings.Publications

open Concurrent Utf16 Html

/-! ## Valid paths -/

theorem parts_of_valid {path : Utf16} (h : validArtifactPath path = true) :
    ∀ part ∈ path.splitOn 0x2F, part ≠ [] ∧ part ≠ [0x2E] ∧ part ≠ [0x2E, 0x2E] := by
  have hdot : units "." = [0x2E] := by decide
  have hdots : units ".." = [0x2E, 0x2E] := by decide
  intro part hpart
  simp only [validArtifactPath, Bool.and_eq_true, decide_eq_true_eq, List.all_eq_true, hdot,
    hdots] at h
  exact and_assoc.1 (h.1.1.2 part hpart).1

/-- A path of files is one that leads to itself. -/
def Followed (path : Utf16) : Prop :=
  Paired path ∧ ∀ part ∈ path.splitOn 0x2F, part ≠ [] ∧ part ≠ [0x2E] ∧ part ≠ [0x2E, 0x2E]

theorem Followed.resolve {path : Utf16} (h : Followed path) (page : Utf16) :
    resolveReference page (encodedPath path) = some path := by
  rw [resolveReference_encodedPath h.1, resolvePath_eq page h.2]

theorem mem_splitOn_of_append {before behind part : Utf16} (h : part ∈ behind.splitOn 0x2F) :
    part ∈ (before ++ 0x2F :: behind).splitOn 0x2F := by
  induction before using @separated_induction UInt16 0x2F with
  | single before hbefore =>
    rw [List.splitOn_append_cons_self_of_not_mem hbefore]
    exact List.mem_cons_of_mem _ h
  | parts first rest hfirst ih =>
    rw [List.append_assoc, List.cons_append, List.splitOn_append_cons_self_of_not_mem hfirst]
    exact List.mem_cons_of_mem _ ih

/-- What stands behind a slash in a path. -/
theorem Followed.behind {before behind : Utf16} (h : Followed (before ++ 0x2F :: behind)) :
    Followed behind :=
  ⟨((paired_append_cons (by decide)).1 h.1).2,
    fun part hpart ↦ h.2 part (mem_splitOn_of_append hpart)⟩

theorem Followed.basename {path : Utf16} (h : Followed path) :
    Followed (basename path) ∧ 0x2F ∉ basename path := by
  have hlast : path.rdropWhile (· = 0x2F) = path := by
    rw [List.rdropWhile_eq_self_iff]
    intro hne hslash
    -- Behind a slash at the end is an empty part.
    have hpath : path = path.dropLast ++ 0x2F :: [] := by
      conv_lhs => rw [← List.dropLast_append_getLast hne, of_decide_eq_true hslash]
    have hempty : [] ∈ path.splitOn 0x2F := by
      rw [hpath]
      exact mem_splitOn_of_append (by rw [List.splitOn_nil]; exact List.mem_singleton_self _)
    exact (h.2 [] hempty).1 rfl
  have hmem : Publications.basename path ∈ path.splitOn 0x2F := by
    rw [Publications.basename, hlast, List.getLastD_eq_getLast?,
      List.getLast?_eq_some_getLast (List.splitOn_ne_nil _ _), Option.getD_some]
    exact List.getLast_mem _
  have hslash : 0x2F ∉ Publications.basename path := notMem_of_mem_splitOn hmem
  refine ⟨⟨paired_of_mem_splitOn h.1 hmem, fun part hpart ↦ ?_⟩, hslash⟩
  rw [List.splitOn_eq_singleton hslash] at hpart
  rw [List.mem_singleton.1 hpart]
  exact h.2 _ hmem

theorem Followed.asset {path : Utf16} (h : Followed path) :
    Followed (units "assets/" ++ Publications.basename path) := by
  have hassets : units "assets/" = units "assets" ++ [0x2F] := by decide
  have hdirectory : 0x2F ∉ units "assets" := notMem_units _ _ rfl
  obtain ⟨⟨hpaired, hparts⟩, hslash⟩ := h.basename
  refine ⟨Paired.append (.of_small (by decide)) hpaired, fun part hpart ↦ ?_⟩
  rw [hassets, List.append_assoc, List.singleton_append,
    List.splitOn_append_cons_self_of_not_mem hdirectory] at hpart
  rcases List.mem_cons.1 hpart with rfl | hpart
  · decide
  · exact hparts part hpart

/-! ## Plans -/

theorem success_eq_ok {value plan : PublicationPlan} (h : success value = .ok plan) :
    plan = value ∧ duplicatePath [] value.files = none := by
  rw [success] at h
  rcases hduplicate : duplicatePath [] value.files with _ | path
  · rw [hduplicate] at h
    exact ⟨(Except.ok.inj h).symm, rfl⟩
  · rw [hduplicate] at h
    exact nomatch h

theorem success_ok {value : PublicationPlan} (h : duplicatePath [] value.files = none) :
    success value = .ok value := by
  rw [success, h]

theorem mem_of_findFile {files : List PublicationSourceFile} {path : Utf16}
    {file : PublicationSourceFile} (h : findFile files path = some file) :
    file ∈ files ∧ file.path = path := by
  have hpath := List.find?_some h
  exact ⟨List.mem_of_find?_eq_some h, of_decide_eq_true hpath⟩

/-- The directory of a site, in front of its paths. -/
def siteStart (root : Option Utf16) : Utf16 :=
  match root.filter (· ≠ []) with
  | some root => root ++ [0x2F]
  | none => []

/-- The files of a site. -/
def siteFiles (root : Option Utf16) (files : List PublicationSourceFile) :
    List PlannedPublicationFile :=
  files.filterMap fun file ↦
    if siteStart root <+: file.path ∧ file.path.drop (siteStart root).length ≠ [] then
      some (.blob (file.path.drop (siteStart root).length) file.blob)
    else none

/-- The plans that builders return. -/
inductive Planned (files : List PublicationSourceFile) : PublicationSpec → PublicationPlan → Prop
  | file {title : Option Utf16} {file : PublicationSourceFile} {page : Utf16} (hfile : file ∈ files)
    (hfind : findFile files file.path = some file)
    (hpage : fileViewer title file (units "assets/" ++ basename file.path) = .ok page) :
    Planned files (.file file.path title)
      { kind := .file
        entrypoint := indexPath
        primaryPath := some (units "assets/" ++ basename file.path)
        files := [.generated indexPath (bytes page) htmlType,
          .blob (units "assets/" ++ basename file.path) file.blob] }
  | video {title poster : Option Utf16} {video : PublicationSourceFile} {page : Utf16}
    (hvideo : video ∈ files) (hposter : poster.filter (· ≠ []) = none)
    (hpage : videoViewer title video (units "assets/" ++ basename video.path) none = .ok page) :
    Planned files (.video video.path poster title)
      { kind := .video
        entrypoint := indexPath
        primaryPath := some (units "assets/" ++ basename video.path)
        files := [.generated indexPath (bytes page) htmlType,
          .blob (units "assets/" ++ basename video.path) video.blob] }
  | poster {title poster : Option Utf16} {video image : PublicationSourceFile} {page : Utf16}
    (hvideo : video ∈ files) (hposter : poster.filter (· ≠ []) = some image.path)
    (himage : image ∈ files)
    (hpage : videoViewer title video (units "assets/" ++ basename video.path)
      (some (units "assets/" ++ basename image.path)) = .ok page) :
    Planned files (.video video.path poster title)
      { kind := .video
        entrypoint := indexPath
        primaryPath := some (units "assets/" ++ basename video.path)
        files := [.generated indexPath (bytes page) htmlType,
          .blob (units "assets/" ++ basename video.path) video.blob,
          .blob (units "assets/" ++ basename image.path) image.blob] }
  | site {root entrypoint title : Option Utf16}
    (hentrypoint : entrypoint.getD indexPath = indexPath) :
    Planned files (.site root entrypoint title)
      { kind := .site
        entrypoint := indexPath
        primaryPath := none
        files := siteFiles root files }
  | redirect {root entrypoint title : Option Utf16} {target : PublicationSourceFile} {page : Utf16}
    (hentrypoint : entrypoint.getD indexPath ≠ indexPath) (htarget : target ∈ files)
    (hpath : target.path = siteStart root ++ entrypoint.getD indexPath)
    (hpage : redirectViewer title (entrypoint.getD indexPath) = .ok page) :
    Planned files (.site root entrypoint title)
      { kind := .site
        entrypoint := indexPath
        primaryPath := none
        files := siteFiles root files ++ [.generated indexPath (bytes page) htmlType] }

theorem planned_of_file {spec : PublicationSpec} {files : List PublicationSourceFile}
    {plan : PublicationPlan} (h : filePublicationPlan spec files = .ok plan) :
    Planned files spec plan := by
  rcases spec with ⟨path, title⟩ | ⟨root, entrypoint, title⟩ | ⟨path, poster, title⟩
  · simp only [filePublicationPlan] at h
    rcases hfind : findFile files path with _ | file
    · rw [hfind] at h
      exact nomatch h
    · rw [hfind] at h
      obtain ⟨page, hpage, hsuccess⟩ := bind_eq_ok.1 h
      obtain ⟨hmem, rfl⟩ := mem_of_findFile hfind
      rw [(success_eq_ok hsuccess).1]
      exact .file hmem hfind hpage
  · exact nomatch h
  · exact nomatch h

theorem planned_of_video {spec : PublicationSpec} {files : List PublicationSourceFile}
    {plan : PublicationPlan} (h : videoPublicationPlan spec files = .ok plan) :
    Planned files spec plan := by
  rcases spec with ⟨path, title⟩ | ⟨root, entrypoint, title⟩ | ⟨path, poster, title⟩
  · exact nomatch h
  · exact nomatch h
  · simp only [videoPublicationPlan] at h
    rcases hfind : findFile files path with _ | video
    · rw [hfind] at h
      exact nomatch h
    rw [hfind] at h
    obtain ⟨hvideo, rfl⟩ := mem_of_findFile hfind
    dsimp only at h
    have htype : units "video/" <+: video.blob.mediaType := by
      by_contra hno
      rw [if_pos hno] at h
      exact nomatch h
    rw [if_neg (not_not_intro htype)] at h
    rcases hposter : poster.filter (· ≠ []) with _ | posterPath
    · rw [hposter] at h
      obtain ⟨page, hpage, hsuccess⟩ := bind_eq_ok.1 h
      rw [(success_eq_ok hsuccess).1]
      exact .video hvideo hposter hpage
    rw [hposter, Option.bind_some] at h
    rcases himage : findFile files posterPath with _ | image
    · rw [himage] at h
      exact nomatch h
    rw [himage] at h
    obtain ⟨hmem, rfl⟩ := mem_of_findFile himage
    dsimp only at h
    have himageType : units "image/" <+: image.blob.mediaType := by
      by_contra hno
      rw [if_pos hno] at h
      exact nomatch h
    rw [if_neg (not_not_intro himageType)] at h
    have hdifferent : units "assets/" ++ basename image.path ≠
        units "assets/" ++ basename video.path := by
      intro hsame
      rw [if_pos hsame] at h
      exact nomatch h
    rw [if_neg hdifferent] at h
    obtain ⟨page, hpage, hsuccess⟩ := bind_eq_ok.1 h
    rw [(success_eq_ok hsuccess).1]
    exact .poster hvideo hposter hmem hpage

theorem sitePublicationPlan_eq (root entrypoint title : Option Utf16)
    (files : List PublicationSourceFile) :
    sitePublicationPlan (.site root entrypoint title) files =
      (if siteFiles root files = [] then missing (root.getD indexPath)
      else if (findFile files (siteStart root ++ entrypoint.getD indexPath)).isNone then
        missing (siteStart root ++ entrypoint.getD indexPath)
      else if entrypoint.getD indexPath = indexPath then
        success { kind := .site, entrypoint := indexPath, primaryPath := none,
                  files := siteFiles root files }
      else if (siteFiles root files).any (·.path = indexPath) then
        failure .pathCollision
          (units "site already has index.html but declares another entrypoint")
          (some (siteStart root ++ entrypoint.getD indexPath))
      else do
        let page ← redirectViewer title (entrypoint.getD indexPath)
        success
          { kind := .site
            entrypoint := indexPath
            primaryPath := none
            files := siteFiles root files ++ [.generated indexPath (bytes page) htmlType] }) :=
  rfl

theorem planned_of_site {spec : PublicationSpec} {files : List PublicationSourceFile}
    {plan : PublicationPlan} (h : sitePublicationPlan spec files = .ok plan) :
    Planned files spec plan := by
  rcases spec with ⟨path, title⟩ | ⟨root, entrypoint, title⟩ | ⟨path, poster, title⟩
  · exact nomatch h
  · rw [sitePublicationPlan_eq] at h
    split_ifs at h with hempty hfind hentrypoint hindex
    · exact nomatch h
    · exact nomatch h
    · rw [(success_eq_ok h).1]
      exact .site hentrypoint
    · exact nomatch h
    · obtain ⟨page, hpage, hsuccess⟩ := bind_eq_ok.1 h
      obtain ⟨target, htarget⟩ := Option.ne_none_iff_exists'.1 fun hnone ↦
        hfind (Option.isNone_iff_eq_none.2 hnone)
      obtain ⟨hmem, hpath⟩ := mem_of_findFile htarget
      rw [(success_eq_ok hsuccess).1]
      exact .redirect hentrypoint hmem hpath hpage
  · exact nomatch h

theorem planned_of_plan {spec : PublicationSpec} {files : List PublicationSourceFile}
    {value : PublicationPlan} (h : plan spec files = .ok value) : Planned files spec value := by
  rcases spec with ⟨path, title⟩ | ⟨root, entrypoint, title⟩ | ⟨path, poster, title⟩
  · exact planned_of_file h
  · exact planned_of_site h
  · exact planned_of_video h

end RatThings.Publications
