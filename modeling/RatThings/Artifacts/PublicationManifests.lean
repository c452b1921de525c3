import RatThings.Artifacts.Publications

/-!
# Manifests of publications

The files of a plan that was validated, staged and sorted, pass the validation of a manifest.
-/

namespace RatThings.Publications

open Concurrent Utf16 Html

/-- A check in front of what follows. -/
theorem check_eq_ok {α β : Type} {c : Prop} [Decidable c] {code : PublicationErrorCode}
    {message : Utf16} {f : α → Except PublicationError β} {rest : Except PublicationError β}
    {b : β} :
    (if c then invalid code message >>= f else rest) = .ok b ↔ ¬ c ∧ rest = .ok b := by
  by_cases h : c
  · rw [if_pos h]
    exact ⟨nofun, fun hnot ↦ absurd h hnot.1⟩
  · rw [if_neg h]
    exact ⟨fun hrest ↦ ⟨h, hrest⟩, fun hrest ↦ hrest.2⟩

theorem check_last_eq_ok {c : Prop} [Decidable c] {code : PublicationErrorCode} {message : Utf16} :
    (if c then invalid code message else pure ()) = .ok () ↔ ¬ c := by
  by_cases h : c
  · rw [if_pos h]
    exact ⟨nofun, fun hnot ↦ absurd h hnot⟩
  · rw [if_neg h]
    exact ⟨fun _ ↦ h, fun _ ↦ rfl⟩

theorem validateBlobReference_eq_ok {blob : BlobReference} :
    validateBlobReference blob = .ok () ↔ validBlobReference blob = true := by
  rw [validateBlobReference]
  split_ifs with h
  · exact ⟨fun _ ↦ h, fun _ ↦ rfl⟩
  · exact ⟨nofun, fun hvalid ↦ absurd hvalid h⟩

theorem validatePlannedFile_eq_ok {sourceBlobs paths : List Utf16} {file : PlannedPublicationFile}
    (h : validatePlannedFile sourceBlobs paths file = .ok ()) :
    validArtifactPath file.path = true ∧ file.path ∉ paths ∧
      ∀ path blob, file = .blob path blob → validBlobReference blob = true := by
  rw [validatePlannedFile.eq_def] at h
  dsimp only at h
  obtain ⟨hvalid, h⟩ := check_eq_ok.1 h
  obtain ⟨-, h⟩ := check_eq_ok.1 h
  obtain ⟨hnew, h⟩ := check_eq_ok.1 h
  refine ⟨not_not.1 hvalid, hnew, ?_⟩
  rintro path blob rfl
  obtain ⟨_, hblob, -⟩ := bind_eq_ok.1 h
  exact validateBlobReference_eq_ok.1 hblob

theorem validatePlannedFiles_eq_ok {sourceBlobs paths : List Utf16}
    {files : List PlannedPublicationFile}
    (h : validatePlannedFiles sourceBlobs paths files = .ok ()) :
    (∀ file ∈ files, validArtifactPath file.path = true ∧ file.path ∉ paths ∧
      ∀ path blob, file = .blob path blob → validBlobReference blob = true) ∧
      (files.map (·.path)).Nodup := by
  induction files generalizing paths with
  | nil => exact ⟨fun _ ↦ nofun, List.nodup_nil⟩
  | cons file files ih =>
    rw [validatePlannedFiles] at h
    obtain ⟨_, hfile, hrest⟩ := bind_eq_ok.1 h
    obtain ⟨hall, hdistinct⟩ := ih hrest
    refine ⟨List.forall_mem_cons.2 ⟨validatePlannedFile_eq_ok hfile, fun other hother ↦ ?_⟩, ?_⟩
    · obtain ⟨hvalid, hnew, hblob⟩ := hall other hother
      exact ⟨hvalid, fun hmem ↦ hnew (List.mem_cons_of_mem _ hmem), hblob⟩
    · rw [List.map_cons, List.nodup_cons]
      refine ⟨fun hmem ↦ ?_, hdistinct⟩
      obtain ⟨other, hother, hsame⟩ := List.mem_map.1 hmem
      exact (hall other hother).2.1 (hsame ▸ List.mem_cons_self)

/-- A list of files with valid paths, valid references and no path twice is accepted. -/
theorem validateManifestFiles_ok {paths : List Utf16} {files : List PublicationFile}
    (hvalid : ∀ file ∈ files, validArtifactPath file.path = true ∧ file.path ∉ paths ∧
      validBlobReference file.blob = true) (hdistinct : (files.map (·.path)).Nodup) :
    validateManifestFiles paths files = .ok () := by
  induction files generalizing paths with
  | nil => rfl
  | cons file files ih =>
    obtain ⟨⟨hpath, hnew, hblob⟩, hall⟩ := List.forall_mem_cons.1 hvalid
    rw [List.map_cons, List.nodup_cons] at hdistinct
    rw [validateManifestFiles]
    refine check_eq_ok.2 ⟨not_not_intro hpath, check_eq_ok.2 ⟨hnew, ?_⟩⟩
    rw [validateBlobReference_eq_ok.2 hblob]
    refine ih (fun other hother ↦ ?_) hdistinct.2
    obtain ⟨hpath', hnew', hblob'⟩ := hall other hother
    refine ⟨hpath', fun hmem ↦ ?_, hblob'⟩
    rcases List.mem_cons.1 hmem with hsame | hmem
    · exact hdistinct.1 (hsame ▸ List.mem_map_of_mem hother)
    · exact hnew' hmem

/-- The files of a plan after they have been staged. -/
def stagedFiles (stageBytes : Utf16 → List UInt8 → Utf16 → BlobReference) (plan : PublicationPlan) :
    List PublicationFile :=
  plan.files.map fun
    | .blob path blob => ⟨path, blob⟩
    | .generated path data mediaType => ⟨path, stageBytes path data mediaType⟩

theorem paths_stagedFiles (stageBytes : Utf16 → List UInt8 → Utf16 → BlobReference)
    (plan : PublicationPlan) :
    (stagedFiles stageBytes plan).map (·.path) = plan.files.map (·.path) := by
  rw [stagedFiles, List.map_map]
  refine List.map_congr_left fun file _ ↦ ?_
  rcases file with ⟨path, blob⟩ | ⟨path, data, mediaType⟩
  · rfl
  · rfl

theorem staged_valid {stageBytes : Utf16 → List UInt8 → Utf16 → BlobReference}
    {plan : PublicationPlan}
    (hplanned : ∀ file ∈ plan.files, validArtifactPath file.path = true ∧
      file.path ∉ ([] : List Utf16) ∧
        ∀ path blob, file = .blob path blob → validBlobReference blob = true)
    (hstage : ∀ path data mediaType, validBlobReference (stageBytes path data mediaType) = true) :
    ∀ file ∈ stagedFiles stageBytes plan, validArtifactPath file.path = true ∧
      file.path ∉ ([] : List Utf16) ∧ validBlobReference file.blob = true := by
  intro file hfile
  obtain ⟨planned, hmem, rfl⟩ := List.mem_map.1 hfile
  obtain ⟨hvalid, -, hblob⟩ := hplanned planned hmem
  rcases planned with ⟨path, blob⟩ | ⟨path, data, mediaType⟩
  · exact ⟨hvalid, List.not_mem_nil, hblob path blob rfl⟩
  · exact ⟨hvalid, List.not_mem_nil, hstage path data mediaType⟩

section

variable (isDate : Utf16 → Bool) (localeCompare : Utf16 → Utf16 → ℤ)

theorem publicationManifest_ok {input : ManifestInput} {spec : PublicationSpec}
    {sources : List PublicationSourceFile}
    {stageBytes : Utf16 → List UInt8 → Utf16 → BlobReference}
    (hplan : validatePublicationPlan input.plan spec sources = .ok ())
    (hstage : ∀ path data mediaType, validBlobReference (stageBytes path data mediaType) = true)
    (hfiles : input.files = stagedFiles stageBytes input.plan)
    (hid : validPublicationId input.publicationId = true)
    (hprovenance : validProvenance isDate (provenanceOf input) = true) :
    ∃ manifest, publicationManifest isDate localeCompare input = .ok manifest := by
  rw [validatePublicationPlan] at hplan
  dsimp only at hplan
  obtain ⟨hshape, hplan⟩ := check_eq_ok.1 hplan
  obtain ⟨hcount, hplan⟩ := check_eq_ok.1 hplan
  obtain ⟨_, hplanned, hplan⟩ := bind_eq_ok.1 hplan
  obtain ⟨hentrypoint, hplan⟩ := check_eq_ok.1 hplan
  have hprimary := check_last_eq_ok.1 hplan
  obtain ⟨hall, hdistinct⟩ := validatePlannedFiles_eq_ok hplanned
  -- The files are sorted before they are checked again.
  have hperm := List.mergeSort_perm input.files fun left right ↦
    decide (localeCompare left.path right.path ≤ 0)
  have hpaths := hperm.map (·.path)
  rw [hfiles, paths_stagedFiles] at hpaths
  rw [hfiles] at hperm
  have hvalid := staged_valid hall hstage
  have hlength : (stagedFiles stageBytes input.plan).length = input.plan.files.length := by
    rw [stagedFiles, List.length_map]
  simp only [not_or, not_not] at hshape
  obtain ⟨-, hindex, hne⟩ := hshape
  refine ⟨_, bind_eq_ok.2 ⟨(), ?_, rfl⟩⟩
  rw [validatePublicationManifest]
  dsimp only
  rw [hfiles]
  refine check_eq_ok.2 ⟨not_not_intro hid, check_eq_ok.2 ⟨?_, bind_eq_ok.2 ⟨(), ?_,
    check_eq_ok.2 ⟨?_, check_eq_ok.2 ⟨?_, check_last_eq_ok.2 (not_not_intro hprovenance)⟩⟩⟩⟩⟩
  · rintro (hindex' | hnil | hmany)
    · exact hindex' hindex
    · rw [hnil] at hperm
      have hlength' := hperm.length_eq
      rw [hlength, List.length_nil] at hlength'
      exact hne (List.eq_nil_of_length_eq_zero hlength'.symm)
    · rw [hperm.length_eq, hlength] at hmany
      exact hcount hmany
  · exact validateManifestFiles_ok (fun file hfile ↦ hvalid file (hperm.mem_iff.1 hfile))
      (hpaths.nodup_iff.2 hdistinct)
  · exact fun hmissing ↦ hentrypoint fun hmem ↦ hmissing (hpaths.mem_iff.2 hmem)
  · intro hmissing
    obtain ⟨path, hpath, hnone⟩ := (Option.any_eq_true _ _).1 hmissing
    refine hprimary ((Option.any_eq_true _ _).2 ⟨path, (Option.filter_eq_some_iff.1 hpath).1, ?_⟩)
    exact decide_eq_true fun hmem ↦ of_decide_eq_true hnone (hpaths.mem_iff.2 hmem)

end

end RatThings.Publications
