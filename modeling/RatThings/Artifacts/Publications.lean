import RatThings.Library.Fallible
import RatThings.Library.Html
import RatThings.Library.UrlPaths
import Mathlib.Data.List.DropRight

/-!
# Plans of publications

A publication is a file with a viewer page, a video with a player page, or a site. Its builder
selects source files and writes the page; the plan is validated, the planned files are staged, and
the manifest of the staged files is validated again.

The texts are sequences of UTF-16 units, as JavaScript has them, since lengths are counted in units
and `encodeURIComponent` throws for a surrogate that is alone. A page is built by appending texts,
in the order of the template literals of the source. Both validations go through the files one after
the other with the paths they have seen, so that the error is that of the first file at fault.
-/

namespace RatThings.Publications

open Concurrent Utf16 Html

/-! ## Paths -/

def MAX_ARTIFACT_FILES : ℕ := 5000

def MAX_ARTIFACT_PATH_BYTES : ℕ := 512

/-- `validateArtifactPath` accepts the path. -/
def validArtifactPath (path : Utf16) : Bool :=
  path ≠ [] && path.head? ≠ some 0x2F && 0x5C ∉ path &&
    ((path.splitOn 0x2F).all fun part ↦
      part ≠ [] && part ≠ units "." && part ≠ units ".." && (bytes part).length ≤ 255) &&
    (bytes path).length ≤ MAX_ARTIFACT_PATH_BYTES &&
    path.all fun u ↦ 0x1F < u && u ≠ 0x7F

/-- `basename` of a path with `/`: the part before slashes at the end. -/
def basename (path : Utf16) : Utf16 :=
  ((path.rdropWhile (· = 0x2F)).splitOn 0x2F).getLastD []

/-! ## Sources, requests and plans -/

structure BlobReference where
  id : Utf16
  digest : Utf16
  size : ℤ
  mediaType : Utf16
deriving DecidableEq

structure PublicationSourceFile where
  path : Utf16
  blob : BlobReference
deriving DecidableEq

inductive PublicationKind : Type
  | file
  | site
  | video
deriving DecidableEq

inductive PublicationSpec : Type
  | file (path : Utf16) (title : Option Utf16)
  | site (root entrypoint title : Option Utf16)
  | video (path : Utf16) (poster title : Option Utf16)
deriving DecidableEq

def PublicationSpec.kind : PublicationSpec → PublicationKind
  | file _ _ => .file
  | site _ _ _ => .site
  | video _ _ _ => .video

inductive PlannedPublicationFile : Type
  | blob (path : Utf16) (blob : BlobReference)
  | generated (path : Utf16) (bytes : List UInt8) (mediaType : Utf16)
deriving DecidableEq

def PlannedPublicationFile.path : PlannedPublicationFile → Utf16
  | blob path _ => path
  | generated path _ _ => path

structure PublicationPlan where
  kind : PublicationKind
  entrypoint : Utf16
  primaryPath : Option Utf16
  files : List PlannedPublicationFile
deriving DecidableEq

inductive PublicationErrorCode : Type
  | invalidRequest
  | invalidPath
  | notFound
  | pathCollision
  | unsupportedMedia
deriving DecidableEq

/-- A diagnostic of a builder, or an error that it throws. -/
inductive BuildFailure : Type
  | diagnostic (code : PublicationErrorCode) (message : Utf16) (path : Option Utf16)
  | thrown (message : String)
deriving DecidableEq

/-! ## Pages -/

def escapeUnit (u : UInt16) : Utf16 :=
  if u = 0x26 then units "&amp;"
  else if u = 0x3C then units "&lt;"
  else if u = 0x3E then units "&gt;"
  else if u = 0x22 then units "&quot;"
  else if u = 0x27 then units "&#39;"
  else [u]

def escapeHtml (value : Utf16) : Utf16 := value.flatMap escapeUnit

def encodePath (path : Utf16) : Except BuildFailure Utf16 :=
  ((path.splitOn 0x2F).mapM encodeURIComponent).mapError BuildFailure.thrown |>.map
    (List.intercalate [0x2F])

def publicationAssetAuthorizationScript : Utf16 :=
  units "(()=>\x7bconst names=['Policy','Signature'," ++ units "'Key-Pair-Id'];" ++
    units "const source=new URLSearchParams(" ++ units "location.search);" ++
    units "const auth=new URLSearchParams();for(" ++
    units "const name of names)\x7bconst value=source.get(" ++
    units "name);if(value)auth.set(name,value)\x7d" ++
    units "const resolve=(path)=>\x7bconst url=new URL(" ++ units "path,location.href);" ++
    units "url.search=auth.toString();" ++ units "return url.toString()\x7d;for(" ++
    units "const element of document.querySelectorAll(" ++ units "'[data-publication-src]'))" ++
    units "element.src=resolve(" ++ units "element.dataset.publicationSrc);for(" ++
    units "const element of document.querySelectorAll(" ++ units "'[data-publication-href]'))" ++
    units "element.href=resolve(" ++ units "element.dataset.publicationHref);for(" ++
    units "const element of document.querySelectorAll(" ++ units "'[data-publication-poster]'))" ++
    units "element.poster=resolve(" ++ units "element.dataset.publicationPoster);\x7d)();"

def pageStyle : Utf16 :=
  units ":root\x7bcolor-scheme:dark\x7d*\x7b" ++
    units "box-sizing:border-box\x7dbody\x7bmargin:0;" ++
    units "min-height:100vh;background:#101014;" ++ units "color:#f5f5f7;font:16px system-ui," ++
    units "sans-serif;display:grid;place-items:center\x7d" ++
    units "main\x7bwidth:min(1120px,100%);padding:24px;" ++
    units "display:grid;gap:20px;text-align:center\x7dh1\x7b" ++
    units "font-size:clamp(1.2rem,3vw,2rem);margin:0;" ++
    units "overflow-wrap:anywhere\x7dimg,video,iframe\x7b" ++
    units "display:block;max-width:100%;" ++ units "max-height:78vh;margin:auto;border:0;" ++
    units "border-radius:12px;background:#08080a\x7d" ++
    units "iframe\x7bwidth:100%;height:78vh\x7daudio\x7b" ++
    units "width:min(720px,100%);margin:auto\x7d.download\x7b" ++ units "color:#9dccff\x7d"

/-- The text of a page with this title and body. -/
def htmlDocument (title body : Utf16) : Utf16 :=
  units "<!doctype html><html lang=\"en\"><head><meta charset=\"utf-8\">" ++
    units "<meta name=\"viewport\" content=\"width=device-width,initial-scale=1\"><title>" ++
    escapeHtml title ++ units "</title><style>" ++ pageStyle ++
    units "</style></head><body><main><h1>" ++ escapeHtml title ++ units "</h1>" ++ body ++
    units "</main><script>" ++ publicationAssetAuthorizationScript ++
    units "</script></body></html>"

/-- The link that is on every page with a file. -/
def downloadLink (href name : Utf16) : Utf16 :=
  units "<a class=\"download\" data-publication-href=\"" ++ href ++ units "\" download>Download " ++
    escapeHtml name ++ units "</a>"

def fileViewer (title : Option Utf16) (file : PublicationSourceFile) (assetPath : Utf16) :
    Except BuildFailure Utf16 := do
  let name := title.getD (basename file.path)
  let href ← encodePath assetPath
  let preview := downloadLink href (basename file.path)
  let preview :=
    if units "image/" <+: file.blob.mediaType then
      units "<img data-publication-src=\"" ++ href ++ units "\" alt=\"" ++ escapeHtml name ++
        units "\">" ++ preview
    else if units "audio/" <+: file.blob.mediaType then
      units "<audio data-publication-src=\"" ++ href ++
        units "\" controls preload=\"metadata\"></audio>" ++ preview
    else if file.blob.mediaType = units "application/pdf" then
      units "<iframe data-publication-src=\"" ++ href ++ units "\" title=\"" ++ escapeHtml name ++
        units "\"></iframe>" ++ preview
    else preview
  pure (htmlDocument name preview)

def videoViewer (title : Option Utf16) (video : PublicationSourceFile) (videoPath : Utf16)
    (posterPath : Option Utf16) : Except BuildFailure Utf16 := do
  let name := title.getD (basename video.path)
  let poster ← match posterPath with
    | some path => do
      let href ← encodePath path
      pure (units " data-publication-poster=\"" ++ href ++ units "\"")
    | none => pure []
  let href ← encodePath videoPath
  pure (htmlDocument name (units "<video data-publication-src=\"" ++ href ++ units "\"" ++ poster ++
    units " controls playsinline preload=\"metadata\"></video>" ++
    downloadLink href (basename video.path)))

def redirectViewer (title : Option Utf16) (entrypoint : Utf16) : Except BuildFailure Utf16 := do
  let href ← encodePath entrypoint
  let name := title.getD (units "Published site")
  pure (units "<!doctype html><html lang=\"en\"><head><meta charset=\"utf-8\">" ++
    units "<meta http-equiv=\"refresh\" content=\"0;url=" ++ escapeHtml href ++ units "\">" ++
    units "<meta name=\"viewport\" content=\"width=device-width,initial-scale=1\"><title>" ++
    escapeHtml name ++ units "</title></head><body><a href=\"" ++ escapeHtml href ++
    units "\">Open " ++ escapeHtml name ++ units "</a></body></html>")

/-! ## Builders -/

def failure {α : Type} (code : PublicationErrorCode) (message : Utf16) (path : Option Utf16) :
    Except BuildFailure α :=
  .error (.diagnostic code message (path.filter (· ≠ [])))

def missing {α : Type} (path : Utf16) : Except BuildFailure α :=
  failure .notFound (units "publication source " ++ path ++ units " was not found") (some path)

def PublicationKind.name : PublicationKind → String
  | file => "file"
  | site => "site"
  | video => "video"

def mismatch {α : Type} (expected actual : PublicationKind) : Except BuildFailure α :=
  failure .invalidRequest (units (expected.name ++ " builder cannot publish " ++ actual.name)) none

/-- The first path that is there again. -/
def duplicatePath : List Utf16 → List PlannedPublicationFile → Option Utf16
  | _, [] => none
  | paths, file :: files =>
    if file.path ∈ paths then some file.path else duplicatePath (file.path :: paths) files

def success (value : PublicationPlan) : Except BuildFailure PublicationPlan :=
  match duplicatePath [] value.files with
  | some path => failure .pathCollision (units "duplicate publication path " ++ path) (some path)
  | none => .ok value

def findFile (files : List PublicationSourceFile) (path : Utf16) : Option PublicationSourceFile :=
  files.find? (·.path = path)

def htmlType : Utf16 := units "text/html; charset=utf-8"

def indexPath : Utf16 := units "index.html"

def filePublicationPlan (spec : PublicationSpec) (files : List PublicationSourceFile) :
    Except BuildFailure PublicationPlan :=
  match spec with
  | .file path title =>
    match findFile files path with
    | none => missing path
    | some file => do
      let assetPath := units "assets/" ++ basename file.path
      let page ← fileViewer title file assetPath
      success
        { kind := .file
          entrypoint := indexPath
          primaryPath := some assetPath
          files := [.generated indexPath (bytes page) htmlType, .blob assetPath file.blob] }
  | spec => mismatch .file spec.kind

def videoPublicationPlan (spec : PublicationSpec) (files : List PublicationSourceFile) :
    Except BuildFailure PublicationPlan :=
  match spec with
  | .video path poster title =>
    match findFile files path with
    | none => missing path
    | some video =>
      if ¬ units "video/" <+: video.blob.mediaType then
        failure .unsupportedMedia (path ++ units " is not a supported video") (some path)
      else do
        let videoPath := units "assets/" ++ basename video.path
        -- An empty poster is none.
        let posterFile := (poster.filter (· ≠ [])).bind (findFile files)
        match poster.filter (· ≠ []), posterFile with
        | some poster, none => missing poster
        | some poster, some file =>
          if ¬ units "image/" <+: file.blob.mediaType then
            failure .unsupportedMedia (poster ++ units " is not a supported poster image")
              (some poster)
          else
            let posterPath := units "assets/" ++ basename file.path
            if posterPath = videoPath then
              failure .pathCollision
                (units "video and poster resolve to the same publication path") (some video.path)
            else do
              let page ← videoViewer title video videoPath (some posterPath)
              success
                { kind := .video
                  entrypoint := indexPath
                  primaryPath := some videoPath
                  files := [.generated indexPath (bytes page) htmlType,
                    .blob videoPath video.blob, .blob posterPath file.blob] }
        | none, _ => do
          let page ← videoViewer title video videoPath none
          success
            { kind := .video
              entrypoint := indexPath
              primaryPath := some videoPath
              files := [.generated indexPath (bytes page) htmlType, .blob videoPath video.blob] }
  | spec => mismatch .video spec.kind

def sitePublicationPlan (spec : PublicationSpec) (files : List PublicationSourceFile) :
    Except BuildFailure PublicationPlan :=
  match spec with
  | .site root entrypoint title =>
    let start := match root.filter (· ≠ []) with
      | some root => root ++ [0x2F]
      | none => []
    let selected := files.filterMap fun file ↦
      if start <+: file.path ∧ file.path.drop start.length ≠ [] then
        some (.blob (file.path.drop start.length) file.blob)
      else none
    if selected = [] then missing (root.getD indexPath)
    else
      let entrypoint := entrypoint.getD indexPath
      let sourceEntrypoint := start ++ entrypoint
      if (findFile files sourceEntrypoint).isNone then missing sourceEntrypoint
      else if entrypoint = indexPath then
        success { kind := .site, entrypoint := indexPath, primaryPath := none, files := selected }
      else if selected.any (·.path = indexPath) then
        failure .pathCollision
          (units "site already has index.html but declares another entrypoint")
          (some sourceEntrypoint)
      else do
        let page ← redirectViewer title entrypoint
        success
          { kind := .site
            entrypoint := indexPath
            primaryPath := none
            files := selected ++ [.generated indexPath (bytes page) htmlType] }
  | spec => mismatch .site spec.kind

/-- The builder of a kind. -/
def plan (spec : PublicationSpec) (files : List PublicationSourceFile) :
    Except BuildFailure PublicationPlan :=
  match spec.kind with
  | .file => filePublicationPlan spec files
  | .site => sitePublicationPlan spec files
  | .video => videoPublicationPlan spec files

/-! ## Validation -/

structure PublicationError where
  code : PublicationErrorCode
  message : Utf16
deriving DecidableEq

def invalid {α : Type} (code : PublicationErrorCode) (message : Utf16) :
    Except PublicationError α :=
  .error ⟨code, message⟩

def isLowerHex (u : UInt16) : Bool :=
  (0x30 ≤ u && u ≤ 0x39) || (0x61 ≤ u && u ≤ 0x66)

/-- `/^sha256:[a-f0-9]{64}$/`. -/
def isDigest (digest : Utf16) : Bool :=
  units "sha256:" <+: digest && digest.length = 71 && (digest.drop 7).all isLowerHex

/-- A media type that can stand in a header. -/
def validMediaType (mediaType : Utf16) : Bool :=
  mediaType ≠ [] && mediaType.length ≤ 128 && 0x0D ∉ mediaType && 0x0A ∉ mediaType

def MAX_SAFE_INTEGER : ℤ := 9007199254740991

/-- `validateBlobReference` accepts the reference. -/
def validBlobReference (value : BlobReference) : Bool :=
  value.id ≠ [] && value.id.length ≤ 1024 && isDigest value.digest && 0 ≤ value.size &&
    value.size ≤ MAX_SAFE_INTEGER && validMediaType value.mediaType

def validateBlobReference (value : BlobReference) : Except PublicationError Unit :=
  if validBlobReference value then .ok ()
  else invalid .invalidRequest (units "publication contains an invalid blob reference")

def blobIdentity (blob : BlobReference) : Utf16 :=
  [0].intercalate [blob.id, blob.digest, units (toString blob.size), blob.mediaType]

/-- `_rat` and what is in it. -/
def reserved (path : Utf16) : Bool :=
  path = units "_rat" || units "_rat/" <+: path

def validatePlannedFile (sourceBlobs : List Utf16) (paths : List Utf16)
    (file : PlannedPublicationFile) : Except PublicationError Unit := do
  if ¬ validArtifactPath file.path then
    invalid .invalidPath (units "publication builder returned invalid path " ++ stringify file.path)
  if reserved file.path then
    invalid .invalidPath
      (units "publication path " ++ file.path ++ units " uses the reserved _rat namespace")
  if file.path ∈ paths then
    invalid .pathCollision (units "duplicate publication path " ++ file.path)
  match file with
  | .blob _ blob => do
    validateBlobReference blob
    if blobIdentity blob ∉ sourceBlobs then
      invalid .invalidRequest (units "publication builder selected an unknown source blob")
  | .generated _ _ mediaType =>
    if ¬ validMediaType mediaType then
      invalid .invalidRequest (units "publication builder returned invalid generated bytes")

/-- The planned files one after another, with the paths before them. -/
def validatePlannedFiles (sourceBlobs : List Utf16) :
    List Utf16 → List PlannedPublicationFile → Except PublicationError Unit
  | _, [] => .ok ()
  | paths, file :: files => do
    validatePlannedFile sourceBlobs paths file
    validatePlannedFiles sourceBlobs (file.path :: paths) files

def validatePublicationPlan (plan : PublicationPlan) (spec : PublicationSpec)
    (sources : List PublicationSourceFile) : Except PublicationError Unit := do
  if plan.kind ≠ spec.kind ∨ plan.entrypoint ≠ indexPath ∨ plan.files = [] then
    invalid .invalidRequest (units "publication builder returned an invalid plan")
  if MAX_ARTIFACT_FILES < plan.files.length then
    invalid .invalidRequest (units "publication exceeds 5000 files")
  validatePlannedFiles (sources.map fun source ↦ blobIdentity source.blob) [] plan.files
  if plan.entrypoint ∉ plan.files.map (·.path) then
    invalid .invalidRequest (units "publication plan does not contain its entrypoint")
  if plan.primaryPath.any (· ∉ plan.files.map (·.path)) then
    invalid .invalidRequest (units "publication plan does not contain its primary path")

/-! ## Manifests -/

structure PublicationFile where
  path : Utf16
  blob : BlobReference
deriving DecidableEq

structure PublicationProvenance where
  runId : Option Utf16
  conversationId : Option Utf16
  sessionId : Option Utf16
  artifactIds : Option (List Utf16)
  builder : Utf16
  createdAt : Utf16
deriving DecidableEq

structure PublicationManifest where
  publicationId : Utf16
  kind : PublicationKind
  entrypoint : Utf16
  primaryPath : Option Utf16
  files : List PublicationFile
  provenance : PublicationProvenance
deriving DecidableEq

structure ManifestInput where
  publicationId : Utf16
  plan : PublicationPlan
  files : List PublicationFile
  runId : Option Utf16
  sessionId : Option Utf16
  artifactIds : Option (List Utf16)
  builder : Utf16
  createdAt : Utf16

def validPublicationId (value : Utf16) : Bool :=
  value.length = 24 && value.all isLowerHex

def validPublicationSource (source : PublicationProvenance) : Bool :=
  match source.sessionId with
  | some sessionId =>
    units "sess_" <+: sessionId && source.runId.isNone && source.conversationId.isNone &&
      source.artifactIds.any fun ids ↦ ids ≠ [] && ids.all fun id ↦ units "art_" <+: id
  | none => source.runId.any (· ≠ []) && source.artifactIds.isNone

/-- The files of a manifest one after another, with the paths before them. -/
def validateManifestFiles : List Utf16 → List PublicationFile → Except PublicationError Unit
  | _, [] => .ok ()
  | paths, file :: files => do
    if ¬ validArtifactPath file.path then
      invalid .invalidPath (units "invalid publication path " ++ stringify file.path)
    if file.path ∈ paths then
      invalid .pathCollision (units "duplicate publication path " ++ file.path)
    validateBlobReference file.blob
    validateManifestFiles (file.path :: paths) files

section

-- `Number.isFinite(Date.parse(text))`, and `left.localeCompare(right)`.
variable (isDate : Utf16 → Bool) (localeCompare : Utf16 → Utf16 → ℤ)

def validProvenance (provenance : PublicationProvenance) : Bool :=
  validPublicationSource provenance && provenance.builder ≠ [] && isDate provenance.createdAt

def validatePublicationManifest (value : PublicationManifest) : Except PublicationError Unit := do
  if ¬ validPublicationId value.publicationId then
    invalid .invalidRequest (units "publication id must be 24 lowercase hexadecimal characters")
  if value.entrypoint ≠ indexPath ∨ value.files = [] ∨ MAX_ARTIFACT_FILES < value.files.length then
    invalid .invalidRequest (units "publication manifest is invalid")
  validateManifestFiles [] value.files
  if value.entrypoint ∉ value.files.map (·.path) then
    invalid .invalidRequest (units "publication entrypoint is missing from its manifest")
  if value.primaryPath.any (· ∉ value.files.map (·.path)) then
    invalid .invalidRequest (units "publication primary path is missing from its manifest")
  if ¬ validProvenance isDate value.provenance then
    invalid .invalidRequest (units "publication provenance is invalid")

def provenanceOf (input : ManifestInput) : PublicationProvenance :=
  let sessionId := input.sessionId.filter (· ≠ [])
  { runId := input.runId.filter (· ≠ [])
    conversationId := none
    sessionId
    artifactIds := if sessionId.isSome then some (input.artifactIds.getD []) else none
    builder := input.builder
    createdAt := input.createdAt }

def publicationManifest (input : ManifestInput) : Except PublicationError PublicationManifest := do
  let manifest :=
    { publicationId := input.publicationId
      kind := input.plan.kind
      entrypoint := input.plan.entrypoint
      primaryPath := input.plan.primaryPath.filter (· ≠ [])
      files := input.files.mergeSort fun left right ↦ localeCompare left.path right.path ≤ 0
      provenance := provenanceOf input }
  validatePublicationManifest isDate manifest
  pure manifest

end

end RatThings.Publications
