import Mathlib.Data.List.Basic
import Mathlib.Order.Nat
import RatThings.Library.Fallible

/-!
# Multipart uploads

A stream of bytes is stored in parts of one size. The chunks of the stream have any sizes: they are
buffered, and whenever the buffer holds a whole part, its bytes are taken from the front, so that a
chunk may be split. A counter tracks what the buffer holds. What is left at the end is the last
part.

## The upload

`Upload` is the state of the upload: the buffer and its counter, the tags of the parts that were
sent, and the requests so far. The service is a function of the requests, so it may fail at any of
them. Every call of `takeBytes` is recorded as a `Take`, with what was asked for and what was left,
since the question is whether the buffer ever runs short.

## The invariant

`Upload.Consistent` holds between chunks: what was received is in the parts or in the buffer, in
this order, every part but none after the last one is whole, and the counter is the length of the
buffer. The loop keeps it (`sendParts_ends`) and leaves less than a part, `sendLast_ends` sends the
rest, and `Ended` says how the whole ends: with the content in its parts, with an empty object, or
with an error of the service or of the limit on parts.
-/

namespace RatThings.S3ArtifactStore

abbrev Bytes := List UInt8

def multipartPartBytes : ℕ := 8 * 1024 * 1024

def multipartPartLimit : ℕ := 10000

/-! ## The buffer

Bytes are taken from the front of a list of chunks, and what is left begins in the middle of one. -/

/-- Take bytes from the front of the chunks. The chunk in which they end is split. -/
def takeBytes : List Bytes → ℕ → Option (Bytes × List Bytes)
  | chunks, 0 => some ([], chunks)
  | [], _ + 1 => none
  | chunk :: chunks, size + 1 =>
    let length := min chunk.length (size + 1)
    if length = chunk.length then
      (takeBytes chunks (size + 1 - length)).map fun taken ↦ (chunk ++ taken.1, taken.2)
    else some (chunk.take length, chunk.drop length :: chunks)

/-- **What is taken is the front of what is buffered**, if there is enough. -/
theorem takeBytes_eq_some {chunks : List Bytes} {size : ℕ} (h : size ≤ chunks.flatten.length) :
    ∃ left, takeBytes chunks size = some (chunks.flatten.take size, left) ∧
      left.flatten = chunks.flatten.drop size := by
  induction chunks generalizing size with
  | nil =>
    obtain rfl := Nat.le_zero.mp h
    exact ⟨[], rfl, rfl⟩
  | cons chunk chunks ih =>
    rcases size with _ | size
    · exact ⟨chunk :: chunks, rfl, rfl⟩
    rw [List.flatten_cons, List.length_append] at h
    rw [takeBytes, List.flatten_cons]
    by_cases hfits : chunk.length ≤ size + 1
    · obtain ⟨left, htaken, hleft⟩ := @ih (size + 1 - chunk.length) (by omega)
      refine ⟨left, ?_, ?_⟩
      · rw [Nat.min_eq_left hfits, if_pos rfl, htaken, Option.map_some, List.take_append,
          List.take_of_length_le hfits]
      · rw [hleft, List.drop_append, List.drop_of_length_le hfits, List.nil_append]
    · have hmin : min chunk.length (size + 1) = size + 1 := by omega
      refine ⟨chunk.drop (size + 1) :: chunks, ?_, ?_⟩
      · rw [hmin, if_neg (by omega), List.take_append_of_le_length (by omega)]
      · rw [List.flatten_cons, List.drop_append_of_le_length (by omega)]

/-! ## The upload -/

inductive Request : Type
  | create
  | uploadPart (number : ℕ) (body : Bytes)
  | complete (parts : List (String × ℕ))
  | abort
  | put (body : Bytes)
deriving DecidableEq, Repr

/-- A call of `takeBytes`: what was asked for and what was buffered, and then what was left and what
the counter said. -/
structure Take where
  asked : ℕ
  buffered : ℕ
  left : ℕ
  pendingBytes : ℕ
deriving DecidableEq, Repr

structure Upload where
  parts : List (String × ℕ) := []
  /-- What the digest was updated with. -/
  digested : Bytes := []
  pending : List Bytes := []
  pendingBytes : ℕ := 0
  received : Bool := false
  requests : List Request := []
  takes : List Take := []
deriving DecidableEq, Repr

namespace Upload

/-- The parts that were sent. -/
def sent (upload : Upload) : List (ℕ × Bytes) :=
  upload.requests.filterMap fun
    | .uploadPart number body => some (number, body)
    | _ => none

/-- One more request. -/
def requesting (upload : Upload) (request : Request) : Upload :=
  { upload with requests := upload.requests ++ [request] }

end Upload

/-- A step of the upload. An error comes with what was done until then. -/
abbrev Step := Except (Upload × String)

section

-- What the service answers to the last of these requests: an identity or a tag, or nothing.
variable (service : List Request → Option String) (partBytes : ℕ)

def uploadPart (upload : Upload) (body : Bytes) : Step Upload :=
  let number := upload.parts.length + 1
  if multipartPartLimit < number then .error (upload, "exceeds the S3 multipart part limit")
  else
    let upload := upload.requesting (.uploadPart number body)
    match service upload.requests with
    | none => .error (upload, "S3 returned no ETag")
    | some tag => .ok { upload with parts := upload.parts ++ [(tag, number)] }

def notEnough : String := "multipart stream ended before a complete buffered part"

/-- Whole parts are sent for as long as the counter says that there is one. -/
def sendParts : ℕ → Upload → Step Upload
  | 0, upload => .ok upload
  | fuel + 1, upload =>
    if upload.pendingBytes < partBytes then .ok upload
    else match takeBytes upload.pending partBytes with
      | none => .error (upload, notEnough)
      | some (part, pending) => do
        let pendingBytes := upload.pendingBytes - part.length
        let upload ← uploadPart service { upload with
          pending
          pendingBytes
          takes := upload.takes ++ [⟨partBytes, upload.pending.flatten.length,
            pending.flatten.length, pendingBytes⟩] } part
        sendParts fuel upload

def receive (upload : Upload) (chunk : Bytes) : Step Upload :=
  if chunk.length = 0 then .ok upload
  else
    let upload := { upload with
      received := true
      digested := upload.digested ++ chunk
      pending := upload.pending ++ [chunk]
      pendingBytes := upload.pendingBytes + chunk.length }
    -- Every part takes a byte at least.
    sendParts service partBytes upload.pendingBytes upload

/-- The last part. The counter is not used after this and keeps its value. -/
def sendLast (upload : Upload) : Step Upload :=
  if upload.pendingBytes = 0 then .ok upload
  else match takeBytes upload.pending upload.pendingBytes with
    | none => .error (upload, notEnough)
    | some (finalPart, pending) =>
      uploadPart service { upload with
        pending
        takes := upload.takes ++ [⟨upload.pendingBytes, upload.pending.flatten.length,
          pending.flatten.length, upload.pendingBytes⟩] } finalPart

def sendComplete (upload : Upload) : Step Upload :=
  let upload := upload.requesting (.complete upload.parts)
  match service upload.requests with
  | none => .error (upload, "completion failed")
  | some _ => .ok upload

/-- Nothing was received: the upload is given up, and an empty object is put. -/
def putNothing (upload : Upload) : Upload × Except String Bytes :=
  let upload := upload.requesting .abort
  match service upload.requests with
  | none => (upload, .error "abort failed")
  | some _ =>
    let upload := upload.requesting (.put [])
    match service upload.requests with
    | none => (upload, .error "put failed")
    | some _ => (upload, .ok [])

/-- Store a stream. The answer is what the digest is of. -/
def putChunks (chunks : List Bytes) : Upload × Except String Bytes :=
  let created : Upload := { requests := [.create] }
  match service created.requests with
  | none => (created, .error "S3 did not create multipart upload")
  | some _ =>
    match chunks.foldlM (receive service partBytes) created with
    | .error (upload, error) => (upload.requesting .abort, .error error)
    | .ok upload =>
      if !upload.received then putNothing service upload
      else match sendLast service upload >>= sendComplete service with
        | .error (upload, error) => (upload.requesting .abort, .error error)
        | .ok upload => (upload, .ok upload.digested)

end

/-- Store a stream. The answer is the digest. -/
def putStream (service : List Request → Option String) (sha256 : Bytes → String)
    (chunks : List Bytes) : Upload × Except String String :=
  let stored := putChunks service multipartPartBytes chunks
  (stored.1, stored.2.map sha256)

/-! ## What a step keeps

A step ends in an upload or in an error, and both come with what was done until then: `Step.Ends`
gives one condition for each. -/

/-- A call of `takeBytes` finds what it asks for. In the loop it leaves what the counter says, and
at the end it takes everything. -/
structure Take.Good (partBytes : ℕ) (take : Take) : Prop where
  enough : take.asked ≤ take.buffered
  part : take.asked = partBytes → take.left = take.pendingBytes
  last : take.asked ≠ partBytes → take.asked = take.buffered ∧ take.left = 0

/-- Whole parts were sent, and what was received is in them or in the buffer. -/
structure Upload.Consistent (partBytes : ℕ) (upload : Upload) (consumed : Bytes) : Prop where
  numbers : upload.sent.map Prod.fst = List.range' 1 upload.parts.length
  tags : upload.parts.map Prod.snd = List.range' 1 upload.parts.length
  whole : ∀ part ∈ upload.sent, part.2.length = partBytes
  content : (upload.sent.map Prod.snd).flatten ++ upload.pending.flatten = consumed
  counter : upload.pendingBytes = upload.pending.flatten.length
  digested : upload.digested = consumed
  received : upload.received = true ↔ consumed ≠ []
  takes : ∀ take ∈ upload.takes, take.Good partBytes

/-- An error is not one of the buffer, and it has a reason: the service did not answer, or there is
more than fits in the parts. -/
structure Fails (service : List Request → Option String) (partBytes : ℕ) (total : ℕ)
    (failed : Upload × String) : Prop where
  takes : ∀ take ∈ failed.1.takes, take.Good partBytes
  error : failed.2 ≠ notEnough
  reason : (∃ requests, service requests = none) ∨ multipartPartLimit * partBytes < total

/-- A step ends in one of these. -/
def Step.Ends (P : Upload → Prop) (E : Upload × String → Prop) : Step Upload → Prop
  | .ok upload => P upload
  | .error failed => E failed

theorem Step.Ends.bind {P Q : Upload → Prop} {E : Upload × String → Prop} {step : Step Upload}
    {next : Upload → Step Upload} (h : Step.Ends P E step)
    (hnext : ∀ upload, P upload → Step.Ends Q E (next upload)) : Step.Ends Q E (step >>= next) := by
  rcases step with failed | upload
  · exact h
  · exact hnext upload h

theorem Step.Ends.mono {P Q : Upload → Prop} {E : Upload × String → Prop} {step : Step Upload}
    (h : Step.Ends P E step) (hP : ∀ upload, P upload → Q upload) : Step.Ends Q E step := by
  rcases step with failed | upload
  · exact h
  · exact hP upload h

section

variable {service : List Request → Option String} {partBytes total : ℕ} {upload : Upload}

/-- One more part was sent and tagged. -/
structure Uploaded (upload : Upload) (body : Bytes) (after : Upload) : Prop where
  sent : after.sent = upload.sent ++ [(upload.parts.length + 1, body)]
  parts : after.parts.map Prod.snd = upload.parts.map Prod.snd ++ [upload.parts.length + 1]
  pending : after.pending = upload.pending
  pendingBytes : after.pendingBytes = upload.pendingBytes
  digested : after.digested = upload.digested
  received : after.received = upload.received
  takes : after.takes = upload.takes

theorem Uploaded.length {body : Bytes} {after : Upload} (h : Uploaded upload body after) :
    after.parts.length = upload.parts.length + 1 := by
  have hlength := congrArg List.length h.parts
  rwa [List.length_append, List.length_map, List.length_map] at hlength

theorem Uploaded.numbers {body : Bytes} {after : Upload} (h : Uploaded upload body after)
    (hnumbers : upload.sent.map Prod.fst = List.range' 1 upload.parts.length) :
    after.sent.map Prod.fst = List.range' 1 after.parts.length := by
  rw [h.sent, h.length, List.map_append, List.range'_concat, hnumbers]
  simp [Nat.add_comm]

theorem Uploaded.tags {body : Bytes} {after : Upload} (h : Uploaded upload body after)
    (htags : upload.parts.map Prod.snd = List.range' 1 upload.parts.length) :
    after.parts.map Prod.snd = List.range' 1 after.parts.length := by
  rw [h.parts, h.length, List.range'_concat, htags]
  simp [Nat.add_comm]

theorem errors_ne : "exceeds the S3 multipart part limit" ≠ notEnough ∧
    "S3 returned no ETag" ≠ notEnough ∧ "completion failed" ≠ notEnough ∧
    "abort failed" ≠ notEnough ∧ "put failed" ≠ notEnough ∧
    "S3 did not create multipart upload" ≠ notEnough := by
  decide

/-- A part gets the next number. -/
theorem uploadPart_ends {body : Bytes} (htakes : ∀ take ∈ upload.takes, take.Good partBytes)
    (hlimit : multipartPartLimit < upload.parts.length + 1 →
      multipartPartLimit * partBytes < total) :
    Step.Ends (Uploaded upload body) (Fails service partBytes total)
      (uploadPart service upload body) := by
  unfold uploadPart
  dsimp only
  split
  · next hmany => exact ⟨htakes, errors_ne.1, .inr (hlimit hmany)⟩
  · split
    · next hnone => exact ⟨htakes, errors_ne.2.1, .inl ⟨_, hnone⟩⟩
    · next tag htag =>
      exact ⟨List.filterMap_append, List.map_append, rfl, rfl, rfl, rfl, rfl⟩

/-- The parts that were sent have room in what was consumed. -/
theorem Upload.Consistent.length {consumed : Bytes} (h : upload.Consistent partBytes consumed) :
    upload.parts.length * partBytes + upload.pendingBytes = consumed.length := by
  have hlengths : (upload.sent.map Prod.snd).map List.length =
      List.replicate upload.parts.length partBytes := by
    have hcount : upload.sent.length = upload.parts.length := by
      rw [← List.length_map Prod.fst, h.numbers, List.length_range']
    rw [List.map_map, ← hcount, ← List.map_const']
    exact List.map_congr_left fun part hmem ↦ h.whole part hmem
  rw [← h.content, List.length_append, List.length_flatten, hlengths, h.counter,
    List.sum_replicate_nat]

theorem Upload.Consistent.limit {consumed : Bytes} (h : upload.Consistent partBytes consumed)
    (hleft : 0 < upload.pendingBytes)
    (htotal : consumed.length ≤ total) (hmany : multipartPartLimit < upload.parts.length + 1) :
    multipartPartLimit * partBytes < total := by
  have hlength := h.length
  have hparts : multipartPartLimit * partBytes ≤ upload.parts.length * partBytes :=
    Nat.mul_le_mul_right partBytes (Nat.lt_succ_iff.mp hmany)
  omega

/-- **The loop sends whole parts until less than one is buffered.** -/
theorem sendParts_ends (hpart : 0 < partBytes) {consumed : Bytes} (htotal : consumed.length ≤ total)
    {fuel : ℕ} (h : upload.Consistent partBytes consumed) (hfuel : upload.pendingBytes ≤ fuel) :
    Step.Ends (fun after ↦ after.Consistent partBytes consumed ∧ after.pendingBytes < partBytes)
      (Fails service partBytes total) (sendParts service partBytes fuel upload) := by
  induction fuel generalizing upload with
  | zero => exact ⟨h, Nat.lt_of_le_of_lt hfuel hpart⟩
  | succ fuel ih =>
    rw [sendParts]
    split
    · next hless => exact ⟨h, hless⟩
    next hwhole =>
    -- The counter is the number of bytes that are pending, so there is a whole part.
    have henough : partBytes ≤ upload.pending.flatten.length := by
      rw [← h.counter]
      exact Nat.le_of_not_lt hwhole
    obtain ⟨pending, htaken, hpending⟩ := takeBytes_eq_some henough
    have hlength : (upload.pending.flatten.take partBytes).length = partBytes :=
      List.length_take_of_le henough
    have hleft : pending.flatten.length = upload.pendingBytes - partBytes := by
      rw [hpending, List.length_drop, h.counter]
    rw [htaken]
    dsimp only
    rw [hlength]
    have hgood : ∀ take ∈ upload.takes ++ [⟨partBytes, upload.pending.flatten.length,
        pending.flatten.length, upload.pendingBytes - partBytes⟩], take.Good partBytes := by
      intro take hmem
      rcases List.mem_append.mp hmem with hmem | hmem
      · exact h.takes take hmem
      · obtain rfl := List.mem_singleton.mp hmem
        exact ⟨henough, fun _ ↦ hleft, fun hne ↦ absurd rfl hne⟩
    refine Step.Ends.bind (uploadPart_ends hgood
      (h.limit (Nat.lt_of_lt_of_le hpart (Nat.le_of_not_lt hwhole)) htotal)) ?_
    intro after hafter
    refine ih ⟨?_, ?_, ?_, ?_, ?_, hafter.digested.trans h.digested, ?_, ?_⟩ ?_
    · exact hafter.numbers h.numbers
    · exact hafter.tags h.tags
    · rw [hafter.sent]
      intro part hmem
      rcases List.mem_append.mp hmem with hmem | hmem
      · exact h.whole part hmem
      · obtain rfl := List.mem_singleton.mp hmem
        exact hlength
    · rw [hafter.sent, hafter.pending, List.map_append, List.flatten_append, hpending, ← h.content]
      simp [Upload.sent]
    · rw [hafter.pendingBytes, hafter.pending]
      exact hleft.symm
    · rw [hafter.received]
      exact h.received
    · rw [hafter.takes]
      exact hgood
    · rw [hafter.pendingBytes]
      change upload.pendingBytes - partBytes ≤ fuel
      omega

theorem receive_ends (hpart : 0 < partBytes) {consumed : Bytes} {chunk : Bytes}
    (htotal : (consumed ++ chunk).length ≤ total)
    (h : upload.Consistent partBytes consumed ∧ upload.pendingBytes < partBytes) :
    Step.Ends (fun after ↦ after.Consistent partBytes (consumed ++ chunk) ∧
      after.pendingBytes < partBytes)
      (Fails service partBytes total) (receive service partBytes upload chunk) := by
  unfold receive
  split
  · next hempty =>
    rw [List.eq_nil_of_length_eq_zero hempty, List.append_nil]
    exact h
  next hchunk =>
  obtain ⟨h, -⟩ := h
  refine sendParts_ends hpart htotal ⟨h.numbers, h.tags, h.whole, ?_, ?_, ?_, ?_, h.takes⟩
    (Nat.le_refl _)
  · rw [← h.content]
    simp [Upload.sent]
  · rw [h.counter]
    simp
  · rw [h.digested]
  · refine iff_of_true rfl fun hnil ↦ hchunk ?_
    rw [(List.append_eq_nil_iff.mp hnil).2]
    rfl

theorem receive_all_ends (hpart : 0 < partBytes) {consumed : Bytes} {chunks : List Bytes}
    (htotal : (consumed ++ chunks.flatten).length ≤ total)
    (h : upload.Consistent partBytes consumed ∧ upload.pendingBytes < partBytes) :
    Step.Ends (fun after ↦ after.Consistent partBytes (consumed ++ chunks.flatten) ∧
      after.pendingBytes < partBytes)
      (Fails service partBytes total) (chunks.foldlM (receive service partBytes) upload) := by
  induction chunks generalizing consumed upload with
  | nil =>
    rw [List.flatten_nil, List.append_nil]
    exact h
  | cons chunk chunks ih =>
    rw [List.flatten_cons, ← List.append_assoc] at htotal ⊢
    rw [List.foldlM_cons]
    have hfirst : (consumed ++ chunk).length ≤ total := by
      rw [List.length_append] at htotal
      omega
    exact (receive_ends hpart hfirst h).bind fun after hafter ↦ ih htotal hafter

/-- The parts that were sent are the content, cut into whole parts and a last one. -/
structure Stored (partBytes : ℕ) (upload : Upload) (content : Bytes) : Prop where
  numbers : upload.sent.map Prod.fst = List.range' 1 upload.sent.length
  /-- The parts that the completion names. -/
  tags : upload.parts.map Prod.snd = List.range' 1 upload.sent.length
  whole : ∀ part ∈ upload.sent.dropLast, part.2.length = partBytes
  last : ∀ part ∈ upload.sent.getLast?, part.2 ≠ [] ∧ part.2.length ≤ partBytes
  content : (upload.sent.map Prod.snd).flatten = content

/-- What is ready for its completion. -/
structure Ready (partBytes : ℕ) (content : Bytes) (upload : Upload) : Prop where
  stored : Stored partBytes upload content
  digested : upload.digested = content
  takes : ∀ take ∈ upload.takes, take.Good partBytes

theorem sent_length (h : upload.sent.map Prod.fst = List.range' 1 upload.parts.length) :
    upload.sent.length = upload.parts.length := by
  rw [← List.length_map Prod.fst, h, List.length_range']

/-- **The last part is what is left in the buffer.** -/
theorem sendLast_ends (hpart : 0 < partBytes) {consumed : Bytes} (htotal : consumed.length ≤ total)
    (h : upload.Consistent partBytes consumed ∧ upload.pendingBytes < partBytes) :
    Step.Ends (Ready partBytes consumed) (Fails service partBytes total)
      (sendLast service upload) := by
  obtain ⟨h, hless⟩ := h
  have hcount := sent_length h.numbers
  unfold sendLast
  split
  · next hzero =>
    have hnil : upload.pending.flatten = [] :=
      List.eq_nil_of_length_eq_zero (h.counter.symm.trans hzero)
    refine ⟨⟨hcount ▸ h.numbers, hcount ▸ h.tags, ?_, ?_, ?_⟩, h.digested, h.takes⟩
    · exact fun part hmem ↦ h.whole part (List.dropLast_subset _ hmem)
    · intro part hlast
      have hwhole := h.whole part (List.mem_of_getLast? hlast)
      refine ⟨fun hempty ↦ ?_, hwhole.le⟩
      rw [hempty] at hwhole
      exact hpart.ne hwhole
    · rw [← h.content, hnil, List.append_nil]
  next hpending =>
  obtain ⟨pending, htaken, hleft⟩ := takeBytes_eq_some h.counter.le
  rw [htaken]
  dsimp only
  -- The counter is the number of bytes that are pending, so all of them are taken.
  have hall : upload.pending.flatten.take upload.pendingBytes = upload.pending.flatten :=
    List.take_of_length_le h.counter.ge
  have hempty : pending.flatten.length = 0 := by
    rw [hleft, List.length_drop, h.counter, Nat.sub_self]
  rw [hall]
  have hgood : ∀ take ∈ upload.takes ++ [⟨upload.pendingBytes, upload.pending.flatten.length,
      pending.flatten.length, upload.pendingBytes⟩], take.Good partBytes := by
    intro take hmem
    rcases List.mem_append.mp hmem with hmem | hmem
    · exact h.takes take hmem
    · obtain rfl := List.mem_singleton.mp hmem
      exact ⟨h.counter.le, fun heq ↦ absurd heq hless.ne, fun _ ↦ ⟨h.counter, hempty⟩⟩
  refine Step.Ends.mono (uploadPart_ends hgood
    (h.limit (Nat.pos_of_ne_zero hpending) htotal)) ?_
  intro after hafter
  have hsent : after.sent = upload.sent ++ [(upload.parts.length + 1, upload.pending.flatten)] :=
    hafter.sent
  have hnumbers := hafter.numbers h.numbers
  have hcount' := sent_length hnumbers
  refine ⟨⟨hcount' ▸ hnumbers, hcount' ▸ hafter.tags h.tags, ?_, ?_, ?_⟩,
    hafter.digested.trans h.digested, by rw [hafter.takes]; exact hgood⟩
  · rw [hsent, List.dropLast_concat]
    exact h.whole
  · rw [hsent, List.getLast?_concat]
    rintro part ⟨⟩
    refine ⟨fun hnil ↦ hpending ?_, ?_⟩
    · rw [h.counter]
      exact congrArg List.length hnil
    · rw [← h.counter]
      exact hless.le
  · rw [hsent, List.map_append, List.flatten_append, ← h.content]
    simp

theorem sendComplete_ends {content : Bytes} (h : Ready partBytes content upload) :
    Step.Ends (fun after ↦ Ready partBytes content after ∧
        after.requests.getLast? = some (.complete after.parts))
      (Fails service partBytes total) (sendComplete service upload) := by
  unfold sendComplete
  dsimp only
  split
  · next hnone => exact ⟨h.takes, errors_ne.2.2.1, .inl ⟨_, hnone⟩⟩
  · have hsent : (upload.requesting (.complete upload.parts)).sent = upload.sent := by
      rw [Upload.requesting, Upload.sent, List.filterMap_append]
      exact List.append_nil _
    refine ⟨⟨⟨?_, ?_, ?_, ?_, ?_⟩, h.digested, h.takes⟩, List.getLast?_concat⟩
    · rw [hsent]
      exact h.stored.numbers
    · rw [hsent]
      exact h.stored.tags
    · rw [hsent]
      exact h.stored.whole
    · rw [hsent]
      exact h.stored.last
    · rw [hsent]
      exact h.stored.content

/-! ## The stream

The chunks are received one after the other, and the invariant says which bytes they were. -/

/-- How an upload ends: with the content in its parts, with an empty object in their place, or with
an error. -/
inductive Ended (service : List Request → Option String) (partBytes : ℕ) (content : Bytes) :
    Upload × Except String Bytes → Prop
  | stored {upload : Upload} (hne : content ≠ []) (h : Ready partBytes content upload)
    (hcomplete : upload.requests.getLast? = some (.complete upload.parts)) :
    Ended service partBytes content (upload, .ok content)
  | empty {upload : Upload} (h : content = []) (hsent : upload.sent = [])
    (hput : upload.requests.getLast? = some (.put []))
    (htakes : ∀ take ∈ upload.takes, take.Good partBytes) :
    Ended service partBytes content (upload, .ok content)
  | failed {upload : Upload} {error : String}
    (h : Fails service partBytes content.length (upload, error)) :
    Ended service partBytes content (upload, .error error)

theorem putNothing_ended (hsent : upload.sent = [])
    (htakes : ∀ take ∈ upload.takes, take.Good partBytes) :
    Ended service partBytes [] (putNothing service upload) := by
  unfold putNothing
  dsimp only
  split
  · next hnone => exact .failed ⟨htakes, errors_ne.2.2.2.1, .inl ⟨_, hnone⟩⟩
  · split
    · next hnone => exact .failed ⟨htakes, errors_ne.2.2.2.2.1, .inl ⟨_, hnone⟩⟩
    · refine .empty rfl ?_ List.getLast?_concat htakes
      rw [Upload.sent, Upload.requesting, Upload.requesting, List.filterMap_append,
        List.filterMap_append]
      change upload.sent ++ [] ++ [] = []
      rw [hsent]
      rfl

theorem putChunks_ended (hpart : 0 < partBytes) (chunks : List Bytes) :
    Ended service partBytes chunks.flatten (putChunks service partBytes chunks) := by
  unfold putChunks
  dsimp only
  split
  · next hnone => exact .failed ⟨fun _ h ↦ absurd h List.not_mem_nil, errors_ne.2.2.2.2.2,
      .inl ⟨_, hnone⟩⟩
  have hstart : Upload.Consistent partBytes { requests := [.create] } [] :=
    ⟨rfl, rfl, fun _ h ↦ absurd h List.not_mem_nil, rfl, rfl, rfl, by simp,
      fun _ h ↦ absurd h List.not_mem_nil⟩
  have hreceived := @receive_all_ends service partBytes chunks.flatten.length
    { requests := [.create] } hpart [] chunks (by simp) ⟨hstart, hpart⟩
  rw [List.nil_append] at hreceived
  generalize chunks.foldlM (receive service partBytes) { requests := [.create] } = step
    at hreceived ⊢
  rcases step with ⟨failed, error⟩ | upload
  · exact .failed ⟨hreceived.takes, hreceived.error, hreceived.reason⟩
  dsimp only
  obtain ⟨hconsistent, hless⟩ : upload.Consistent partBytes chunks.flatten ∧
    upload.pendingBytes < partBytes := hreceived
  by_cases hempty : chunks.flatten = []
  · have hnot : upload.received = false :=
      Bool.eq_false_iff.mpr fun hyes ↦ hconsistent.received.mp hyes hempty
    have hsent : upload.sent = [] := by
      have hlength := hconsistent.length
      rw [hempty, List.length_nil, Nat.add_eq_zero_iff, Nat.mul_eq_zero] at hlength
      have hcount := sent_length hconsistent.numbers
      rw [hlength.1.resolve_right hpart.ne'] at hcount
      exact List.eq_nil_of_length_eq_zero hcount
    rw [hnot, hempty]
    exact putNothing_ended hsent hconsistent.takes
  · rw [hconsistent.received.mpr hempty]
    have hended := (@sendLast_ends service partBytes chunks.flatten.length upload hpart _
      (Nat.le_refl _)
      ⟨hconsistent, hless⟩).bind fun after hafter ↦ @sendComplete_ends service partBytes
        chunks.flatten.length after _ hafter
    generalize sendLast service upload >>= sendComplete service = step at hended ⊢
    rcases step with ⟨failed, error⟩ | after
    · exact .failed ⟨hended.takes, hended.error, hended.reason⟩
    · obtain ⟨hready, hcomplete⟩ := hended
      change Ended service partBytes chunks.flatten (after, .ok after.digested)
      rw [hready.digested]
      exact .stored hempty hready hcomplete

end

/-! ## Storing a stream -/

/-- **A stream is stored as it is.** Whatever the chunks are, the buffer never runs short: every
call in the loop leaves what the counter says, and the call for the last part takes everything. A
stream that was stored is in parts of one size and a last part that is not empty, under the numbers
from one on, which the completion names, and the digest is that of the stream; an empty one is put
as an object. It is stored if the service answers and it fits in the parts. -/
theorem putStream_preserves (service : List Request → Option String) (sha256 : Bytes → String)
    (chunks : List Bytes) :
    let stored := putStream service sha256 chunks
    (∀ take ∈ stored.1.takes, take.Good multipartPartBytes) ∧
    stored.2 ≠ .error notEnough ∧
    (∀ digest, stored.2 = .ok digest → digest = sha256 chunks.flatten ∧
      (chunks.flatten = [] → stored.1.sent = [] ∧ stored.1.requests.getLast? = some (.put [])) ∧
      (chunks.flatten ≠ [] → Stored multipartPartBytes stored.1 chunks.flatten ∧
        stored.1.requests.getLast? = some (.complete stored.1.parts))) ∧
    ((∀ requests, service requests ≠ none) →
      chunks.flatten.length ≤ multipartPartLimit * multipartPartBytes →
      stored.2 = .ok (sha256 chunks.flatten)) := by
  have hended := @putChunks_ended service multipartPartBytes (by decide) chunks
  dsimp only [putStream]
  generalize putChunks service multipartPartBytes chunks = stored at hended ⊢
  -- An upload ends in one of three ways: in parts, with nothing to store, or with an error.
  rcases hended with ⟨hne, hready, hcomplete⟩ | ⟨hempty, hsent, hput, htakes⟩ | hfails
  · refine ⟨hready.takes, nofun, fun digest hdigest ↦ ?_, fun _ _ ↦ rfl⟩
    exact ⟨(Except.ok.inj hdigest).symm, fun hempty ↦ absurd hempty hne,
      fun _ ↦ ⟨hready.stored, hcomplete⟩⟩
  · refine ⟨htakes, nofun, fun digest hdigest ↦ ?_, fun _ _ ↦ rfl⟩
    exact ⟨(Except.ok.inj hdigest).symm, fun _ ↦ ⟨hsent, hput⟩, fun hne ↦ absurd hempty hne⟩
  · refine ⟨hfails.takes, fun herror ↦ hfails.error (Except.error.inj herror), nofun,
      fun hanswers hlimit ↦ ?_⟩
    rcases hfails.reason with ⟨requests, hnone⟩ | hmany
    · exact absurd hnone (hanswers requests)
    · exact absurd hlimit (Nat.not_le.mpr hmany)

/-- At the end of the stream everything is taken from the buffer, while the counter keeps its
value. -/
theorem counter_kept : ∃ take ∈ (putStream (fun _ ↦ some "tag") (fun _ ↦ "digest") [[0]]).1.takes,
    take.left = 0 ∧ take.pendingBytes = 1 := by
  decide

end RatThings.S3ArtifactStore
