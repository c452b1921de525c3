import Mathlib.Tactic.Ring
import RatThings.Library.Fallible
import RatThings.Library.Protobuf

/-!
# The routing envelope of a relay frame

The relay reads two fields of a frame: the version and the stream id. This module compares what it
reads with what the bytes say as a message, for all bytes.

## Frames

`FrameOn` says what a frame is: bytes that encode fields, among them one stream id and a version
whose last value is 1, with at most 256 KiB. `readField` reads one field at a time, and what one
round does to the envelope is `Envelope.add` of the field that the bytes encode. Both directions are
proved for one field, and by induction on the fields for all of them; that no bytes encode two
different messages comes from the library.

## Where they differ

Two slips show at the level of one field. A tag is folded into 32 bits, so that a field number
counts only modulo 2^29 (`folded`), and the decoder of the stream id takes a byte order mark off
it (`unmarked`). `Misread` says for which bytes one of them matters, and `readsFrames_iff` that the
reading is right for all others.
-/

namespace RatThings.Network

open Concurrent Protobuf

/-! ## Reading a frame

The loops are recursive on a bound: five rounds for a number, and as many rounds as bytes for the
fields. That the bound of the second one is never reached is part of what is proved. -/

/-- `(byte & 127) * 2 ** shift`, one byte after the other. -/
def varintLoop : ℕ → ℕ → ℕ → List UInt8 → Except String (ℕ × List UInt8)
  | 0, _, _, _ => .error "Invalid relay frame integer"
  | _ + 1, _, _, [] => .error "Invalid relay frame integer"
  | rounds + 1, shift, value, byte :: bytes =>
    let value := value + (byte &&& 127).toNat * 2 ^ shift
    if byte &&& 128 = 0 then .ok (value, bytes) else varintLoop rounds (shift + 7) value bytes

/-- Five rounds, for `shift` below 35. -/
def varint (bytes : List UInt8) : Except String (ℕ × List UInt8) := varintLoop 5 0 0 bytes

/-- A text without a byte order mark at its beginning. -/
def unmarked (s : String) : String :=
  match s.toList with
  | '\uFEFF' :: rest => String.ofList rest
  | _ => s

/-- `new TextDecoder('utf-8', { fatal: true }).decode(bytes)` -/
def decodeText (bytes : List UInt8) : Except String String :=
  match String.fromUTF8? ⟨bytes.toArray⟩ with
  | none => .error "The encoded data was not valid for encoding utf-8"
  | some s => .ok (unmarked s)

/-- The variables of the loop. -/
structure Envelope where
  version : ℕ := 0
  streamId : Option String := none
deriving DecidableEq

/-- `offset += length`, and the check of the offset. -/
def skip (length : ℕ) (bytes : List UInt8) : Except String (List UInt8) :=
  if length > bytes.length then .error "Truncated relay frame" else .ok (bytes.drop length)

/-- One round of the loop, on the bytes behind the offset. -/
def readField (env : Envelope) (bytes : List UInt8) : Except String (Envelope × List UInt8) := do
  let (tag, bytes) ← varint bytes
  -- `tag >>> 3` sees the tag as 32 bits.
  let field := tag % 2 ^ 32 / 8
  let wire := tag % 8
  if field = 0 then .error "Invalid relay frame field"
  else if wire = 0 then do
    let (value, bytes) ← varint bytes
    .ok (if field = 1 then { env with version := value } else env, bytes)
  else if wire = 2 then do
    let (length, bytes) ← varint bytes
    let rest ← skip length bytes
    if field = 2 then
      if env.streamId ≠ none ∨ length > 256 then .error "Invalid relay stream ID"
      else do
        let id ← decodeText (bytes.take length)
        .ok ({ env with streamId := some id }, rest)
    else .ok (env, rest)
  else if wire = 1 then do .ok (env, ← skip 8 bytes)
  else if wire = 5 then do .ok (env, ← skip 4 bytes)
  else .error "Unsupported relay frame wire type"

/-- `while (offset < bytes.length)`, with a bound on the rounds. -/
def readFields : ℕ → Envelope → List UInt8 → Option (Except String Envelope)
  | _, env, [] => some (.ok env)
  | 0, _, _ :: _ => none
  | rounds + 1, env, byte :: bytes =>
    match readField env (byte :: bytes) with
    | .error e => some (.error e)
    | .ok (env, rest) => readFields rounds env rest

/-- `if (version !== 1 || !streamId) throw …` -/
def Envelope.id (env : Envelope) : Except String String :=
  match env.streamId with
  | some id =>
    if env.version ≠ 1 ∨ id = "" then .error "Invalid relay frame version or stream ID" else .ok id
  | none => .error "Invalid relay frame version or stream ID"

/-- Every round reads a byte at least, so there are no more rounds than bytes. -/
def relayStreamId (bytes : List UInt8) : Option (Except String String) :=
  if bytes.length > 256 * 1024 then some (.error "Relay frame exceeds the protocol limit")
  else (readFields bytes.length {} bytes).map fun result ↦ result.bind Envelope.id

/-! ## Frames -/

/-- The bytes of a text. -/
def utf8 (s : String) : List UInt8 := s.toByteArray.data.toList

/-- The values of the version field. -/
def versions (fields : List Field) : List ℕ :=
  fields.filterMap fun f ↦
    match f.payload with
    | .varint value => if f.number = 1 then some value else none
    | _ => none

/-- The texts of the stream id field. -/
def streamIds (fields : List Field) : List (List UInt8) :=
  fields.filterMap fun f ↦
    match f.payload with
    | .text bytes => if f.number = 2 then some bytes else none
    | _ => none

/-- The fields of a frame on a stream: the version is 1 where it is last given, and the stream
id occurs once. -/
structure IsFrame (fields : List Field) (id : String) : Prop where
  numbers : ∀ f ∈ fields, f.number ≠ 0
  version : (versions fields).getLast? = some 1
  streamId : streamIds fields = [utf8 id]
  nonempty : id ≠ ""
  length : (utf8 id).length ≤ 256

/-- The field number as far as 32 bits of the tag hold it. -/
def folded (f : Field) : Field := { f with number := f.number % 2 ^ 29 }

/-- Some field number is too large for 32 bits of tag. -/
def Wide (fields : List Field) : Prop := ∃ f ∈ fields, 2 ^ 29 ≤ f.number

/-- The text begins with a byte order mark. -/
def Marked (s : String) : Prop := s.toList.head? = some '\uFEFF'

/-- The bytes are a frame on a stream, of at most 256 KiB. -/
def FrameOn (id : String) (bytes : List UInt8) : Prop :=
  bytes.length ≤ 256 * 1024 ∧
    ∃ fields, Encodes 5 fields bytes ∧ ¬ Wide fields ∧ IsFrame fields id

/-- The bytes look like a frame once the field numbers are folded, and what distinguishes them from
one matters: a field number is too large (and the stream id more than a mark), or all are small
enough and the stream id begins with a mark. -/
def Misread (bytes : List UInt8) : Prop :=
  bytes.length ≤ 256 * 1024 ∧
    ∃ fields s, Encodes 5 fields bytes ∧ IsFrame (fields.map folded) s ∧
      (Wide fields ∧ s ≠ "\uFEFF" ∨ ¬ Wide fields ∧ Marked s)

/-- The reading ends, accepts the frames on a stream with that stream's id, and nothing else. -/
def ReadsFrames (bytes : List UInt8) : Prop :=
  relayStreamId bytes ≠ none ∧
    ∀ id, relayStreamId bytes = some (.ok id) ↔ FrameOn id bytes

/-! ## Numbers

A number is read from its bytes exactly if they encode it, with five bytes at most. -/

theorem toNat_and_127 (b : UInt8) : (b &&& 127).toNat = b.toNat % 128 := by
  rw [UInt8.toNat_and]
  exact Nat.and_two_pow_sub_one_eq_mod b.toNat 7

theorem and_128_eq_zero (b : UInt8) : b &&& 128 = 0 ↔ b.toNat < 128 := by
  have hbits : ∀ b : BitVec 8, b &&& 128 = 0 ↔ b.toNat < 128 := by decide
  rw [← UInt8.toBitVec_inj]
  exact hbits b.toBitVec

variable {bytes rest : List UInt8} {v : ℕ}

/-- A loop of so many rounds reads a number of so many groups. -/
theorem varintLoop_eq_ok {rounds shift value : ℕ} :
    varintLoop rounds shift value bytes = .ok (v, rest) ↔
      ∃ n enc, Varint rounds n enc ∧ bytes = enc ++ rest ∧ v = value + n * 2 ^ shift := by
  induction rounds generalizing shift value bytes with
  | zero =>
    simp only [varintLoop, reduceCtorEq, false_iff]
    rintro ⟨n, enc, h, -⟩
    cases h
  | succ rounds ih =>
    cases bytes with
    | nil =>
      simp only [varintLoop, reduceCtorEq, false_iff]
      rintro ⟨n, enc, h, hnil, -⟩
      exact h.ne_nil (List.append_eq_nil_iff.mp hnil.symm).1
    | cons b bytes =>
      simp only [varintLoop, and_128_eq_zero, toNat_and_127]
      -- A byte below 128 is the last one.
      by_cases hlow : b.toNat < 128
      · rw [if_pos hlow, Nat.mod_eq_of_lt hlow]
        constructor
        · intro h
          obtain ⟨rfl, rfl⟩ := Prod.ext_iff.mp (Except.ok.inj h)
          exact ⟨b.toNat, [b], .last hlow, rfl, rfl⟩
        · rintro ⟨n, enc, h, heq, rfl⟩
          have hlast : Varint (0 + 1) b.toNat [b] := .last hlow
          obtain ⟨rfl, rfl⟩ := hlast.unique h (show [b] ++ bytes = enc ++ rest from heq)
          rfl
      · rw [if_neg hlow, ih]
        have hhigh : 128 ≤ b.toNat := Nat.not_lt.mp hlow
        have hmod : b.toNat % 128 = b.toNat - 128 := by
          have hbound := b.toNat_lt
          omega
        constructor
        · rintro ⟨n, enc, h, rfl, rfl⟩
          refine ⟨_, b :: enc, .more hhigh h, rfl, ?_⟩
          rw [hmod, Nat.add_mul, Nat.pow_add]
          ring
        · rintro ⟨n, enc, h, heq, rfl⟩
          cases h with
          | last hlow' =>
            obtain ⟨rfl, -⟩ := List.cons_eq_cons.mp heq
            exact absurd hlow' hlow
          | @more _ n _ enc _ h =>
            obtain ⟨rfl, htail⟩ := List.cons_eq_cons.mp heq
            refine ⟨n, enc, h, htail, ?_⟩
            rw [hmod, Nat.add_mul, Nat.pow_add]
            ring

theorem varint_eq_ok : varint bytes = .ok (v, rest) ↔
    ∃ enc, Varint 5 v enc ∧ bytes = enc ++ rest := by
  rw [varint, varintLoop_eq_ok]
  constructor
  · rintro ⟨n, enc, h, hbytes, rfl⟩
    exact ⟨enc, by simpa using h, hbytes⟩
  · rintro ⟨enc, h, hbytes⟩
    exact ⟨v, enc, h, hbytes, by simp⟩

theorem varint_append {enc : List UInt8} (h : Varint 5 v enc) (rest : List UInt8) :
    varint (enc ++ rest) = .ok (v, rest) :=
  varint_eq_ok.mpr ⟨enc, h, rfl⟩

/-! ## Texts

A stream id is decoded to a text of which it is the encoding, possibly behind a byte order mark. -/

theorem utf8_injective : Function.Injective utf8 := by
  intro s t h
  exact String.toByteArray_inj.mp (ByteArray.ext (Array.toList_inj.mp h))

/-- The decoder reads the bytes of a text, and takes a mark off it. -/
theorem decodeText_eq_ok {id : String} :
    decodeText bytes = .ok id ↔ ∃ s, bytes = utf8 s ∧ id = unmarked s := by
  rw [decodeText, String.fromUTF8?]
  by_cases hvalid : ByteArray.IsValidUTF8 ⟨bytes.toArray⟩
  · rw [dif_pos hvalid]
    constructor
    · intro h
      exact ⟨_, rfl, (Except.ok.inj h).symm⟩
    · rintro ⟨s, rfl, rfl⟩
      rfl
  · rw [dif_neg hvalid]
    simp only [reduceCtorEq, false_iff]
    rintro ⟨s, rfl, -⟩
    exact hvalid s.isValidUTF8

theorem unmarked_of_not_marked {s : String} (h : ¬ Marked s) : unmarked s = s := by
  rw [unmarked]
  split
  · rename_i hlist
    exact absurd (by rw [Marked, hlist]; rfl) h
  · rfl

theorem unmarked_ne_of_marked {s : String} (h : Marked s) : unmarked s ≠ s := by
  obtain ⟨rest, hrest⟩ := List.head?_eq_some_iff.mp h
  intro heq
  have hlist : (unmarked s).toList = rest := by
    rw [unmarked, hrest]
    exact String.toList_ofList
  rw [heq, hrest] at hlist
  exact List.cons_ne_self _ _ hlist

theorem unmarked_eq_empty {s : String} (hs : s ≠ "") : unmarked s = "" ↔ s = "\uFEFF" := by
  constructor
  · intro h
    by_cases hmarked : Marked s
    · obtain ⟨rest, hrest⟩ := List.head?_eq_some_iff.mp hmarked
      rw [unmarked, hrest] at h
      have hnil : rest = [] := by simpa using congrArg String.toList h
      rw [← String.toList_inj, hrest, hnil]
      rfl
    · exact absurd (unmarked_of_not_marked hmarked ▸ h) hs
  · rintro rfl
    rfl

/-! ## One field

By cases on the wire type. A round that fails reads no field that can be added. -/

/-- What a stream id field does to the stream id. -/
def addText (streamId : Option String) (bytes : List UInt8) : Option (Option String) :=
  if streamId ≠ none ∨ bytes.length > 256 then none else (decodeText bytes).toOption.map some

/-- What a field does to the envelope. -/
def Envelope.add (env : Envelope) (f : Field) : Option Envelope :=
  match f.payload with
  | .varint value => some (if f.number = 1 then { env with version := value } else env)
  | .text bytes =>
    if f.number = 2 then (addText env.streamId bytes).map fun id ↦ { env with streamId := id }
    else some env
  | _ => some env

theorem skip_eq_ok {length : ℕ} :
    skip length bytes = .ok rest ↔ ∃ skipped,
      skipped.length = length ∧ bytes = skipped ++ rest := by
  rw [skip]
  split
  · simp only [reduceCtorEq, false_iff]
    rintro ⟨skipped, rfl, rfl⟩
    rename_i hlong
    rw [List.length_append] at hlong
    omega
  · rename_i hfits
    constructor
    · intro h
      obtain rfl := Except.ok.inj h
      exact ⟨bytes.take length, List.length_take_of_le (Nat.not_lt.mp hfits),
        (List.take_append_drop length bytes).symm⟩
    · rintro ⟨skipped, rfl, rfl⟩
      rw [List.drop_left]

/-- The tag holds the wire type, and the field number as far as 32 bits go. -/
theorem tag_parts {number wire : ℕ} (h : wire < 8) :
    (8 * number + wire) % 2 ^ 32 / 8 = number % 2 ^ 29 ∧ (8 * number + wire) % 8 = wire := by
  omega

variable {env env' : Envelope}

/-- A stream id is taken from the bytes of a text. -/
theorem addText_eq_some {streamId id : Option String} :
    addText streamId bytes = some id ↔
      ¬ (streamId ≠ none ∨ bytes.length > 256) ∧
        ∃ text, decodeText bytes = .ok text ∧ id = some text := by
  rw [addText]
  split
  · rename_i h
    simp [h]
  · rename_i h
    simp only [h, not_false_eq_true, true_and, Option.map_eq_some_iff]
    cases decodeText bytes with
    | error e => simp [Except.toOption]
    | ok text => simp [Except.toOption, eq_comm]

/-- Where the bytes begin with a field, one round adds it to the envelope. -/
theorem readField_append {f : Field} {enc : List UInt8} (h : f.Encodes 5 enc)
    (hnumber : (folded f).number ≠ 0) (hadd : env.add (folded f) = some env') (rest : List UInt8) :
    readField env (enc ++ rest) = .ok (env', rest) := by
  obtain ⟨number, payload⟩ := f
  obtain ⟨htag, hbody⟩ := h
  obtain ⟨hfield, hwire⟩ := @tag_parts number _ payload.wire_lt
  rw [List.append_assoc, readField, bind_eq_ok]
  refine ⟨_, varint_append htag _, ?_⟩
  dsimp only [folded] at hnumber hadd ⊢
  rw [hfield, if_neg hnumber]
  cases hbody
  case varint hvalue =>
    rw [hwire.trans (rfl : _ = 0), if_pos rfl, bind_eq_ok]
    refine ⟨_, varint_append hvalue rest, ?_⟩
    rw [Option.some.inj hadd]
  case text size text hsize =>
    rw [hwire.trans (rfl : _ = 2), if_neg (by decide), if_pos rfl, bind_eq_ok, List.append_assoc]
    refine ⟨_, varint_append hsize (text ++ rest), ?_⟩
    rw [bind_eq_ok]
    refine ⟨rest, skip_eq_ok.mpr ⟨text, rfl, rfl⟩, ?_⟩
    rw [Envelope.add] at hadd
    dsimp only at hadd ⊢
    by_cases hid : number % 2 ^ 29 = 2
    · rw [if_pos hid] at hadd ⊢
      obtain ⟨id, hadded, rfl⟩ := Option.map_eq_some_iff.mp hadd
      obtain ⟨hfree, text', htext, rfl⟩ := addText_eq_some.mp hadded
      rw [if_neg hfree, bind_eq_ok]
      exact ⟨text', by rw [List.take_left]; exact htext, rfl⟩
    · rw [if_neg hid] at hadd ⊢
      rw [Option.some.inj hadd]
  case fixed64 hlength =>
    rw [hwire.trans (rfl : _ = 1), if_neg (by decide), if_neg (by decide), if_pos rfl, bind_eq_ok]
    exact ⟨rest, skip_eq_ok.mpr ⟨_, hlength, rfl⟩, by rw [Option.some.inj hadd]⟩
  case fixed32 hlength =>
    rw [hwire.trans (rfl : _ = 5), if_neg (by decide), if_neg (by decide), if_neg (by decide),
      if_pos rfl, bind_eq_ok]
    exact ⟨rest, skip_eq_ok.mpr ⟨_, hlength, rfl⟩, by rw [Option.some.inj hadd]⟩

/-- A round that does not fail has read a field and added it to the envelope. -/
theorem of_readField_eq_ok (h : readField env bytes = .ok (env', rest)) :
    ∃ f enc, f.Encodes 5 enc ∧ bytes = enc ++ rest ∧ (folded f).number ≠ 0 ∧
      env.add (folded f) = some env' := by
  rw [readField, bind_eq_ok] at h
  obtain ⟨⟨tag, body⟩, htag, h⟩ := h
  obtain ⟨tagBytes, htag', rfl⟩ := varint_eq_ok.mp htag
  dsimp only at h
  have hfield : tag % 2 ^ 32 / 8 = tag / 8 % 2 ^ 29 := by omega
  rw [hfield] at h
  by_cases hnumber : tag / 8 % 2 ^ 29 = 0
  · rw [if_pos hnumber] at h
    cases h
  rw [if_neg hnumber] at h
  -- What remains is the payload that the wire type announces.
  suffices hpayload : ∃ p enc, p.Encodes 5 enc ∧ p.wire = tag % 8 ∧ body = enc ++ rest ∧
      env.add ⟨tag / 8 % 2 ^ 29, p⟩ = some env' by
    obtain ⟨p, enc, hp, hwire, rfl, hadd⟩ := hpayload
    have hparts : 8 * (tag / 8) + p.wire = tag := by omega
    refine ⟨⟨tag / 8, p⟩, tagBytes ++ enc, .intro (hparts.symm ▸ htag') hp, ?_, hnumber, hadd⟩
    rw [List.append_assoc]
  by_cases hvarint : tag % 8 = 0
  · rw [if_pos hvarint, bind_eq_ok] at h
    obtain ⟨⟨value, tail⟩, hvalue, h⟩ := h
    obtain ⟨enc, henc, rfl⟩ := varint_eq_ok.mp hvalue
    obtain ⟨rfl, rfl⟩ := Prod.ext_iff.mp (Except.ok.inj h)
    exact ⟨.varint value, enc, .varint henc, hvarint.symm, rfl, rfl⟩
  rw [if_neg hvarint] at h
  by_cases htext : tag % 8 = 2
  · rw [if_pos htext, bind_eq_ok] at h
    obtain ⟨⟨length, tail⟩, hlength, h⟩ := h
    obtain ⟨size, hsize, rfl⟩ := varint_eq_ok.mp hlength
    obtain ⟨tail', hskip, h⟩ := bind_eq_ok.mp h
    obtain ⟨text, rfl, rfl⟩ := skip_eq_ok.mp hskip
    suffices hadd : tail' = rest ∧ env.add ⟨tag / 8 % 2 ^ 29, .text text⟩ = some env' by
      obtain ⟨rfl, hadd⟩ := hadd
      exact ⟨.text text, size ++ text, .text hsize, htext.symm, by rw [List.append_assoc], hadd⟩
    dsimp only at h
    by_cases hid : tag / 8 % 2 ^ 29 = 2
    · rw [if_pos hid] at h
      by_cases hfree : env.streamId ≠ none ∨ text.length > 256
      · rw [if_pos hfree] at h
        cases h
      · rw [if_neg hfree, List.take_left, bind_eq_ok] at h
        obtain ⟨id, hdecode, h⟩ := h
        obtain ⟨rfl, rfl⟩ := Prod.ext_iff.mp (Except.ok.inj h)
        have hadded : addText env.streamId text = some (some id) :=
          addText_eq_some.mpr ⟨hfree, id, hdecode, rfl⟩
        exact ⟨rfl, by simp only [Envelope.add, if_pos hid, hadded, Option.map_some]⟩
    · rw [if_neg hid] at h
      obtain ⟨rfl, rfl⟩ := Prod.ext_iff.mp (Except.ok.inj h)
      exact ⟨rfl, by simp only [Envelope.add, if_neg hid]⟩
  rw [if_neg htext] at h
  by_cases hfixed64 : tag % 8 = 1
  · rw [if_pos hfixed64, bind_eq_ok] at h
    obtain ⟨tail, hskip, h⟩ := h
    obtain ⟨skipped, hlength, rfl⟩ := skip_eq_ok.mp hskip
    obtain ⟨rfl, rfl⟩ := Prod.ext_iff.mp (Except.ok.inj h)
    exact ⟨.fixed64 skipped, skipped, .fixed64 hlength, hfixed64.symm, rfl, rfl⟩
  rw [if_neg hfixed64] at h
  by_cases hfixed32 : tag % 8 = 5
  · rw [if_pos hfixed32, bind_eq_ok] at h
    obtain ⟨tail, hskip, h⟩ := h
    obtain ⟨skipped, hlength, rfl⟩ := skip_eq_ok.mp hskip
    obtain ⟨rfl, rfl⟩ := Prod.ext_iff.mp (Except.ok.inj h)
    exact ⟨.fixed32 skipped, skipped, .fixed32 hlength, hfixed32.symm, rfl, rfl⟩
  rw [if_neg hfixed32] at h
  cases h

/-! ## All fields

By induction on the rounds, and on the fields. -/

/-- The bytes are those of fields that can be added to the envelope one after the other. -/
def Adds (env env' : Envelope) (bytes : List UInt8) : Prop :=
  ∃ fields, Encodes 5 fields bytes ∧ (∀ f ∈ fields, (folded f).number ≠ 0) ∧
    (fields.map folded).foldlM Envelope.add env = some env'

theorem adds_nil : Adds env env' [] ↔ env = env' := by
  constructor
  · rintro ⟨fields, hfields, -, hadd⟩
    obtain rfl := hfields.unique .nil
    exact Option.some.inj hadd
  · rintro rfl
    exact ⟨[], .nil, by simp, rfl⟩

/-- The first field is what one round reads. -/
theorem adds_iff (hbytes : bytes ≠ []) : Adds env env' bytes ↔
    ∃ next rest, readField env bytes = .ok (next, rest) ∧ rest.length < bytes.length ∧
      Adds next env' rest := by
  constructor
  · rintro ⟨fields, hfields, hnumbers, hadd⟩
    cases hfields with
    | nil => exact absurd rfl hbytes
    | @cons f fields enc rest hf hfields =>
      rw [List.map_cons, List.foldlM_cons] at hadd
      obtain ⟨next, hnext, hadd⟩ := Option.bind_eq_some_iff.mp hadd
      refine ⟨next, rest, readField_append hf (hnumbers f List.mem_cons_self) hnext rest, ?_,
        fields, hfields, fun f hmem ↦ hnumbers f (List.mem_cons_of_mem _ hmem), hadd⟩
      have hpos := List.length_pos_of_ne_nil hf.ne_nil
      rw [List.length_append]
      omega
  · rintro ⟨next, rest, hread, -, fields, hfields, hnumbers, hadd⟩
    obtain ⟨f, enc, hf, rfl, hnumber, hnext⟩ := of_readField_eq_ok hread
    refine ⟨f :: fields, .cons hf hfields, List.forall_mem_cons.mpr ⟨hnumber, hnumbers⟩, ?_⟩
    rw [List.map_cons, List.foldlM_cons, hnext]
    exact hadd

/-- The loop ends, and it accepts the bytes of fields that can be added one after the other. -/
theorem readFields_spec {rounds : ℕ} (hrounds : bytes.length ≤ rounds) :
    readFields rounds env bytes ≠ none ∧
      (readFields rounds env bytes = some (.ok env') ↔ Adds env env' bytes) := by
  induction rounds generalizing env bytes with
  | zero =>
    obtain rfl : bytes = [] := List.length_eq_zero_iff.mp (Nat.le_zero.mp hrounds)
    rw [adds_nil]
    simp [readFields]
  | succ rounds ih =>
    cases bytes with
    | nil =>
      rw [adds_nil]
      simp [readFields]
    | cons byte bytes =>
      rw [readFields, adds_iff (List.cons_ne_nil byte bytes)]
      cases hread : readField env (byte :: bytes) with
      | error e => simp
      | ok result =>
        obtain ⟨next, rest⟩ := result
        obtain ⟨f, enc, hf, heq, -⟩ := of_readField_eq_ok hread
        have hpos := List.length_pos_of_ne_nil hf.ne_nil
        have hlength := congrArg List.length heq
        rw [List.length_append] at hlength
        have hshort : rest.length < (byte :: bytes).length := by omega
        obtain ⟨hends, hok⟩ := @ih rest next (by omega)
        refine ⟨hends, hok.trans ⟨fun h ↦ ⟨next, rest, rfl, hshort, h⟩, ?_⟩⟩
        rintro ⟨next', rest', hsame, -, h⟩
        obtain ⟨rfl, rfl⟩ := Prod.ext_iff.mp (Except.ok.inj hsame)
        exact h

/-! ## What the fields say

The envelope that comes of adding all fields has the last version and the only stream id. -/

/-- Adding fields keeps the last version, and takes the stream ids one after the other. -/
theorem foldlM_add (fields : List Field) (env : Envelope) :
    fields.foldlM Envelope.add env =
      ((streamIds fields).foldlM addText env.streamId).map fun id ↦
        { version := (versions fields).getLast?.getD env.version, streamId := id } := by
  induction fields generalizing env with
  | nil => rfl
  | cons f fields ih =>
    obtain ⟨number, payload⟩ := f
    rw [List.foldlM_cons]
    cases payload with
    | varint value =>
      by_cases hversion : number = 1
      · simp [Envelope.add, versions, streamIds, hversion, ih, List.getLast?_cons]
      · simp [Envelope.add, versions, streamIds, hversion, ih]
    | text bytes =>
      by_cases hid : number = 2
      · simp only [Envelope.add, hid, if_true, streamIds, versions, List.filterMap_cons,
          List.foldlM_cons]
        cases addText env.streamId bytes with
        | none => rfl
        | some id => exact ih { env with streamId := id }
      · simp [Envelope.add, versions, streamIds, hid, ih]
    | fixed64 bytes => simp [Envelope.add, versions, streamIds, ih]
    | fixed32 bytes => simp [Envelope.add, versions, streamIds, ih]

/-- A stream id is not decoded behind another. -/
theorem foldlM_addText_some {texts : List (List UInt8)} {s : String} {id : Option String} :
    texts.foldlM addText (some s) = some id ↔ texts = [] ∧ id = some s := by
  cases texts with
  | nil => simp [eq_comm]
  | cons text texts =>
    rw [List.foldlM_cons, addText, if_pos (.inl (Option.some_ne_none s))]
    simp

theorem foldlM_addText {texts : List (List UInt8)} {id : Option String} :
    texts.foldlM addText none = some id ↔
      texts = [] ∧ id = none ∨
        ∃ s, texts = [utf8 s] ∧ (utf8 s).length ≤ 256 ∧ id = some (unmarked s) := by
  cases texts with
  | nil => simp [eq_comm]
  | cons text texts =>
    rw [List.foldlM_cons]
    constructor
    · intro h
      obtain ⟨first, hfirst, h⟩ := Option.bind_eq_some_iff.mp h
      obtain ⟨hfree, decoded, hdecode, rfl⟩ := addText_eq_some.mp hfirst
      obtain ⟨s, rfl, rfl⟩ := decodeText_eq_ok.mp hdecode
      obtain ⟨rfl, rfl⟩ := foldlM_addText_some.mp h
      exact .inr ⟨s, rfl, Nat.not_lt.mp fun hlong ↦ hfree (.inr hlong), rfl⟩
    · rintro (⟨hnil, -⟩ | ⟨s, hone, hlength, rfl⟩)
      · cases hnil
      · obtain ⟨rfl, rfl⟩ := List.cons_eq_cons.mp hone
        have hfirst : addText none (utf8 s) = some (some (unmarked s)) :=
          addText_eq_some.mpr ⟨by simp [hlength], unmarked s,
            decodeText_eq_ok.mpr ⟨s, rfl, rfl⟩, rfl⟩
        rw [hfirst]
        rfl

/-! ## Frames -/

theorem Envelope.id_eq_ok {env : Envelope} {id : String} :
    env.id = .ok id ↔ env.streamId = some id ∧ env.version = 1 ∧ id ≠ "" := by
  rw [Envelope.id]
  cases env.streamId with
  | none => simp
  | some id' =>
    dsimp only
    split
    · rename_i hbad
      simp only [reduceCtorEq, Option.some.injEq, false_iff]
      rintro ⟨rfl, hversion, hid⟩
      exact hbad.elim (· hversion) hid
    · rename_i hgood
      push Not at hgood
      constructor
      · intro h
        obtain rfl := Except.ok.inj h
        exact ⟨rfl, hgood⟩
      · rintro ⟨h, -⟩
        rw [Option.some.inj h]

theorem relayStreamId_ne_none (bytes : List UInt8) : relayStreamId bytes ≠ none := by
  rw [relayStreamId]
  split
  · exact Option.some_ne_none _
  · rw [Ne, Option.map_eq_none_iff]
    exact (@readFields_spec bytes {} {} _ le_rfl).1

/-- What is accepted: the bytes of fields that are a frame once their numbers are folded, on the
stream whose id is what the decoder leaves of the text. -/
theorem relayStreamId_eq_ok {id : String} : relayStreamId bytes = some (.ok id) ↔
    bytes.length ≤ 256 * 1024 ∧ ∃ fields s, Encodes 5 fields bytes ∧
      IsFrame (fields.map folded) s ∧ unmarked s = id ∧ id ≠ "" := by
  rw [relayStreamId]
  by_cases hlong : bytes.length > 256 * 1024
  · rw [if_pos hlong]
    simp [Nat.not_le.mpr hlong]
  rw [if_neg hlong]
  constructor
  · intro h
    obtain ⟨result, hresult, hid⟩ := Option.map_eq_some_iff.mp h
    obtain ⟨env, rfl, hid⟩ := bind_eq_ok.mp hid
    obtain ⟨hstream, hversion, hne⟩ := Envelope.id_eq_ok.mp hid
    obtain ⟨fields, hfields, hnumbers, hadd⟩ := (readFields_spec le_rfl).2.mp hresult
    rw [foldlM_add] at hadd
    obtain ⟨streamId, htexts, rfl⟩ := Option.map_eq_some_iff.mp hadd
    obtain rfl : streamId = some id := hstream
    rcases foldlM_addText.mp htexts with ⟨-, hnone⟩ | ⟨s, hstreamId, hshort, hs⟩
    · cases hnone
    obtain rfl := Option.some.inj hs
    refine ⟨Nat.not_lt.mp hlong, fields, s, hfields, ⟨?_, ?_, hstreamId, ?_, hshort⟩, rfl, hne⟩
    · exact List.forall_mem_map.mpr hnumbers
    · cases hlast : (versions (fields.map folded)).getLast? with
      | none => simp [hlast] at hversion
      | some version => simpa [hlast] using hversion
    · rintro rfl
      exact hne rfl
  · rintro ⟨hlength, fields, s, hfields, hframe, rfl, hne⟩
    have htexts : (streamIds (fields.map folded)).foldlM addText none = some (some (unmarked s)) :=
      foldlM_addText.mpr (.inr ⟨s, hframe.streamId, hframe.length, rfl⟩)
    have hadds : Adds {} { version := 1, streamId := some (unmarked s) } bytes := by
      refine ⟨fields, hfields, fun f hf ↦ hframe.numbers _ (List.mem_map_of_mem hf), ?_⟩
      rw [foldlM_add, htexts, hframe.version]
      rfl
    have hid : Envelope.id { version := 1, streamId := some (unmarked s) } = .ok (unmarked s) :=
      Envelope.id_eq_ok.mpr ⟨rfl, rfl, hne⟩
    rw [(readFields_spec le_rfl).2.mpr hadds, Option.map_some]
    exact congrArg some hid

theorem map_folded {fields : List Field} (h : ¬ Wide fields) : fields.map folded = fields := by
  refine (List.map_congr_left fun f hf ↦ ?_).trans (List.map_id fields)
  have hsmall : f.number < 2 ^ 29 := Nat.not_le.mp fun hwide ↦ h ⟨f, hf, hwide⟩
  rw [folded, Nat.mod_eq_of_lt hsmall]
  rfl

/-- **Where the envelope is read as it is written.** The reading accepts the frames on a stream with
the id of that stream and refuses all other bytes, exactly unless the bytes are a frame with a field
number above 2^29, or one whose stream id begins with a byte order mark. -/
theorem readsFrames_iff (bytes : List UInt8) : ReadsFrames bytes ↔ ¬ Misread bytes := by
  constructor
  · rintro ⟨-, hreads⟩ ⟨hlength, fields, s, hfields, hframe, ⟨hwide, hs⟩ | ⟨hnarrow, hmarked⟩⟩
    · -- A wide frame is accepted, though its fields do not tell the stream.
      have hne : unmarked s ≠ "" := fun h ↦ hs ((unmarked_eq_empty hframe.nonempty).mp h)
      have haccepted := relayStreamId_eq_ok.mpr ⟨hlength, fields, s, hfields, hframe, rfl, hne⟩
      obtain ⟨-, fields', hfields', hnarrow, -⟩ := (hreads _).mp haccepted
      exact hnarrow (hfields.unique hfields' ▸ hwide)
    · rw [map_folded hnarrow] at hframe
      have hframed : FrameOn s bytes := ⟨hlength, fields, hfields, hnarrow, hframe⟩
      obtain ⟨-, fields', s', hfields', hframe', hs', -⟩ :=
        relayStreamId_eq_ok.mp ((hreads s).mpr hframed)
      obtain rfl := hfields.unique hfields'
      rw [map_folded hnarrow] at hframe'
      have hsame := hframe.streamId.symm.trans hframe'.streamId
      obtain rfl := utf8_injective (List.cons.inj hsame).1
      exact unmarked_ne_of_marked hmarked hs'
  · intro hread
    refine ⟨relayStreamId_ne_none bytes, fun id ↦ ⟨fun h ↦ ?_, ?_⟩⟩
    · obtain ⟨hlength, fields, s, hfields, hframe, rfl, hne⟩ := relayStreamId_eq_ok.mp h
      have hnarrow : ¬ Wide fields := fun hwide ↦ hread ⟨hlength, fields, s, hfields, hframe,
        .inl ⟨hwide, fun hs ↦ hne ((unmarked_eq_empty hframe.nonempty).mpr hs)⟩⟩
      have hplain : ¬ Marked s := fun hmarked ↦
        hread ⟨hlength, fields, s, hfields, hframe, .inr ⟨hnarrow, hmarked⟩⟩
      rw [unmarked_of_not_marked hplain]
      exact ⟨hlength, fields, hfields, hnarrow, map_folded hnarrow ▸ hframe⟩
    · rintro ⟨hlength, fields, hfields, hnarrow, hframe⟩
      have hframe' : IsFrame (fields.map folded) id := by rwa [map_folded hnarrow]
      have hplain : ¬ Marked id := fun hmarked ↦
        hread ⟨hlength, fields, id, hfields, hframe', .inr ⟨hnarrow, hmarked⟩⟩
      exact relayStreamId_eq_ok.mpr ⟨hlength, fields, id, hfields, hframe',
        unmarked_of_not_marked hplain, hframe.nonempty⟩

/-- A frame on the stream "\uFEFFa" is read as one on the stream "a". -/
theorem not_readsFrames_marked :
    ¬ ReadsFrames [0x08, 0x01, 0x12, 0x04, 0xEF, 0xBB, 0xBF, 0x61] := by
  rintro ⟨-, hreads⟩
  have hframed : FrameOn "\uFEFFa" [0x08, 0x01, 0x12, 0x04, 0xEF, 0xBB, 0xBF, 0x61] := by
    refine ⟨by decide, [⟨1, .varint 1⟩, ⟨2, .text [0xEF, 0xBB, 0xBF, 0x61]⟩], ?_, ?_, ?_⟩
    · have hversion : Field.Encodes 5 ⟨1, .varint 1⟩ ([0x08] ++ [0x01]) :=
        .intro (@Varint.last 4 0x08 (by decide)) (.varint (@Varint.last 4 0x01 (by decide)))
      have hid : Field.Encodes 5 ⟨2, .text [0xEF, 0xBB, 0xBF, 0x61]⟩
          ([0x12] ++ ([0x04] ++ [0xEF, 0xBB, 0xBF, 0x61])) :=
        .intro (@Varint.last 4 0x12 (by decide)) (.text (@Varint.last 4 0x04 (by decide)))
      exact .cons hversion (.cons hid .nil)
    · rintro ⟨f, hf, hwide⟩
      simp only [List.mem_cons, List.not_mem_nil, or_false] at hf
      rcases hf with rfl | rfl <;> exact absurd hwide (by decide)
    · exact ⟨by decide, by decide, by decide, by decide, by decide⟩
  have hread : relayStreamId [0x08, 0x01, 0x12, 0x04, 0xEF, 0xBB, 0xBF, 0x61] =
      some (.ok "a") := by decide
  have hsame : some (Except.ok "a") = some (.ok "\uFEFFa") :=
    hread.symm.trans ((hreads _).mpr hframed)
  exact absurd hsame (by decide)

end RatThings.Network
