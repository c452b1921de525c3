import Mathlib.Data.UInt
import Mathlib.Data.List.Basic

/-!
# Fields on the wire

A message is a list of fields, each a tag and a payload. The tag and the lengths are numbers in
groups of seven bits. A number may be written with more groups than it needs, so an encoding is a
relation: a message has several encodings, but no bytes encode two messages.
-/

namespace Concurrent

namespace Protobuf

/-- A number in at most `groups` groups of seven bits, low groups first. Every byte but the last has
its high bit set. -/
inductive Varint : ℕ → ℕ → List UInt8 → Prop where
  | last {groups : ℕ} {b : UInt8} : b.toNat < 128 → Varint (groups + 1) b.toNat [b]
  | more {groups value : ℕ} {b : UInt8} {bytes : List UInt8} : 128 ≤ b.toNat →
      Varint groups value bytes →
      Varint (groups + 1) (b.toNat - 128 + 128 * value) (b :: bytes)

/-- What a field holds. -/
inductive Payload where
  | varint (value : ℕ)
  | fixed64 (bytes : List UInt8)
  | text (bytes : List UInt8)
  | fixed32 (bytes : List UInt8)
deriving DecidableEq

/-- The wire type of a payload. -/
def Payload.wire : Payload → ℕ
  | .varint _ => 0
  | .fixed64 _ => 1
  | .text _ => 2
  | .fixed32 _ => 5

structure Field where
  number : ℕ
  payload : Payload
deriving DecidableEq

/-- The bytes of a payload, its numbers in at most `groups` groups. -/
inductive Payload.Encodes (groups : ℕ) : Payload → List UInt8 → Prop where
  | varint {value : ℕ} {bytes : List UInt8} :
      Varint groups value bytes → Encodes groups (.varint value) bytes
  | fixed64 {bytes : List UInt8} : bytes.length = 8 → Encodes groups (.fixed64 bytes) bytes
  | text {size bytes : List UInt8} :
      Varint groups bytes.length size → Encodes groups (.text bytes) (size ++ bytes)
  | fixed32 {bytes : List UInt8} : bytes.length = 4 → Encodes groups (.fixed32 bytes) bytes

/-- The bytes of a field: the tag says the number and the wire type. -/
inductive Field.Encodes (groups : ℕ) (f : Field) : List UInt8 → Prop where
  | intro {tag body : List UInt8} : Varint groups (8 * f.number + f.payload.wire) tag →
      f.payload.Encodes groups body → Encodes groups f (tag ++ body)

/-- The bytes of a list of fields. -/
inductive Encodes (groups : ℕ) : List Field → List UInt8 → Prop where
  | nil : Encodes groups [] []
  | cons {f : Field} {fields : List Field} {bytes rest : List UInt8} :
      f.Encodes groups bytes → Encodes groups fields rest →
      Encodes groups (f :: fields) (bytes ++ rest)

variable {groups groups' v v' : ℕ} {e e' r r' : List UInt8}

/-! ## What bytes encode -/

/-- The bytes of a number say where it ends. -/
theorem Varint.unique (h : Varint groups v e) (h' : Varint groups' v' e')
    (heq : e ++ r = e' ++ r') : v = v' ∧ r = r' := by
  induction h generalizing groups' v' e' with
  | last hlow =>
    cases h' with
    | last =>
      obtain ⟨rfl, rfl⟩ := List.cons_eq_cons.mp heq
      exact ⟨rfl, rfl⟩
    | more hhigh =>
      obtain ⟨rfl, -⟩ := List.cons_eq_cons.mp heq
      omega
  | more hhigh _ ih =>
    cases h' with
    | last hlow =>
      obtain ⟨rfl, -⟩ := List.cons_eq_cons.mp heq
      omega
    | more _ h' =>
      obtain ⟨rfl, htail⟩ := List.cons_eq_cons.mp heq
      obtain ⟨rfl, rfl⟩ := ih h' htail
      exact ⟨rfl, rfl⟩

theorem Varint.ne_nil (h : Varint groups v e) : e ≠ [] := by
  cases h <;> exact List.cons_ne_nil _ _

theorem Payload.wire_lt (p : Payload) : p.wire < 8 := by
  cases p <;> simp [wire]

/-- With the wire type known, the bytes of a payload say where it ends. -/
theorem Payload.Encodes.unique {p p' : Payload} (h : p.Encodes groups e)
    (h' : p'.Encodes groups e') (hwire : p.wire = p'.wire) (heq : e ++ r = e' ++ r') :
    p = p' ∧ r = r' := by
  cases h with
  | varint h =>
    cases h' with
    | varint h' =>
      obtain ⟨rfl, rfl⟩ := h.unique h' heq
      exact ⟨rfl, rfl⟩
    | _ => cases hwire
  | fixed64 h =>
    cases h' with
    | fixed64 h' =>
      obtain ⟨rfl, rfl⟩ := List.append_inj heq (h.trans h'.symm)
      exact ⟨rfl, rfl⟩
    | _ => cases hwire
  | text h =>
    cases h' with
    | text h' =>
      rw [List.append_assoc, List.append_assoc] at heq
      obtain ⟨hlength, heq⟩ := h.unique h' heq
      obtain ⟨rfl, rfl⟩ := List.append_inj heq hlength
      exact ⟨rfl, rfl⟩
    | _ => cases hwire
  | fixed32 h =>
    cases h' with
    | fixed32 h' =>
      obtain ⟨rfl, rfl⟩ := List.append_inj heq (h.trans h'.symm)
      exact ⟨rfl, rfl⟩
    | _ => cases hwire

theorem Field.Encodes.ne_nil {f : Field} (h : f.Encodes groups e) : e ≠ [] := by
  obtain ⟨htag, -⟩ := h
  exact fun hnil ↦ htag.ne_nil (List.append_eq_nil_iff.mp hnil).1

theorem Field.Encodes.unique {f f' : Field} (h : f.Encodes groups e) (h' : f'.Encodes groups e')
    (heq : e ++ r = e' ++ r') : f = f' ∧ r = r' := by
  obtain ⟨htag, hbody⟩ := h
  obtain ⟨htag', hbody'⟩ := h'
  rw [List.append_assoc, List.append_assoc] at heq
  obtain ⟨hnumber, heq⟩ := htag.unique htag' heq
  have hwire := f.payload.wire_lt
  have hwire' := f'.payload.wire_lt
  obtain ⟨hpayload, rfl⟩ := hbody.unique hbody' (by omega) heq
  exact ⟨by cases f; cases f'; simp_all, rfl⟩

/-- No bytes encode two messages. -/
theorem Encodes.unique {fields fields' : List Field} (h : Encodes groups fields e)
    (h' : Encodes groups fields' e) : fields = fields' := by
  generalize heq : e = e' at h'
  induction h generalizing fields' e' with
  | nil =>
    cases h' with
    | nil => rfl
    | cons hf => exact absurd (List.append_eq_nil_iff.mp heq.symm).1 hf.ne_nil
  | cons hf _ ih =>
    cases h' with
    | nil => exact absurd (List.append_eq_nil_iff.mp heq).1 hf.ne_nil
    | cons hf' h' =>
      obtain ⟨rfl, rfl⟩ := hf.unique hf' heq
      rw [ih _ rfl h']

end Protobuf

end Concurrent
