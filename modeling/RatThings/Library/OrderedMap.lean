import Mathlib.Data.List.Nodup

/-!
# Objects as ordered maps

A JavaScript object used as a dictionary keeps its keys in the order of their first insertion, and
assigning to a key it already has leaves that key where it is. An `OrderedMap` is such a dictionary:
its entries, each key once. The order matters wherever a program iterates over the entries; a table
with a primary key is a dictionary whose order nobody sees.
-/

namespace Concurrent

/-- A dictionary in insertion order. -/
structure OrderedMap (K V : Type) where
  entries : List (K × V)
  nodup : (entries.map Prod.fst).Nodup
deriving DecidableEq, Repr

namespace OrderedMap

variable {K V W : Type}

/-- The empty dictionary. -/
def empty : OrderedMap K V := ⟨[], List.nodup_nil⟩

@[simp] theorem entries_empty : (empty : OrderedMap K V).entries = [] := rfl

theorem ext {m m' : OrderedMap K V} (h : m.entries = m'.entries) : m = m' := by
  cases m
  cases m'
  cases h
  rfl

/-- Apply a function to every value. -/
def mapValues (f : K → V → W) (m : OrderedMap K V) : OrderedMap K W :=
  ⟨m.entries.map fun e ↦ (e.1, f e.1 e.2), by simpa [Function.comp_def] using m.nodup⟩

@[simp] theorem entries_mapValues (f : K → V → W) (m : OrderedMap K V) :
    (m.mapValues f).entries = m.entries.map fun e ↦ (e.1, f e.1 e.2) := rfl

theorem mapValues_id (m : OrderedMap K V) : m.mapValues (fun _ v ↦ v) = m := ext (List.map_id' _)

variable [DecidableEq K]

/-- `m[k]`. -/
def get? (m : OrderedMap K V) (k : K) : Option V :=
  (m.entries.find? fun e ↦ e.1 = k).map Prod.snd

theorem get?_eq_some {m : OrderedMap K V} {k : K} {v : V} :
    m.get? k = some v ↔ (k, v) ∈ m.entries := by
  constructor
  · intro h
    obtain ⟨⟨k', v'⟩, he, rfl⟩ := Option.map_eq_some_iff.mp h
    have hk : k' = k := by simpa using List.find?_some he
    exact hk ▸ List.mem_of_find?_eq_some he
  · intro h
    have hex : ∃ e ∈ m.entries, decide (e.1 = k) = true := ⟨(k, v), h, by simp⟩
    obtain ⟨⟨k', v'⟩, he⟩ := Option.isSome_iff_exists.mp (List.find?_isSome.mpr hex)
    have hk : k' = k := by simpa using List.find?_some he
    subst hk
    have hv : (k', v') = (k', v) :=
      List.inj_on_of_nodup_map m.nodup (List.mem_of_find?_eq_some he) h rfl
    rw [get?, he, Option.map_some, (Prod.mk.inj hv).2]

theorem get?_eq_none {m : OrderedMap K V} {k : K} :
    m.get? k = none ↔ k ∉ m.entries.map Prod.fst := by
  rw [Option.eq_none_iff_forall_ne_some]
  constructor
  · intro h hk
    obtain ⟨⟨k', v⟩, he, rfl⟩ := List.mem_map.mp hk
    exact h v (get?_eq_some.mpr he)
  · intro h v hv
    exact h (List.mem_map.mpr ⟨(k, v), get?_eq_some.mp hv, rfl⟩)

/-- `{ ...m, [k]: v }`. -/
def set (m : OrderedMap K V) (k : K) (v : V) : OrderedMap K V :=
  if h : k ∈ m.entries.map Prod.fst then m.mapValues fun k' v' ↦ if k' = k then v else v'
  else ⟨m.entries ++ [(k, v)], by
    rw [List.map_append, List.nodup_append]
    refine ⟨m.nodup, List.nodup_singleton k, fun a ha b hb hab ↦ h ?_⟩
    rwa [hab, List.mem_singleton.mp hb] at ha⟩

/-- Assigning to a new key appends it. -/
theorem entries_set_of_get?_eq_none {m : OrderedMap K V} {k : K} (h : m.get? k = none) (v : V) :
    (m.set k v).entries = m.entries ++ [(k, v)] := by
  rw [set, dif_neg (get?_eq_none.mp h)]

/-- Assigning to a key that is there changes its value in place. -/
theorem set_eq_mapValues {m : OrderedMap K V} {k : K} {w : V} (h : m.get? k = some w) (v : V) :
    m.set k v = m.mapValues fun k' v' ↦ if k' = k then v else v' := by
  have hk : k ∈ m.entries.map Prod.fst := List.mem_map.mpr ⟨(k, w), get?_eq_some.mp h, rfl⟩
  rw [set, dif_pos hk]

theorem get?_mapValues (m : OrderedMap K V) (f : K → V → W) (k : K) :
    (m.mapValues f).get? k = (m.get? k).map (f k) := by
  cases h : m.get? k with
  | none =>
    rw [Option.map_none, get?_eq_none]
    rw [get?_eq_none] at h
    simpa using h
  | some v =>
    rw [get?_eq_some] at h
    exact get?_eq_some.mpr (List.mem_map.mpr ⟨(k, v), h, rfl⟩)

@[simp] theorem get?_set_self (m : OrderedMap K V) (k : K) (v : V) : (m.set k v).get? k =
    some v := by
  cases h : m.get? k with
  | none => exact get?_eq_some.mpr (by simp [entries_set_of_get?_eq_none h])
  | some w => simp [set_eq_mapValues h, get?_mapValues, h]

theorem get?_set_of_ne (m : OrderedMap K V) {k k' : K} (hne : k' ≠ k) (v : V) :
    (m.set k v).get? k' = m.get? k' := by
  cases h : m.get? k with
  | some w => simp [set_eq_mapValues h, get?_mapValues, hne]
  | none =>
    refine Option.ext fun w ↦ ?_
    rw [get?_eq_some, get?_eq_some, entries_set_of_get?_eq_none h]
    simp [hne]

/-- `new Map(entries)` -/
def ofList (entries : List (K × V)) : OrderedMap K V :=
  entries.foldl (fun m e ↦ m.set e.1 e.2) empty

theorem get?_foldl_set_of_notMem {entries : List (K × V)} {m : OrderedMap K V} {k : K}
    (h : k ∉ entries.map Prod.fst) :
    (entries.foldl (fun m e ↦ m.set e.1 e.2) m).get? k = m.get? k := by
  induction entries generalizing m with
  | nil => rfl
  | cons e entries ih =>
    rw [List.map_cons, List.mem_cons, not_or] at h
    rw [List.foldl_cons, ih h.2, get?_set_of_ne m h.1]

theorem get?_foldl_set {entries : List (K × V)} (hnodup : (entries.map Prod.fst).Nodup)
    {m : OrderedMap K V} {k : K} {v : V} (h : (k, v) ∈ entries) :
    (entries.foldl (fun m e ↦ m.set e.1 e.2) m).get? k = some v := by
  induction entries generalizing m with
  | nil => cases h
  | cons e entries ih =>
    rw [List.map_cons, List.nodup_cons] at hnodup
    rcases List.mem_cons.mp h with rfl | h
    · rw [List.foldl_cons, get?_foldl_set_of_notMem hnodup.1, get?_set_self]
    · exact ih hnodup.2 h

/-- Among entries with different keys, the dictionary has each. -/
theorem get?_ofList {entries : List (K × V)} (hnodup : (entries.map Prod.fst).Nodup) {k : K}
    {v : V} (h : (k, v) ∈ entries) : (ofList entries).get? k = some v :=
  get?_foldl_set hnodup h

/-- A dictionary made of entries has nothing else. -/
theorem mem_entries_foldl_set {entries : List (K × V)} {m : OrderedMap K V} {entry : K × V}
    (h : entry ∈ (entries.foldl (fun m e ↦ m.set e.1 e.2) m).entries) :
    entry ∈ entries ∨ entry ∈ m.entries := by
  induction entries generalizing m with
  | nil => exact .inr h
  | cons e entries ih =>
    rcases ih h with hmem | hmem
    · exact .inl (List.mem_cons_of_mem e hmem)
    · have hget := get?_eq_some.mpr hmem
      by_cases hkey : entry.1 = e.1
      · rw [hkey, get?_set_self] at hget
        exact .inl (List.mem_cons.mpr (.inl (Prod.ext hkey (Option.some.inj hget).symm)))
      · rw [get?_set_of_ne m hkey] at hget
        exact .inr (get?_eq_some.mp hget)

theorem mem_entries_ofList {entries : List (K × V)} {entry : K × V}
    (h : entry ∈ (ofList entries).entries) : entry ∈ entries :=
  (mem_entries_foldl_set h).resolve_right List.not_mem_nil

/-- Among entries whose keys may repeat, the dictionary still has a value for each key. -/
theorem exists_get?_foldl_set {entries : List (K × V)} {m : OrderedMap K V} {k : K}
    (h : k ∈ entries.map Prod.fst ∨ ∃ v, m.get? k = some v) :
    ∃ v, (entries.foldl (fun m e ↦ m.set e.1 e.2) m).get? k = some v := by
  induction entries generalizing m with
  | nil => exact h.resolve_left List.not_mem_nil
  | cons e entries ih =>
    rw [List.foldl_cons]
    apply ih
    by_cases hkey : k = e.1
    · exact .inr ⟨e.2, hkey ▸ get?_set_self m e.1 e.2⟩
    · rw [get?_set_of_ne m hkey]
      exact h.imp_left fun hmem ↦ (List.mem_cons.mp hmem).resolve_left hkey

theorem exists_get?_ofList {entries : List (K × V)} {k : K} (h : k ∈ entries.map Prod.fst) :
    ∃ v, (ofList entries).get? k = some v := exists_get?_foldl_set (.inl h)

theorem entries_foldl_set {entries : List (K × V)} {m : OrderedMap K V}
    (hnodup : (m.entries.map Prod.fst ++ entries.map Prod.fst).Nodup) :
    (entries.foldl (fun m e ↦ m.set e.1 e.2) m).entries = m.entries ++ entries := by
  induction entries generalizing m with
  | nil => exact (List.append_nil _).symm
  | cons e entries ih =>
    rw [List.map_cons] at hnodup
    have hnew : m.get? e.1 = none :=
      get?_eq_none.mpr fun hmem ↦
        (List.nodup_append.mp hnodup).2.2 e.1 hmem e.1 List.mem_cons_self rfl
    have hset := entries_set_of_get?_eq_none hnew e.2
    rw [List.foldl_cons, ih, hset, List.append_assoc]
    · rfl
    · rw [hset, List.map_append, List.append_assoc]
      exact hnodup

/-- Entries with different keys are the entries of their dictionary. -/
theorem entries_ofList {entries : List (K × V)} (hnodup : (entries.map Prod.fst).Nodup) :
    (ofList entries).entries = entries := entries_foldl_set hnodup

/-- Assigning moves no key. -/
theorem keys_isPrefix_set (m : OrderedMap K V) (k : K) (v : V) :
    m.entries.map Prod.fst <+: (m.set k v).entries.map Prod.fst := by
  cases h : m.get? k with
  | none =>
    rw [entries_set_of_get?_eq_none h, List.map_append]
    exact List.prefix_append _ _
  | some w =>
    rw [set_eq_mapValues h, entries_mapValues, List.map_map]
    exact List.prefix_refl _

/-- Assigning to a key adds no other key. -/
theorem mem_keys_set {m : OrderedMap K V} {k k' : K} {v : V}
    (h : k' ∈ (m.set k v).entries.map Prod.fst) : k' = k ∨ k' ∈ m.entries.map Prod.fst := by
  by_cases hne : k' = k
  · exact .inl hne
  · right
    by_contra hnot
    rw [← get?_eq_none, ← get?_set_of_ne m hne v, get?_eq_none] at hnot
    exact hnot h

/-- `delete m[k]`. -/
def erase (m : OrderedMap K V) (k : K) : OrderedMap K V :=
  ⟨m.entries.filter fun e ↦ e.1 ≠ k, m.nodup.sublist (List.filter_sublist.map _)⟩

@[simp] theorem get?_erase_self (m : OrderedMap K V) (k : K) : (m.erase k).get? k = none := by
  rw [get?_eq_none]
  simp [erase]

theorem get?_erase_of_ne (m : OrderedMap K V) {k k' : K} (hne : k' ≠ k) :
    (m.erase k).get? k' = m.get? k' := by
  refine Option.ext fun w ↦ ?_
  rw [get?_eq_some, get?_eq_some]
  simp [erase, hne]

end OrderedMap

end Concurrent
