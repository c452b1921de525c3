import RatThings.Library.JsonText
import RatThings.Library.Listing

/-!
# Canonical JSON

`canonicalJson` prints a value with the members of every object in the order of their names, and
leaves out members that are `undefined`. The text can be read, and gives the value with its members
sorted and without the missing ones. So two values have one text exactly if they have the same
members everywhere: that the text is read back makes it tell values apart, and that the names are
sorted makes it tell nothing else apart.

## The two directions

`normal` is the value with its members sorted and without the missing ones. That the reader of the
library gives `normal value` back from the text of `value` (`reads_canonicalData`) is proved by
induction on the value, with a bound on how deep the reader goes; the names need not be well-formed
text for it. The other direction is that `normal` of two values is the same when the values are,
where `Same` does not mind the order of members: a sorted list is determined by what is in it.

Numbers are doubles. They are printed as the language prints them, so that a text determines its
number, and zero has one text for both of its signs.
-/

namespace RatThings.Domain

open Concurrent Data Utf16

open Double (unit)

/-! ## The function -/

/-- Names are compared unit by unit. -/
def unitsOf {α : Type} (member : Utf16 × α) : List ℕ := member.1.map UInt16.toNat

mutual

/-- `canonicalJson` of a value that is not `undefined`. -/
@[grind =]
def canonicalData : Data → Utf16
  | .null => ascii ['n', 'u', 'l', 'l']
  | .bool true => ascii ['t', 'r', 'u', 'e']
  | .bool false => ascii ['f', 'a', 'l', 's', 'e']
  | .number value => value.text
  | .string text => stringify text
  | .array items => unit '[' :: (joined (canonicalItems items) ++ [unit ']'])
  | .object members =>
    unit '\x7b' :: (joined ((sortBy true unitsOf (canonicalMembers members)).map
      fun member ↦ memberText member.1 member.2) ++ [unit '\x7d'])

@[grind =]
def canonicalItems : List Data → List Utf16
  | [] => []
  | item :: items => canonicalData item :: canonicalItems items

/-- The names of the members that are not `undefined`, each with the text of its value. -/
@[grind =]
def canonicalMembers : List (Utf16 × Option Data) → List (Utf16 × Utf16)
  | [] => []
  | (_, none) :: members => canonicalMembers members
  | (key, some value) :: members => (key, canonicalData value) :: canonicalMembers members

end

def canonicalJson : Option Data → Utf16
  | none => ascii ['n', 'u', 'l', 'l']
  | some value => canonicalData value

/-! ## Values

A value as it is given may have members that are `undefined`. A name occurs once in an object. -/

mutual

/-- No object has two members of one name. -/
@[grind =]
def WellFormed : Data → Prop
  | .null | .bool _ | .number _ | .string _ => True
  | .array items => WellFormedItems items
  | .object members => (members.map Prod.fst).Nodup ∧ WellFormedMembers members

@[grind =]
def WellFormedItems : List Data → Prop
  | [] => True
  | item :: items => WellFormed item ∧ WellFormedItems items

@[grind =]
def WellFormedMembers : List (Utf16 × Option Data) → Prop
  | [] => True
  | (_, none) :: members => WellFormedMembers members
  | (_, some value) :: members => WellFormed value ∧ WellFormedMembers members

end

/-- A JSON value, whose objects have each of their members once. -/
abbrev JsonData := { value : Data // WellFormed value }

mutual

/-- Equality up to the order of members, members that are `undefined` and the sign of zero. -/
@[grind =]
def Same : Data → Data → Prop
  | .null, other => other = .null
  | .bool value, other => other = .bool value
  | .number value, other => ∃ value', other = .number value' ∧ value.value = value'.value
  | .string text, other => other = .string text
  | .array items, other => ∃ items', other = .array items' ∧ SameItems items items'
  | .object members, other => ∃ members', other = .object members' ∧ SameMembers members members' ∧
      ∀ member ∈ present members', ∃ value, (member.1, some value) ∈ members

@[grind =]
def SameItems : List Data → List Data → Prop
  | [], others => others = []
  | item :: items, others => ∃ item' items', others = item' :: items' ∧ Same item item' ∧
      SameItems items items'

/-- Every member that has a value has the same value in the other object. -/
@[grind =]
def SameMembers : List (Utf16 × Option Data) → List (Utf16 × Option Data) → Prop
  | [], _ => True
  | (_, none) :: members, others => SameMembers members others
  | (key, some value) :: members, others =>
    (∃ value', (key, some value') ∈ others ∧ Same value value') ∧ SameMembers members others

end

mutual

/-- The value that the text of a value is read as. -/
@[grind =]
def normal : Data → Data
  | .null => .null
  | .bool value => .bool value
  | .number value => .number value.unsignZero
  | .string text => .string text
  | .array items => .array (normalItems items)
  | .object members => .object ((sortBy true unitsOf (normalMembers members)).map
      fun member ↦ (member.1, some member.2))

@[grind =]
def normalItems : List Data → List Data
  | [] => []
  | item :: items => normal item :: normalItems items

@[grind =]
def normalMembers : List (Utf16 × Option Data) → List (Utf16 × Data)
  | [] => []
  | (_, none) :: members => normalMembers members
  | (key, some value) :: members => (key, normal value) :: normalMembers members

end

/-! ## Parts -/

variable {items : List Data} {members members' : List (Utf16 × Option Data)}

theorem present_cons (key : Utf16) (value : Data) :
    present ((key, some value) :: members) = (key, value) :: present members := rfl

theorem canonicalItems_eq (items : List Data) : canonicalItems items = items.map canonicalData := by
  induction items with
  | nil => rfl
  | cons item items ih => rw [canonicalItems, ih, List.map_cons]

theorem canonicalMembers_eq (members : List (Utf16 × Option Data)) :
    canonicalMembers members =
      (present members).map fun member ↦ (member.1, canonicalData member.2) := by
  induction members with
  | nil => rfl
  | cons member members ih =>
    rcases member with ⟨key, _ | value⟩
    · rw [canonicalMembers, ih]
      rfl
    · rw [canonicalMembers, ih]
      rfl

theorem normalItems_eq (items : List Data) : normalItems items = items.map normal := by
  induction items with
  | nil => rfl
  | cons item items ih => rw [normalItems, ih, List.map_cons]

theorem normalMembers_eq (members : List (Utf16 × Option Data)) :
    normalMembers members = (present members).map fun member ↦ (member.1, normal member.2) := by
  induction members with
  | nil => rfl
  | cons member members ih =>
    rcases member with ⟨key, _ | value⟩
    · rw [normalMembers, ih]
      rfl
    · rw [normalMembers, ih]
      rfl

theorem wellFormedItems_iff : WellFormedItems items ↔ ∀ item ∈ items, WellFormed item := by
  induction items with
  | nil => simp [WellFormedItems]
  | cons item items ih => rw [WellFormedItems, ih, List.forall_mem_cons]

theorem wellFormedMembers_iff :
    WellFormedMembers members ↔ ∀ member ∈ present members, WellFormed member.2 := by
  induction members with
  | nil => simp [WellFormedMembers, present]
  | cons member members ih =>
    rcases member with ⟨key, _ | value⟩
    · rw [WellFormedMembers, ih]
      rfl
    · rw [WellFormedMembers, ih, present_cons, List.forall_mem_cons]

theorem sameItems_iff {others : List Data} :
    SameItems items others ↔ List.Forall₂ Same items others := by
  induction items generalizing others with
  | nil => rw [SameItems, List.forall₂_nil_left_iff]
  | cons item items ih =>
    rw [SameItems, List.forall₂_cons_left_iff]
    constructor
    · rintro ⟨item', items', rfl, hsame, hrest⟩
      exact ⟨item', items', hsame, ih.mp hrest, rfl⟩
    · rintro ⟨item', items', hsame, hrest, rfl⟩
      exact ⟨item', items', rfl, hsame, ih.mpr hrest⟩

theorem sameMembers_iff : SameMembers members members' ↔ ∀ member ∈ present members,
    ∃ value, (member.1, some value) ∈ members' ∧ Same member.2 value := by
  induction members with
  | nil => simp [SameMembers, present]
  | cons member members ih =>
    rcases member with ⟨key, _ | value⟩
    · rw [SameMembers, ih]
      rfl
    · rw [SameMembers, ih, present_cons, List.forall_mem_cons]

/-! ## Sorting

Sorting by names commutes with what is done to the values of members. -/

/-- Sorting looks at the names only. -/
theorem map_sortBy_unitsOf {α β : Type} (f : α → β) (l : List (Utf16 × α)) :
    (sortBy true unitsOf l).map (fun member ↦ (member.1, f member.2)) =
      sortBy true unitsOf (l.map fun member ↦ (member.1, f member.2)) :=
  List.map_insertionSort _ _ _ l fun _ _ _ _ ↦ Iff.rfl

theorem map_toNat_injective : Function.Injective (List.map UInt16.toNat) :=
  List.map_injective_iff.mpr fun _ _ h ↦ UInt16.toNat_inj.mp h

theorem nodup_present (h : (members.map Prod.fst).Nodup) :
    ((present members).map Prod.fst).Nodup := by
  have hsub : List.Sublist ((present members).map Prod.fst) (members.map Prod.fst) := by
    induction members with
    | nil => exact .slnil
    | cons member members ih =>
      rw [List.map_cons, List.nodup_cons] at h
      rcases member with ⟨key, _ | value⟩
      · exact (ih h.2).cons _
      · exact (ih h.2).cons_cons _
  exact h.sublist hsub

/-- Members with different names are sorted alike if they are the same. -/
theorem sortBy_eq {α : Type} {l l' : List (Utf16 × α)} (hl : (l.map Prod.fst).Nodup)
    (hl' : (l'.map Prod.fst).Nodup) (hmem : ∀ member, member ∈ l' ↔ member ∈ l) :
    sortBy true unitsOf l = sortBy true unitsOf l' := by
  have hunits : ∀ {l : List (Utf16 × α)}, (l.map Prod.fst).Nodup → (l.map unitsOf).Nodup := by
    intro l hl
    have hmap : l.map unitsOf = (l.map Prod.fst).map (List.map UInt16.toNat) := by
      rw [List.map_map]
      rfl
    rw [hmap]
    exact hl.map map_toNat_injective
  have hsame : (sortBy true unitsOf l).map id = sortBy true unitsOf l' :=
    map_sortBy (hunits hl) (hunits hl') (fun member ↦ by simpa using hmem member)
      fun _ _ _ _ ↦ Iff.rfl
  rwa [List.map_id] at hsame

/-! ## The text is read back

A value ends where a unit follows that continues no number, which is what stands behind the value of
a member or an item. -/

/-- A value begins with a unit that is no blank and closes nothing. -/
theorem head_canonicalData (value : Data) : ∃ u tail, canonicalData value = u :: tail ∧
    Data.isBlank u = false ∧ u ≠ unit ']' := by
  rcases value with _ | _ | value | _ | _ | _
  · exact ⟨_, _, rfl, by decide, by decide⟩
  · rename_i value
    rcases value with _ | _
    · exact ⟨_, _, rfl, by decide, by decide⟩
    · exact ⟨_, _, rfl, by decide, by decide⟩
  · obtain ⟨u, tail, htext⟩ := List.exists_cons_of_ne_nil value.text_ne_nil
    have hu : Double.isNumberUnit u = true :=
      Double.isNumberUnit_text (htext ▸ List.mem_cons_self)
    exact ⟨u, tail, htext, isBlank_of_number hu, not_blank_of_number hu rfl⟩
  · exact ⟨_, _, rfl, by decide, by decide⟩
  · exact ⟨_, _, rfl, by decide, by decide⟩
  · exact ⟨_, _, rfl, by decide, by decide⟩

theorem canonicalData_object (members : List (Utf16 × Option Data)) :
    canonicalData (.object members) = unit '\x7b' ::
      (joined (((sortBy true unitsOf (present members)).map fun member ↦
        (member.1, canonicalData member.2)).map fun member ↦ memberText member.1 member.2) ++
          [unit '\x7d']) := by
  rw [canonicalData, canonicalMembers_eq, map_sortBy_unitsOf]

theorem normal_object (members : List (Utf16 × Option Data)) :
    normal (.object members) = .object (((sortBy true unitsOf (present members)).map fun member ↦
      (member.1, normal member.2)).map fun member ↦ (member.1, some member.2)) := by
  rw [normal, normalMembers_eq, ← map_sortBy_unitsOf normal]

theorem nodup_sortBy {α : Type} {l : List (Utf16 × α)} (h : (l.map Prod.fst).Nodup) :
    ((sortBy true unitsOf l).map Prod.fst).Nodup :=
  ((List.perm_insertionSort _ l).map Prod.fst).nodup_iff.mpr h

/-- **A value is read as it was printed**, if the reader may go as deep as the text is long. -/
theorem reads_canonicalData (value : Data) : WellFormed value → ∀ fuel : ℕ,
    (canonicalData value).length ≤ fuel →
      Reads (parseValue fuel) (canonicalData value) (normal value) := by
  induction value using Data.induction with
  | hnull =>
    intro _ fuel hfuel rest _
    obtain ⟨fuel, rfl⟩ := Nat.exists_eq_succ_of_ne_zero (Nat.ne_zero_of_lt hfuel)
    rw [canonicalData, normal]
    rfl
  | hbool value =>
    intro _ fuel hfuel rest _
    rcases value with _ | _
    · obtain ⟨fuel, rfl⟩ := Nat.exists_eq_succ_of_ne_zero (Nat.ne_zero_of_lt hfuel)
      rw [canonicalData, normal]
      rfl
    · obtain ⟨fuel, rfl⟩ := Nat.exists_eq_succ_of_ne_zero (Nat.ne_zero_of_lt hfuel)
      rw [canonicalData, normal]
      rfl
  | hnumber value =>
    intro _ fuel hfuel rest hrest
    rw [canonicalData] at hfuel ⊢
    have hpos := List.length_pos_of_ne_nil value.text_ne_nil
    obtain ⟨fuel, rfl⟩ := Nat.exists_eq_succ_of_ne_zero (Nat.ne_zero_of_lt (hpos.trans_le hfuel))
    rw [normal]
    exact parseValue_number value hrest
  | hstring text =>
    intro _ fuel hfuel rest _
    rw [canonicalData] at hfuel ⊢
    obtain ⟨fuel, rfl⟩ := Nat.exists_eq_succ_of_ne_zero (Nat.ne_zero_of_lt hfuel)
    rw [normal]
    exact parseValue_string text rest
  | harray items ih =>
    intro hwell fuel hfuel rest _
    rw [WellFormed, wellFormedItems_iff] at hwell
    rw [canonicalData, canonicalItems_eq] at hfuel ⊢
    obtain ⟨fuel, rfl⟩ := Nat.exists_eq_succ_of_ne_zero (Nat.ne_zero_of_lt hfuel)
    rw [List.length_cons, List.length_append] at hfuel
    -- An item is shorter than its array, so the fuel is enough for each.
    have hitems : List.Forall₂ (Reads (parseValue fuel)) (items.map canonicalData)
        (items.map normal) := by
      rw [List.forall₂_map_left_iff, List.forall₂_map_right_iff, List.forall₂_same]
      intro item hitem
      have hle := length_le_joined (List.mem_map_of_mem (f := canonicalData) hitem)
      exact ih item hitem (hwell item hitem) fuel (by omega)
    rw [normal, normalItems_eq, List.cons_append, List.append_assoc]
    refine parseValue_array hitems fun text htext ↦ ?_
    obtain ⟨item, -, rfl⟩ := List.mem_map.mp htext
    exact head_canonicalData item
  | hobject members ih =>
    intro hwell fuel hfuel rest _
    rw [WellFormed, wellFormedMembers_iff] at hwell
    obtain ⟨hnodup, hwell⟩ := hwell
    rw [canonicalData_object] at hfuel ⊢
    obtain ⟨fuel, rfl⟩ := Nat.exists_eq_succ_of_ne_zero (Nat.ne_zero_of_lt hfuel)
    rw [List.length_cons, List.length_append] at hfuel
    rw [normal_object, List.cons_append, List.append_assoc]
    refine parseValue_object ?_ ?_
    · -- Sorting keeps the names apart, and only members that have a value are printed.
      rw [List.map_map]
      exact nodup_sortBy (nodup_present hnodup)
    · rw [List.forall₂_map_left_iff, List.forall₂_map_right_iff, List.forall₂_same]
      intro member hmember
      have hpresent : member ∈ present members := mem_sortBy.mp hmember
      have hle := length_le_joined (List.mem_map_of_mem
        (f := fun member : Utf16 × Utf16 ↦ memberText member.1 member.2)
        (List.mem_map_of_mem (f := fun member ↦ (member.1, canonicalData member.2)) hmember))
      rw [memberText, List.length_append, List.length_cons] at hle
      dsimp only at hle
      exact ⟨rfl, ih member hpresent (hwell member hpresent) fuel (by omega)⟩

/-- The text of a value is a whole JSON text. -/
theorem parse_canonicalData {value : Data} (h : WellFormed value) :
    parse (canonicalData value) = some (normal value) := by
  have hread := reads_canonicalData value h ((canonicalData value).length + 1) (Nat.le_succ _) []
    (fun _ hhead ↦ nomatch hhead)
  rw [List.append_nil] at hread
  rw [parse, hread]
  rfl

/-! ## One text for what is the same

Both values are normalized, and what is the same becomes equal. -/

theorem same_array {others : Data} : Same (.array items) others ↔
    ∃ items', others = .array items' ∧ List.Forall₂ Same items items' := by
  simp only [Same, sameItems_iff]

theorem same_object {other : Data} : Same (.object members) other ↔ ∃ members',
    other = .object members' ∧
      (∀ member ∈ present members, ∃ value, (member.1, value) ∈ present members' ∧
        Same member.2 value) ∧
      ∀ member ∈ present members', ∃ value, (member.1, value) ∈ present members := by
  simp only [Same, sameMembers_iff, mem_present]

/-- A value is the same as what its text is read as. -/
theorem same_normal (value : Data) : Same value (normal value) := by
  induction value using Data.induction with
  | hnull | hbool | hstring => rw [Same, normal]
  | hnumber value =>
    rw [Same, normal]
    exact ⟨_, rfl, value.value_unsignZero.symm⟩
  | harray items ih =>
    rw [same_array, normal, normalItems_eq]
    refine ⟨_, rfl, ?_⟩
    rw [List.forall₂_map_right_iff, List.forall₂_same]
    exact ih
  | hobject members ih =>
    rw [same_object, normal_object]
    refine ⟨_, rfl, fun member hmember ↦ ⟨normal member.2, ?_, ih member hmember⟩, ?_⟩
    · rw [mem_present, List.map_map]
      exact List.mem_map_of_mem (mem_sortBy.mpr hmember)
    · intro member hmember
      rw [← Prod.eta member, mem_present, List.map_map] at hmember
      obtain ⟨source, hsource, heq⟩ := List.mem_map.mp hmember
      exact ⟨source.2, (Prod.mk.inj heq).1 ▸ mem_sortBy.mp hsource⟩

theorem eq_of_mem_present {key : Utf16} {value value' : Data}
    (hnodup : (members.map Prod.fst).Nodup)
    (h : (key, value) ∈ present members) (h' : (key, value') ∈ present members) : value = value' :=
  (Prod.mk.inj (List.inj_on_of_nodup_map (nodup_present hnodup) h h' rfl)).2

theorem mem_of_map_sortBy_eq {α β : Type} {f : α → β} {l l' : List (Utf16 × α)}
    (h : (sortBy true unitsOf l).map (fun member ↦ (member.1, f member.2)) =
      (sortBy true unitsOf l').map fun member ↦ (member.1, f member.2))
    {member : Utf16 × α} (hmember : member ∈ l) :
    ∃ value, (member.1, value) ∈ l' ∧ f member.2 = f value := by
  have hsorted : member ∈ sortBy true unitsOf l := mem_sortBy.mpr hmember
  have hmem := List.mem_map_of_mem (f := fun member : Utf16 × α ↦ (member.1, f member.2)) hsorted
  rw [h] at hmem
  obtain ⟨⟨key, value⟩, hvalue, heq⟩ := List.mem_map.mp hmem
  obtain ⟨rfl, heq⟩ := Prod.mk.inj heq
  exact ⟨value, mem_sortBy.mp hvalue, heq.symm⟩

theorem forall₂_of_map_eq {α β γ : Type} {f : α → γ} {g : β → γ} {R : α → β → Prop} {l : List α}
    {l' : List β} (h : l.map f = l'.map g) (hR : ∀ a ∈ l, ∀ b, f a = g b → R a b) :
    List.Forall₂ R l l' := by
  induction l generalizing l' with
  | nil =>
    obtain rfl := List.map_eq_nil_iff.mp h.symm
    exact .nil
  | cons a l ih =>
    obtain ⟨b, l', rfl, hhead, htail⟩ := List.map_eq_cons_iff.mp h.symm
    exact .cons (hR a List.mem_cons_self b hhead.symm)
      (ih htail.symm fun a ha ↦ hR a (List.mem_cons_of_mem _ ha))

theorem map_eq_of_forall₂ {α β γ : Type} {f : α → γ} {g : β → γ} {R : α → β → Prop} {l : List α}
    {l' : List β} (h : List.Forall₂ R l l') (hR : ∀ a ∈ l, ∀ b ∈ l', R a b → f a = g b) :
    l.map f = l'.map g := by
  induction h with
  | nil => rfl
  | @cons a b l l' hhead _ ih =>
    rw [List.map_cons, List.map_cons, hR a List.mem_cons_self b List.mem_cons_self hhead,
      ih fun a ha b hb ↦ hR a (List.mem_cons_of_mem _ ha) b (List.mem_cons_of_mem _ hb)]

/-- What is read alike is the same. -/
theorem same_of_normal_eq (value : Data) :
    ∀ other : Data, normal value = normal other → Same value other := by
  induction value using Data.induction with
  | hnull | hbool | hstring =>
    intro other h
    rcases other with _ | _ | _ | _ | _ | _ <;> simp_all [normal, Same]
  | hnumber value =>
    intro other h
    rcases other with _ | _ | value' | _ | _ | _ <;> simp only [normal, reduceCtorEq] at h
    rw [Same]
    exact ⟨value', rfl, Double.value_eq_iff.mpr (Data.number.inj h)⟩
  | harray items ih =>
    intro other h
    rcases other with _ | _ | _ | _ | items' | _ <;> simp only [normal, reduceCtorEq] at h
    rw [normalItems_eq, normalItems_eq] at h
    rw [same_array]
    exact ⟨items', rfl, forall₂_of_map_eq (Data.array.inj h) ih⟩
  | hobject members ih =>
    intro other h
    rcases other with _ | _ | _ | _ | _ | members' <;> simp only [normal, reduceCtorEq] at h
    rw [normalMembers_eq, normalMembers_eq, ← map_sortBy_unitsOf normal,
      ← map_sortBy_unitsOf normal] at h
    have hmap : (sortBy true unitsOf (present members)).map
        (fun member ↦ (member.1, (some ∘ normal) member.2)) =
          (sortBy true unitsOf (present members')).map
            fun member ↦ (member.1, (some ∘ normal) member.2) := by
      have hobject := Data.object.inj h
      rw [List.map_map, List.map_map] at hobject
      exact hobject
    rw [same_object]
    refine ⟨members', rfl, fun member hmember ↦ ?_, fun member hmember ↦ ?_⟩
    · obtain ⟨value, hvalue, heq⟩ := mem_of_map_sortBy_eq hmap hmember
      exact ⟨value, hvalue, ih member hmember value (Option.some.inj heq)⟩
    · obtain ⟨value, hvalue, -⟩ := mem_of_map_sortBy_eq hmap.symm hmember
      exact ⟨value, hvalue⟩

/-- **What is the same has one text.** -/
theorem canonicalData_eq_of_same (value : Data) : WellFormed value → ∀ other : Data,
    WellFormed other → Same value other → canonicalData value = canonicalData other := by
  induction value using Data.induction with
  | hnull | hbool | hstring =>
    intro _ other _ h
    rw [Same] at h
    rw [h]
  | hnumber value =>
    intro _ other _ h
    rw [Same] at h
    obtain ⟨value', rfl, hvalue⟩ := h
    rw [canonicalData, canonicalData, ← value.text_unsignZero, Double.value_eq_iff.mp hvalue,
      value'.text_unsignZero]
  | harray items ih =>
    intro hwell other hwell' h
    obtain ⟨items', rfl, hitems⟩ := same_array.mp h
    rw [WellFormed, wellFormedItems_iff] at hwell hwell'
    rw [canonicalData, canonicalData, canonicalItems_eq, canonicalItems_eq,
      map_eq_of_forall₂ hitems fun a ha b hb ↦ ih a ha (hwell a ha) b (hwell' b hb)]
  | hobject members ih =>
    intro hwell other hwell' h
    obtain ⟨members', rfl, hleft, hright⟩ := same_object.mp h
    rw [WellFormed, wellFormedMembers_iff] at hwell hwell'
    -- The names and texts of both objects are the same, so they are sorted alike.
    have hmembers : ∀ member, member ∈ canonicalMembers members' ↔
        member ∈ canonicalMembers members := by
      intro member
      rw [canonicalMembers_eq, canonicalMembers_eq, List.mem_map, List.mem_map]
      constructor
      · rintro ⟨⟨key, value'⟩, hvalue', rfl⟩
        obtain ⟨value, hvalue⟩ := hright _ hvalue'
        obtain ⟨value'', hvalue'', hsame⟩ := hleft _ hvalue
        obtain rfl := eq_of_mem_present hwell'.1 hvalue' hvalue''
        refine ⟨(key, value), hvalue, ?_⟩
        rw [ih _ hvalue (hwell.2 _ hvalue) _ (hwell'.2 _ hvalue') hsame]
      · rintro ⟨⟨key, value⟩, hvalue, rfl⟩
        obtain ⟨value', hvalue', hsame⟩ := hleft _ hvalue
        refine ⟨(key, value'), hvalue', ?_⟩
        rw [ih _ hvalue (hwell.2 _ hvalue) _ (hwell'.2 _ hvalue') hsame]
    have hnodup : ∀ {members}, (members.map Prod.fst).Nodup →
        ((canonicalMembers members).map Prod.fst).Nodup := by
      intro members h
      rw [canonicalMembers_eq, List.map_map]
      exact nodup_present h
    rw [canonicalData, canonicalData, sortBy_eq (hnodup hwell.1) (hnodup hwell'.1) hmembers]

/-! ## The text identifies the value -/

/-- **Two values have one text exactly if they are the same**, and the text of a value is read as a
value that is the same. -/
theorem canonicalJson_identifies (value other : JsonData) :
    (canonicalJson (some value.1) = canonicalJson (some other.1) ↔ Same value.1 other.1) ∧
      ∃ again, parse (canonicalJson (some value.1)) = some again ∧ Same value.1 again := by
  refine ⟨⟨fun h ↦ ?_, canonicalData_eq_of_same value.1 value.2 other.1 other.2⟩,
    normal value.1, parse_canonicalData value.2, same_normal value.1⟩
  -- Equal texts are read as one value, so both values have one normal form.
  have hread := parse_canonicalData value.2
  change canonicalData value.1 = canonicalData other.1 at h
  rw [h, parse_canonicalData other.2] at hread
  exact same_of_normal_eq value.1 other.1 (Option.some.inj hread).symm

end RatThings.Domain
