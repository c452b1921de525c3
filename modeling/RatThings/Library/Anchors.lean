import Mathlib.Data.List.Basic
import Mathlib.Data.List.Nodup

/-!
# Items placed after their anchors

A list is to be extended by items that name, each, the item they come after. An anchor may itself be
an item that is still to be placed, so there are two passes: from the back, those whose anchor is
there already; then from the front, the rest.

## What the passes do to a shared anchor

Every item goes directly after its anchor. The first pass meets the later item first, so items of
one anchor end up in their order. The second pass meets the earlier item first, so they end up
reversed.
-/

namespace Concurrent

/-- An item, and the key of the one it comes after. Without one it comes first. -/
structure Anchored (α K : Type) where
  item : α
  after : Option K
  ordinal : ℕ
deriving DecidableEq, Repr

section

variable {α K : Type} [DecidableEq K] (key : α → K)

/-- The list with an item directly after the first one of that key, or else at the front. -/
def spliceAfter (l : List α) (after : Option K) (item : α) : List α :=
  match after.bind fun a ↦ l.findIdx? fun x ↦ key x == a with
  | none => item :: l
  | some index => l.take (index + 1) ++ item :: l.drop (index + 1)

/-- The first pass leaves out an item whose anchor is still to be placed. -/
def placeRooted (entries : List (Anchored α K)) (l : List α) (entry : Anchored α K) : List α :=
  if l.any fun x ↦ key x == key entry.item then l
  else if entry.after.any fun a ↦ !(l.any fun x ↦ key x == a) &&
      entries.any fun other ↦ key other.item == a then l
  else spliceAfter key l entry.after entry.item

def placeChained (l : List α) (entry : Anchored α K) : List α :=
  if l.any fun x ↦ key x == key entry.item then l
  else spliceAfter key l entry.after entry.item

def placeAll (l : List α) (entries : List (Anchored α K)) : List α :=
  entries.foldl (placeChained key) (entries.reverse.foldl (placeRooted key entries) l)

end

/-! ## Order in a list -/

/-- The one comes before the other. -/
def Before {α : Type} (l : List α) (x y : α) : Prop := [x, y].Sublist l

section

variable {α : Type} {l l' l₁ l₂ : List α} {x y z : α}

theorem Before.mono (h : Before l x y) (hl : l.Sublist l') : Before l' x y := h.trans hl

theorem before_cons (h : y ∈ l) : Before (x :: l) x y :=
  List.Sublist.cons_cons x (List.singleton_sublist.mpr h)

theorem before_append (h : y ∈ l₂) : Before (l₁ ++ x :: l₂) x y :=
  (before_cons h).trans (List.sublist_append_right _ _)

/-- What comes after an item stands to its right. -/
theorem Before.mem_right (h : Before (l₁ ++ x :: l₂) x y) (hx : x ∉ l₁) : y ∈ l₂ := by
  obtain ⟨a, b, hab, ha, hb⟩ := List.sublist_append_iff.mp h
  cases a with
  | nil =>
    rw [List.nil_append] at hab
    rw [← hab] at hb
    exact List.singleton_sublist.mp (List.cons_sublist_cons.mp hb)
  | cons c a =>
    obtain ⟨rfl, -⟩ := List.cons_eq_cons.mp hab
    exact absurd (ha.subset List.mem_cons_self) hx

theorem Before.asymm (hnodup : l.Nodup) (h : Before l x y) : ¬Before l y x := by
  intro h'
  obtain ⟨l₁, l₂, rfl⟩ := List.append_of_mem (h.subset List.mem_cons_self)
  obtain ⟨-, hrest, hdisjoint⟩ := List.nodup_append'.mp hnodup
  have hx : x ∉ l₁ := fun hin ↦ hdisjoint hin List.mem_cons_self
  have hy : y ∈ l₂ := h.mem_right hx
  obtain ⟨a, b, hab, ha, hb⟩ := List.sublist_append_iff.mp h'
  cases a with
  | nil =>
    rw [List.nil_append] at hab
    rw [← hab] at hb
    rcases List.sublist_cons_iff.mp hb with hskip | ⟨rest, heq, hrestSub⟩
    · exact (List.nodup_cons.mp hrest).1 (hskip.subset (List.mem_cons_of_mem _ List.mem_cons_self))
    · obtain ⟨rfl, rfl⟩ := List.cons_eq_cons.mp heq
      exact (List.nodup_cons.mp hrest).1 hy
  | cons c a =>
    obtain ⟨rfl, -⟩ := List.cons_eq_cons.mp hab
    exact hdisjoint (ha.subset List.mem_cons_self) (List.mem_cons_of_mem _ hy)

end

/-! ## Splicing -/

section

variable {α K : Type} [DecidableEq K] {key : α → K} {l l₁ l₂ : List α} {after : Option K} {x y : α}

/-- The item goes directly after its anchor. -/
theorem spliceAfter_found (hfirst : ∀ z ∈ l₁, key z ≠ key y) :
    spliceAfter key (l₁ ++ y :: l₂) (some (key y)) x = l₁ ++ y :: x :: l₂ := by
  have hindex : (l₁ ++ y :: l₂).findIdx? (fun z ↦ key z == key y) = some l₁.length := by
    rw [List.findIdx?_append, List.findIdx?_eq_none_iff.mpr fun z hz ↦ by simpa using hfirst z hz,
      List.findIdx?_cons]
    simp
  have htake : l₁.take (l₁.length + 1) = l₁ := List.take_of_length_le (Nat.le_succ _)
  have hdrop : l₁.drop (l₁.length + 1) = [] := List.drop_eq_nil_of_le (Nat.le_succ _)
  rw [spliceAfter, Option.bind_some, hindex]
  simp [List.take_append, List.drop_append, htake, hdrop]

theorem spliceAfter_perm : (spliceAfter key l after x).Perm (x :: l) := by
  unfold spliceAfter
  split
  · exact .refl _
  · next index _ =>
    refine List.perm_middle.trans ?_
    rw [List.take_append_drop]

theorem sublist_spliceAfter : l.Sublist (spliceAfter key l after x) := by
  unfold spliceAfter
  split
  · exact List.sublist_cons_self _ _
  · next index _ =>
    have hparts : (l.take (index + 1) ++ l.drop (index + 1)).Sublist
        (l.take (index + 1) ++ x :: l.drop (index + 1)) :=
      (List.sublist_cons_self _ _).append_left _
    rwa [List.take_append_drop] at hparts

/-- What is not the anchor may stand behind. -/
theorem spliceAfter_append (h : after ≠ some (key y)) :
    spliceAfter key (l ++ [y]) after x = spliceAfter key l after x ++ [y] := by
  cases after with
  | none => rfl
  | some a =>
    have hne : (key y == a) = false := by
      rw [beq_eq_false_iff_ne]
      exact fun heq ↦ h (congrArg some heq.symm)
    simp only [spliceAfter, Option.bind_some, List.findIdx?_append, List.findIdx?_cons, hne,
      List.findIdx?_nil]
    cases hfound : l.findIdx? fun z ↦ key z == a with
    | none => rfl
    | some index =>
      have hlt : index + 1 ≤ l.length := (List.findIdx?_eq_some_iff_getElem.mp hfound).1
      simp [List.take_append_of_le_length hlt, List.drop_append_of_le_length hlt]

end

/-! ## Placing -/

section

variable {α K : Type} [DecidableEq K] {key : α → K} {items : List α}
  {all entries : List (Anchored α K)}

/-- Every item has its own key, and an anchor stands in the list or comes earlier. -/
structure Anchored.Ordered (key : α → K) (items : List α) (all : List (Anchored α K)) : Prop where
  nodup : (items.map key ++ all.map fun entry ↦ key entry.item).Nodup
  earlier : ∀ before entry rest, all = before ++ entry :: rest → ∀ a, entry.after = some a →
    a ∈ items.map key ∨ a ∈ before.map fun entry ↦ key entry.item

/-- The anchor stands in the list from the beginning. -/
def Anchored.Rooted (key : α → K) (items : List α) (entry : Anchored α K) : Prop :=
  ∀ a, entry.after = some a → a ∈ items.map key

instance (entry : Anchored α K) : Decidable (entry.Rooted key items) :=
  decidable_of_iff (∀ a ∈ entry.after, a ∈ items.map key) (by simp [Anchored.Rooted])

theorem any_key {l : List α} {a : K} : (l.any fun x ↦ key x == a) = true ↔ a ∈ l.map key := by
  simp [List.any_eq_true, List.mem_map]

omit [DecidableEq K] in
/-- An item stands at its place, with nothing of its key before it. -/
theorem split_of_mem {l : List α} (hnodup : (l.map key).Nodup) {y : α} (hy : y ∈ l) :
    ∃ l₁ l₂, l = l₁ ++ y :: l₂ ∧ ∀ z ∈ l₁, key z ≠ key y := by
  obtain ⟨l₁, l₂, rfl⟩ := List.append_of_mem hy
  refine ⟨l₁, l₂, rfl, fun z hz heq ↦ ?_⟩
  rw [List.map_append, List.map_cons, List.nodup_append'] at hnodup
  exact hnodup.2.2 (List.mem_map_of_mem hz) (heq ▸ List.mem_cons_self)

/-- An item that is placed after another one stands before all that came after it. -/
theorem before_splice {l : List α} (hnodup : (l.map key).Nodup) {x y z : α} (hy : y ∈ l) :
    Before (spliceAfter key l (some (key y)) x) y x ∧
      (Before l y z → Before (spliceAfter key l (some (key y)) x) x z) := by
  obtain ⟨l₁, l₂, rfl, hfirst⟩ := split_of_mem hnodup hy
  rw [spliceAfter_found hfirst]
  refine ⟨before_append List.mem_cons_self, fun hbefore ↦ ?_⟩
  have hz : z ∈ l₂ := hbefore.mem_right fun hin ↦ hfirst y hin rfl
  have hafter : Before (x :: l₂) x z := before_cons hz
  exact hafter.trans ((List.sublist_cons_self y _).trans (List.sublist_append_right l₁ _))

/-- What the first pass has done with the entries from some place on. -/
structure RootedPlaced (key : α → K) (items : List α) (entries : List (Anchored α K)) (l : List α) :
    Prop where
  perm : l.Perm (items ++ (entries.filter (·.Rooted key items)).map (·.item))
  sublist : items.Sublist l
  anchored : ∀ entry ∈ entries, ∀ y ∈ items, entry.after = some (key y) → Before l y entry.item
  ordered : entries.Pairwise fun entry other ↦ entry.Rooted key items → entry.after = other.after →
    Before l entry.item other.item

theorem RootedPlaced.mem_keys {l : List α} (h : RootedPlaced key items entries l) {a : K}
    (ha : a ∈ l.map key) : a ∈ items.map key ∨ a ∈ entries.map fun entry ↦ key entry.item := by
  obtain ⟨x, hx, rfl⟩ := List.mem_map.mp ha
  rcases List.mem_append.mp (h.perm.mem_iff.mp hx) with hitem | hentry
  · exact .inl (List.mem_map_of_mem hitem)
  · obtain ⟨entry, hmem, rfl⟩ := List.mem_map.mp hentry
    exact .inr (List.mem_map.mpr ⟨entry, (List.mem_filter.mp hmem).1, rfl⟩)

omit [DecidableEq K] in
/-- Nothing is placed twice. -/
theorem Anchored.Ordered.nodup_of_perm (h : Anchored.Ordered key items all) {l : List α}
    {entries : List (Anchored α K)} (hentries : entries.Sublist all)
    (hperm : l.Perm (items ++ entries.map (·.item))) : (l.map key).Nodup := by
  rw [(hperm.map key).nodup_iff, List.map_append, List.map_map]
  exact h.nodup.sublist ((hentries.map _).append_left _)

/-- The first pass places an item whose anchor was there, and no other one. -/
theorem placeRooted_eq (h : Anchored.Ordered key items all) {before rest : List (Anchored α K)}
    {entry : Anchored α K} (hall : all = before ++ entry :: rest) {l : List α}
    (hplaced : RootedPlaced key items rest l) :
    placeRooted key all l entry =
      if entry.Rooted key items then spliceAfter key l entry.after entry.item else l := by
  have hnodup := h.nodup
  rw [hall, List.map_append, List.map_cons] at hnodup
  have hnew : key entry.item ∉ l.map key := by
    intro hin
    rcases hplaced.mem_keys hin with hitem | hrest
    · exact (List.nodup_append'.mp hnodup).2.2 hitem (by simp)
    · have htail := (List.nodup_append'.mp (List.nodup_append'.mp hnodup).2.1).2.1
      exact (List.nodup_cons.mp htail).1 hrest
  rw [placeRooted, if_neg (by rwa [any_key])]
  by_cases hrooted : entry.Rooted key items
  · rw [if_pos hrooted, if_neg]
    rw [Option.any_eq_true]
    rintro ⟨a, ha, hskip⟩
    have hin : a ∈ l.map key := (hplaced.sublist.map key).subset (hrooted a ha)
    rw [any_key.mpr hin] at hskip
    simp at hskip
  · rw [if_neg hrooted, if_pos]
    simp only [Anchored.Rooted, not_forall] at hrooted
    obtain ⟨a, ha, hnot⟩ := hrooted
    have hearlier := (h.earlier before entry rest hall a ha).resolve_left hnot
    have hmissing : a ∉ l.map key := by
      intro hin
      have hrest := (hplaced.mem_keys hin).resolve_left hnot
      have hsplit := (List.nodup_append'.mp (List.nodup_append'.mp hnodup).2.1).2.2
      exact hsplit hearlier (List.mem_cons_of_mem _ hrest)
    rw [ha, Option.any_some, Bool.and_eq_true, Bool.not_eq_true', ← Bool.not_eq_true, any_key]
    refine ⟨hmissing, List.any_eq_true.mpr ?_⟩
    obtain ⟨other, hother, heq⟩ := List.mem_map.mp hearlier
    exact ⟨other, hall ▸ List.mem_append_left _ hother, beq_iff_eq.mpr heq⟩

theorem rootedPlaced (h : Anchored.Ordered key items all) {before rest : List (Anchored α K)}
    (hall : all = before ++ rest) :
    RootedPlaced key items rest (rest.foldr (fun entry l ↦ placeRooted key all l entry) items) := by
  induction rest generalizing before with
  | nil => exact ⟨by simp, .refl _, by simp, .nil⟩
  | cons entry rest ih =>
    -- The fold begins at the end, so the entries behind this one are placed already.
    have hsplit : all = (before ++ [entry]) ++ rest := by simpa using hall
    have hplaced := ih hsplit
    rw [List.foldr_cons]
    generalize rest.foldr (fun entry l ↦ placeRooted key all l entry) items = l at hplaced
    rw [placeRooted_eq h hall hplaced]
    by_cases hrooted : entry.Rooted key items
    · rw [if_pos hrooted]
      have hkept : l.Sublist (spliceAfter key l entry.after entry.item) := sublist_spliceAfter
      have hnodup : (l.map key).Nodup := by
        refine h.nodup_of_perm (List.filter_sublist.trans ?_) hplaced.perm
        rw [hall]
        exact (List.sublist_cons_self _ _).trans (List.sublist_append_right _ _)
      refine ⟨?_, hplaced.sublist.trans hkept, ?_, List.pairwise_cons.mpr ⟨?_, ?_⟩⟩
      · rw [List.filter_cons_of_pos (by simpa using hrooted), List.map_cons]
        exact (spliceAfter_perm.trans (hplaced.perm.cons _)).trans List.perm_middle.symm
      · intro other hother y hy hafter
        rcases List.mem_cons.mp hother with rfl | hrest
        · rw [hafter]
          exact (before_splice (z := y) hnodup (hplaced.sublist.subset hy)).1
        · exact (hplaced.anchored other hrest y hy hafter).mono hkept
      · intro other hother _ hsame
        cases hafter : entry.after with
        | none =>
          refine before_cons (hplaced.perm.mem_iff.mpr (List.mem_append_right _ ?_))
          refine List.mem_map_of_mem (List.mem_filter.mpr ⟨hother, ?_⟩)
          simp [Anchored.Rooted, ← hsame, hafter]
        | some a =>
          obtain ⟨y, hy, rfl⟩ := List.mem_map.mp (hrooted a hafter)
          have hbefore := hplaced.anchored other hother y hy (hsame.symm.trans hafter)
          exact (before_splice hnodup (hplaced.sublist.subset hy)).2 hbefore
      · exact hplaced.ordered.imp fun hbefore hroot hsame ↦ (hbefore hroot hsame).mono hkept
    · rw [if_neg hrooted]
      refine ⟨?_, hplaced.sublist, ?_, List.pairwise_cons.mpr ⟨?_, hplaced.ordered⟩⟩
      · rw [List.filter_cons_of_neg (by simpa using hrooted)]
        exact hplaced.perm
      · intro other hother y hy hafter
        rcases List.mem_cons.mp hother with rfl | hrest
        · refine absurd (fun a ha ↦ ?_) hrooted
          rw [Option.some_inj.mp (ha.symm.trans hafter)]
          exact List.mem_map_of_mem hy
        · exact hplaced.anchored other hrest y hy hafter
      · intro other _ hroot
        exact absurd hroot hrooted

/-- What the second pass has done with the entries up to some place. -/
structure ChainPlaced (key : α → K) (items rooted : List α) (entries : List (Anchored α K))
    (l : List α) : Prop where
  perm : l.Perm (rooted ++ (entries.filter fun entry ↦ ¬entry.Rooted key items).map (·.item))
  sublist : rooted.Sublist l
  anchored : ∀ entry ∈ entries, ¬entry.Rooted key items →
    ∃ y ∈ l, entry.after = some (key y) ∧ Before l y entry.item
  reversed : entries.Pairwise fun entry other ↦ ¬entry.Rooted key items →
    entry.after = other.after → Before l other.item entry.item

omit [DecidableEq K] in
theorem Anchored.Rooted.congr {entry other : Anchored α K} (h : other.Rooted key items)
    (hsame : entry.after = other.after) : entry.Rooted key items :=
  fun a ha ↦ h a (hsame ▸ ha)

section

variable {before rest : List (Anchored α K)} {entry : Anchored α K} {rooted l : List α}

/-- Both passes together have placed all entries up to here, and of the others those whose anchor
was there. -/
theorem ChainPlaced.perm_items (hrooted : RootedPlaced key items all rooted)
    (hplaced : ChainPlaced key items rooted before l) (hall : all = before ++ rest) :
    l.Perm (items ++ (before ++ rest.filter (·.Rooted key items)).map (·.item)) := by
  have hbefore := List.filter_append_perm (fun entry : Anchored α K ↦ entry.Rooted key items) before
  have hmoved : (all.filter (·.Rooted key items) ++
      before.filter fun entry ↦ ¬entry.Rooted key items).Perm
        (before ++ rest.filter (·.Rooted key items)) := by
    rw [hall, List.filter_append, List.append_assoc]
    refine (List.perm_append_comm.append_left _).trans ?_
    rw [← List.append_assoc]
    exact .append (by simpa using hbefore) (.refl _)
  refine hplaced.perm.trans ((hrooted.perm.append_right _).trans ?_)
  rw [List.append_assoc, ← List.map_append]
  exact (hmoved.map _).append_left _

theorem filter_not_rooted {b : Bool} (hb : (decide ¬entry.Rooted key items) = b) :
    (before ++ [entry]).filter (fun entry ↦ ¬entry.Rooted key items) =
      before.filter (fun entry ↦ ¬entry.Rooted key items) ++ if b then [entry] else [] := by
  subst hb
  simp only [List.filter_append, List.filter_cons, List.filter_nil]

/-- The second pass leaves the entries of the first one where they are. -/
theorem ChainPlaced.step_rooted (hall : all = before ++ entry :: rest)
    (hrooted : RootedPlaced key items all rooted) (hplaced : ChainPlaced key items rooted before l)
    (hroot : entry.Rooted key items) :
    ChainPlaced key items rooted (before ++ [entry]) (placeChained key l entry) := by
  have hin : entry.item ∈ rooted := by
    refine hrooted.perm.mem_iff.mpr (List.mem_append_right _ (List.mem_map_of_mem ?_))
    exact List.mem_filter.mpr ⟨hall ▸ by simp, by simpa using hroot⟩
  have hkey : key entry.item ∈ l.map key :=
    List.mem_map_of_mem (hplaced.sublist.subset hin)
  rw [placeChained, if_pos (any_key.mpr hkey)]
  refine ⟨?_, hplaced.sublist, ?_, List.pairwise_append.mpr
    ⟨hplaced.reversed, List.pairwise_singleton _ _, ?_⟩⟩
  · rw [filter_not_rooted (b := false) (by simpa using hroot)]
    simpa using hplaced.perm
  · intro other hother hnot
    rcases List.mem_append.mp hother with hmem | hmem
    · exact hplaced.anchored other hmem hnot
    · exact absurd (List.mem_singleton.mp hmem ▸ hroot) hnot
  · intro other _ entry' hmem hnot hsame
    rw [List.mem_singleton.mp hmem] at hsame
    exact absurd (hroot.congr hsame) hnot

/-- It puts the others right behind their anchors, which are all there. -/
theorem ChainPlaced.step_chained (h : Anchored.Ordered key items all)
    (hall : all = before ++ entry :: rest) (hrooted : RootedPlaced key items all rooted)
    (hplaced : ChainPlaced key items rooted before l) (hroot : ¬ entry.Rooted key items) :
    ChainPlaced key items rooted (before ++ [entry]) (placeChained key l entry) := by
  have hperm := hplaced.perm_items hrooted hall
  rw [List.filter_cons_of_neg (by simpa using hroot)] at hperm
  have hentries : (before ++ entry :: rest.filter (·.Rooted key items)).Sublist all := by
    rw [hall]
    exact (List.filter_sublist.cons_cons _).append_left _
  have hnodup : ((entry.item :: l).map key).Nodup := by
    refine h.nodup_of_perm hentries ((hperm.cons _).trans ?_)
    rw [List.map_append, List.map_append, List.map_cons, ← List.append_assoc,
      ← List.append_assoc]
    exact List.perm_middle.symm
  obtain ⟨hnew, hnodup⟩ := List.nodup_cons.mp hnodup
  obtain ⟨y, hy, hafter⟩ : ∃ y ∈ l, entry.after = some (key y) := by
    simp only [Anchored.Rooted, not_forall] at hroot
    obtain ⟨a, hafter, hnot⟩ := hroot
    obtain ⟨other, hother, rfl⟩ :=
      List.mem_map.mp ((h.earlier before entry rest hall a hafter).resolve_left hnot)
    refine ⟨other.item, hperm.mem_iff.mpr (List.mem_append_right _ ?_), hafter⟩
    exact List.mem_map_of_mem (List.mem_append_left _ hother)
  rw [placeChained, if_neg (by rwa [any_key])]
  have hkept : l.Sublist (spliceAfter key l entry.after entry.item) := sublist_spliceAfter
  refine ⟨?_, hplaced.sublist.trans hkept, ?_, List.pairwise_append.mpr
    ⟨?_, List.pairwise_singleton _ _, ?_⟩⟩
  · rw [filter_not_rooted (b := true) (by simpa using hroot)]
    rw [if_pos rfl, List.map_append, ← List.append_assoc]
    refine spliceAfter_perm.trans ((hplaced.perm.cons _).trans ?_)
    exact (List.perm_append_singleton _ _).symm
  · intro other hother hnot
    rcases List.mem_append.mp hother with hmem | hmem
    · obtain ⟨z, hz, hz', hbef⟩ := hplaced.anchored other hmem hnot
      exact ⟨z, hkept.subset hz, hz', hbef.mono hkept⟩
    · rw [List.mem_singleton.mp hmem]
      refine ⟨y, hkept.subset hy, hafter, ?_⟩
      rw [hafter]
      exact (before_splice (z := y) hnodup hy).1
  · exact hplaced.reversed.imp fun hbef hnot hsame ↦ (hbef hnot hsame).mono hkept
  · intro other hother entry' hmem hnot hsame
    rw [List.mem_singleton.mp hmem] at hsame ⊢
    obtain ⟨z, hz, hz', hbef⟩ := hplaced.anchored other hother hnot
    rw [hsame.symm.trans hz']
    exact (before_splice hnodup hz).2 hbef

theorem ChainPlaced.step (h : Anchored.Ordered key items all)
    (hall : all = before ++ entry :: rest) (hrooted : RootedPlaced key items all rooted)
    (hplaced : ChainPlaced key items rooted before l) :
    ChainPlaced key items rooted (before ++ [entry]) (placeChained key l entry) := by
  by_cases hroot : entry.Rooted key items
  · exact hplaced.step_rooted hall hrooted hroot
  · exact hplaced.step_chained h hall hrooted hroot

end

theorem chainPlaced (h : Anchored.Ordered key items all) {rooted : List α}
    (hrooted : RootedPlaced key items all rooted) {before rest : List (Anchored α K)} {l : List α}
    (hall : all = before ++ rest) (hplaced : ChainPlaced key items rooted before l) :
    ChainPlaced key items rooted all (rest.foldl (placeChained key) l) := by
  induction rest generalizing before l with
  | nil =>
    rw [hall, List.append_nil]
    exact hplaced
  | cons entry rest ih =>
    rw [List.foldl_cons]
    exact ih (by simpa using hall) (hplaced.step h hall hrooted)

end

/-! ## The placed list -/

section

variable {α K : Type} [DecidableEq K] {key : α → K} {items : List α} {all : List (Anchored α K)}

theorem placeAll_placed (h : Anchored.Ordered key items all) :
    ∃ rooted, RootedPlaced key items all rooted ∧
      ChainPlaced key items rooted all (placeAll key items all) := by
  have hsplit : all = [] ++ all := rfl
  have hrooted := rootedPlaced h hsplit
  rw [← List.foldl_reverse] at hrooted
  exact ⟨_, hrooted, chainPlaced h hrooted hsplit ⟨by simp, .refl _, by simp, .nil⟩⟩

/-- Nothing is lost, and nothing comes twice. -/
theorem placeAll_perm (h : Anchored.Ordered key items all) :
    (placeAll key items all).Perm (items ++ all.map (·.item)) := by
  obtain ⟨rooted, hrooted, hplaced⟩ := placeAll_placed h
  have hsplit : all = all ++ [] := (List.append_nil _).symm
  simpa using hplaced.perm_items hrooted hsplit

theorem sublist_placeAll (h : Anchored.Ordered key items all) :
    items.Sublist (placeAll key items all) := by
  obtain ⟨rooted, hrooted, hplaced⟩ := placeAll_placed h
  exact hrooted.sublist.trans hplaced.sublist

theorem placeAll_nodup (h : Anchored.Ordered key items all) :
    ((placeAll key items all).map key).Nodup :=
  h.nodup_of_perm (.refl _) (placeAll_perm h)

theorem placeAll_anchored (h : Anchored.Ordered key items all) {entry : Anchored α K}
    (hentry : entry ∈ all) {y : α} (hy : y ∈ items ++ all.map (·.item))
    (hafter : entry.after = some (key y)) : Before (placeAll key items all) y entry.item := by
  obtain ⟨rooted, hrooted, hplaced⟩ := placeAll_placed h
  have hkeys := List.inj_on_of_nodup_map (placeAll_nodup h)
  have hin := (placeAll_perm h).mem_iff.mpr hy
  by_cases hroot : entry.Rooted key items
  · obtain ⟨z, hz, heq⟩ := List.mem_map.mp (hroot _ hafter)
    have hplace := hplaced.sublist.subset (hrooted.sublist.subset hz)
    rw [← hkeys hplace hin heq]
    exact (hrooted.anchored entry hentry z hz (heq ▸ hafter)).mono hplaced.sublist
  · obtain ⟨z, hz, heq, hbefore⟩ := hplaced.anchored entry hentry hroot
    rwa [← hkeys hz hin (Option.some_inj.mp (heq.symm.trans hafter))]

/-- Of two entries with one anchor the earlier comes first exactly if the anchor was there. -/
theorem placeAll_ordered_iff (h : Anchored.Ordered key items all) :
    (all.Pairwise fun entry other ↦ entry.after = other.after →
        Before (placeAll key items all) entry.item other.item) ↔
      all.Pairwise fun entry other ↦ entry.after = other.after → entry.Rooted key items := by
  obtain ⟨rooted, hrooted, hplaced⟩ := placeAll_placed h
  have hnodup := (placeAll_nodup h).of_map
  constructor
  · intro hordered
    refine (hordered.and hplaced.reversed).imp fun ⟨hbefore, hreversed⟩ hsame ↦ ?_
    by_contra hnot
    exact (hbefore hsame).asymm hnodup (hreversed hnot hsame)
  · intro hroots
    refine (hroots.and hrooted.ordered).imp fun ⟨hroot, hbefore⟩ hsame ↦ ?_
    exact (hbefore (hroot hsame) hsame).mono hplaced.sublist

omit [DecidableEq K] in
theorem foldl_append_last {f : List α → Anchored α K → List α} {entries : List (Anchored α K)}
    {o : α} (h : ∀ entry ∈ entries, ∀ l, f (l ++ [o]) entry = f l entry ++ [o]) (l : List α) :
    entries.foldl f (l ++ [o]) = entries.foldl f l ++ [o] := by
  induction entries generalizing l with
  | nil => rfl
  | cons entry entries ih =>
    rw [List.foldl_cons, List.foldl_cons, h entry List.mem_cons_self]
    exact ih (fun other hother ↦ h other (List.mem_cons_of_mem _ hother)) _

theorem any_key_append {l : List α} {o : α} {a : K} (h : key o ≠ a) :
    ((l ++ [o]).any fun x ↦ key x == a) = l.any fun x ↦ key x == a := by
  have hne : (key o == a) = false := beq_eq_false_iff_ne.mpr h
  rw [List.any_append, List.any_cons, hne, List.any_nil, Bool.or_false, Bool.or_false]

/-- An item that is nobody's anchor may stand behind. -/
theorem placeAll_append {o : α} (hafter : ∀ entry ∈ all, entry.after ≠ some (key o))
    (hkey : ∀ entry ∈ all, key entry.item ≠ key o) :
    placeAll key (items ++ [o]) all = placeAll key items all ++ [o] := by
  have hrooted : ∀ entry ∈ all.reverse, ∀ l,
      placeRooted key all (l ++ [o]) entry = placeRooted key all l entry ++ [o] := by
    intro entry hentry l
    have hmem := List.mem_reverse.mp hentry
    have hanchor : (entry.after.any fun a ↦ !((l ++ [o]).any fun x ↦ key x == a) &&
        all.any fun other ↦ key other.item == a) = entry.after.any fun a ↦
          !(l.any fun x ↦ key x == a) && all.any fun other ↦ key other.item == a := by
      cases ha : entry.after with
      | none => rfl
      | some a =>
        rw [Option.any_some, Option.any_some,
          any_key_append fun heq ↦ hafter entry hmem (by rw [ha, heq])]
    rw [placeRooted, placeRooted, any_key_append (hkey entry hmem).symm, hanchor,
      spliceAfter_append (hafter entry hmem)]
    split_ifs <;> rfl
  have hchained : ∀ entry ∈ all, ∀ l,
      placeChained key (l ++ [o]) entry = placeChained key l entry ++ [o] := by
    intro entry hmem l
    rw [placeChained, placeChained, any_key_append (hkey entry hmem).symm,
      spliceAfter_append (hafter entry hmem)]
    split_ifs <;> rfl
  rw [placeAll, placeAll, foldl_append_last hrooted, foldl_append_last hchained]

end

end Concurrent
