import Mathlib.Data.List.Basic
import Mathlib.Data.Nat.Notation

/-!
# Pages and cursors

A listing is read one page at a time. A page comes with a cursor, which is sent with the next
request, and says whether there is more. A service that cuts every page off the part of the listing
behind the cursor shows the whole listing, each item once, whatever sizes are asked for
(`VisitsOnce.of_cuts`).

A service may keep some items of another listing only, and read that one in pages of its own. What
it collects until it has more than it needs is the beginning of what there is (`gather_eq`).
-/

namespace Concurrent

variable {α C ε : Type}

structure Page (α C : Type) where
  data : List α
  hasMore : Bool
  /-- The cursor to go on with. -/
  next : Option C
deriving DecidableEq, Repr

/-! ## Following cursors -/

section

variable (request : ℕ → Option C → Option (Page α C))

/-- What has been shown after some requests that each were told to go on, and the cursor to go on
with. -/
inductive Reached : ℕ → List α → Option C → Prop
  | start : Reached 0 [] none
  | next {i : ℕ} {shown : List α} {cursor : Option C} {page : Page α C} :
    Reached i shown cursor → request i cursor = some page → page.hasMore = true →
      Reached (i + 1) (shown ++ page.data) page.next

/-- Requests until there is no more, the `i`-th one with its own parameters. -/
def follow : ℕ → ℕ → Option C → Option (List α)
  | 0, _, _ => none
  | fuel + 1, i, cursor => do
    let page ← request i cursor
    if page.hasMore then (follow fuel (i + 1) page.next).map (page.data ++ ·) else some page.data

/-- The cursors lead through the whole list and no further, and each page tells whether there are
items behind it. -/
structure VisitsOnce (l : List α) : Prop where
  all : follow request (l.length + 1) 0 none = some l
  hasMore : ∀ {i : ℕ} {shown : List α} {cursor : Option C}, Reached request i shown cursor →
    ∃ page rest, request i cursor = some page ∧ l = shown ++ page.data ++ rest ∧
      (page.hasMore = true ↔ rest ≠ [])

end

/-- The page behind `shown`, in front of `rest`. -/
structure IsCut (page : Page α C) (cursor : List α → Option C) (limit : ℕ) (shown rest : List α) :
    Prop where
  data : page.data = rest.take limit
  hasMore : page.hasMore = true ↔ limit < rest.length
  next : page.hasMore = true → page.next = cursor (shown ++ rest.take limit)

/-- Every page of the listing is cut off where its cursor says. `cursor` is the cursor behind some
items of the listing. -/
def Cuts (request : Option C → Option (Page α C)) (cursor : List α → Option C) (limit : ℕ)
    (l : List α) : Prop :=
  ∀ shown rest, l = shown ++ rest → shown = [] ∨ rest ≠ [] →
    ∃ page, request (cursor shown) = some page ∧ IsCut page cursor limit shown rest

variable {request : ℕ → Option C → Option (Page α C)} {cursor : List α → Option C} {l : List α}
  {limit : ℕ → ℕ}

theorem follow_eq (hlimit : ∀ i, 0 < limit i) (hcuts : ∀ i, Cuts (request i) cursor (limit i) l)
    {fuel i : ℕ} {shown rest : List α} (hl : l = shown ++ rest) (hrest : shown = [] ∨ rest ≠ [])
    (hfuel : rest.length < fuel) : follow request fuel i (cursor shown) = some rest := by
  induction fuel generalizing i shown rest with
  | zero => exact absurd hfuel (Nat.not_lt_zero _)
  | succ fuel ih =>
    obtain ⟨page, hpage, hcut⟩ := hcuts i shown rest hl hrest
    rw [follow, hpage, Option.bind_eq_bind, Option.bind_some]
    split
    · next hmore =>
      have hlt := hcut.hasMore.mp hmore
      have hne : rest.drop (limit i) ≠ [] := by
        rw [Ne, List.drop_eq_nil_iff]
        omega
      have hshorter : (rest.drop (limit i)).length < fuel := by
        have hpos := hlimit i
        rw [List.length_drop]
        omega
      rw [hcut.next hmore, ih _ (.inr hne) hshorter, Option.map_some, hcut.data,
        List.take_append_drop]
      rw [List.append_assoc, List.take_append_drop]
      exact hl
    · next hend =>
      rw [hcut.data, List.take_of_length_le]
      rw [hcut.hasMore] at hend
      exact Nat.le_of_not_lt hend

theorem exists_of_reached (hstart : cursor [] = none)
    (hcuts : ∀ i, Cuts (request i) cursor (limit i) l) {i : ℕ} {shown : List α} {at' : Option C}
    (h : Reached request i shown at') :
    at' = cursor shown ∧ ∃ rest, l = shown ++ rest ∧ (shown = [] ∨ rest ≠ []) := by
  induction h with
  | start => exact ⟨hstart.symm, l, rfl, .inl rfl⟩
  | @next i shown at' page _ hpage hmore ih =>
    obtain ⟨rfl, rest, hl, hrest⟩ := ih
    obtain ⟨page', hpage', hcut⟩ := hcuts i shown rest hl hrest
    obtain rfl := Option.some.inj (hpage.symm.trans hpage')
    have hlt := hcut.hasMore.mp hmore
    refine ⟨hcut.data ▸ hcut.next hmore, rest.drop (limit i), ?_, .inr ?_⟩
    · rw [hcut.data, List.append_assoc, List.take_append_drop]
      exact hl
    · rw [Ne, List.drop_eq_nil_iff]
      omega

/-- **Pages that are cut off show the whole listing.** -/
theorem VisitsOnce.of_cuts (cursor : List α → Option C) (hlimit : ∀ i, 0 < limit i)
    (hstart : cursor [] = none)
    (hcuts : ∀ i, Cuts (request i) cursor (limit i) l) : VisitsOnce request l where
  all := by
    have hall : follow request (l.length + 1) 0 (cursor []) = some l :=
      follow_eq hlimit hcuts rfl (.inl rfl) (Nat.lt_succ_self l.length)
    rwa [hstart] at hall
  hasMore := by
    intro i shown at' h
    obtain ⟨rfl, rest, hl, hrest⟩ := exists_of_reached hstart hcuts h
    obtain ⟨page, hpage, hcut⟩ := hcuts i shown rest hl hrest
    refine ⟨page, rest.drop (limit i), hpage, ?_, ?_⟩
    · rw [hcut.data, List.append_assoc, List.take_append_drop]
      exact hl
    · rw [hcut.hasMore, Ne, List.drop_eq_nil_iff, Nat.not_le]

/-! ## Pages of a list that is at hand -/

/-- At most `limit` items from `start` on, and whether there are more. -/
def slicePage (start limit : ℕ) (l : List α) : List α × Bool :=
  let data := (l.drop start).take limit
  (data, decide (start + data.length < l.length))

theorem slicePage_append {shown rest : List α} {limit : ℕ} (hl : l = shown ++ rest) :
    slicePage shown.length limit l = (rest.take limit, decide (limit < rest.length)) := by
  subst hl
  rw [slicePage, List.drop_left, List.length_append, List.length_take]
  congr 2
  rw [eq_iff_iff]
  omega

/-- The item behind `shown` is looked up by a test that holds of the last one shown only. -/
theorem findIdx?_append {p : α → Bool} {shown rest : List α} {a : α} (hl : l = shown ++ a :: rest)
    (ha : p a = true) (hshown : ∀ b ∈ shown, p b = false) : l.findIdx? p = some shown.length := by
  subst hl
  rw [List.findIdx?_append, List.findIdx?_eq_none_iff.mpr hshown, List.findIdx?_cons, ha]
  simp

/-- A page whose cursor is made from its last item. -/
theorem isCut_of_last (g : Option α → Option C) {shown rest : List α} {limit : ℕ}
    (hlimit : 0 < limit) :
    IsCut ⟨rest.take limit, decide (limit < rest.length), g (rest.take limit).getLast?⟩
      (fun shown ↦ g shown.getLast?) limit shown rest := by
  refine ⟨rfl, decide_eq_true_iff, fun hmore ↦ ?_⟩
  have hlt : limit < rest.length := of_decide_eq_true hmore
  have hne : rest.take limit ≠ [] := by
    rw [Ne, List.take_eq_nil_iff]
    rintro (hzero | hnil)
    · omega
    · rw [hnil] at hlt
      exact absurd hlt (Nat.not_lt_zero _)
  dsimp only
  rw [List.getLast?_append_of_ne_nil _ hne]

theorem isCut_map (id : α → C) {shown rest : List α} {limit : ℕ} (hlimit : 0 < limit) :
    IsCut ⟨rest.take limit, decide (limit < rest.length), (rest.take limit).getLast?.map id⟩
      (fun shown ↦ shown.getLast?.map id) limit shown rest := isCut_of_last (Option.map id) hlimit

/-- The cursor of a page is not looked at, if there is no more. -/
theorem IsCut.ite_next {page : Page α C} {cursor : List α → Option C} {limit : ℕ}
    {shown rest : List α} (h : IsCut page cursor limit shown rest) :
    IsCut ⟨page.data, page.hasMore, if page.hasMore then page.next else none⟩ cursor limit shown
      rest := by
  refine ⟨h.data, h.hasMore, fun hmore ↦ ?_⟩
  dsimp only at hmore ⊢
  rw [if_pos hmore]
  exact h.next hmore

/-- Items that come before another one have another id, if ids differ. -/
theorem ne_of_nodup_append {K : Type} {id : α → K} {shown rest : List α} {a : α}
    (hnodup : ((shown ++ a :: rest).map id).Nodup) : ∀ b ∈ shown, id b ≠ id a := by
  intro b hb heq
  rw [List.map_append, List.nodup_append] at hnodup
  exact hnodup.2.2 (id b) (List.mem_map_of_mem hb) (id a)
    (List.mem_map_of_mem List.mem_cons_self) heq

/-! ## Collecting from pages -/

/-- Keep some items of page after page, until there are more than `limit` or no more pages. -/
def gather (list : Option C → Except ε (Page α C)) (keep : α → Bool) (limit : ℕ) :
    ℕ → Option C → List α → Option (Except ε (List α))
  | 0, _, _ => none
  | fuel + 1, after, selected =>
    match list after with
    | .error e => some (.error e)
    | .ok page =>
      let selected := selected ++ page.data.filter keep
      if limit < selected.length ∨ page.hasMore = false then some (.ok selected)
      else match page.next with
        | none => some (.ok selected)
        | some after => gather list keep limit fuel (some after) selected

variable {list : Option C → Except ε (Page α C)} {keep : α → Bool} {size wanted : ℕ}

/-- A list that can be cut answers the cursor of what was shown. -/
theorem Cuts.list_eq_ok (hcuts : Cuts (fun after ↦ (list after).toOption) cursor size l)
    {shown rest : List α} (hl : l = shown ++ rest) (hrest : shown = [] ∨ rest ≠ []) :
    ∃ page, list (cursor shown) = .ok page ∧ IsCut page cursor size shown rest := by
  obtain ⟨page, hpage, hcut⟩ := hcuts shown rest hl hrest
  refine ⟨page, ?_, hcut⟩
  dsimp only at hpage
  rcases hlist : list (cursor shown) with e | page'
  · rw [hlist] at hpage
    exact nomatch hpage
  · rw [hlist] at hpage
    rw [Option.some.inj hpage]

/-- Items are left after a page that says so, and the page was not empty. -/
theorem IsCut.continues {page : Page α C} {shown rest : List α} (hsize : 0 < size)
    (h : IsCut page cursor size shown rest) (hmore : page.hasMore = true) :
    rest.drop size ≠ [] ∧ shown ++ rest.take size ≠ [] ∧
      (rest.drop size).length < rest.length := by
  have hlt := h.hasMore.mp hmore
  refine ⟨?_, ?_, ?_⟩
  · rw [Ne, List.drop_eq_nil_iff]
    omega
  · rw [Ne, List.append_eq_nil_iff, List.take_eq_nil_iff]
    rintro ⟨-, hzero | hnil⟩
    · omega
    · rw [hnil] at hlt
      exact absurd hlt (Nat.not_lt_zero _)
  · rw [List.length_drop]
    omega

/-- **What is collected is the beginning of what there is**, all of it or more than is needed. -/
theorem gather_eq (hsize : 0 < size)
    (hcuts : Cuts (fun after ↦ (list after).toOption) cursor size l)
    (hcursor : ∀ shown rest, l = shown ++ rest → shown ≠ [] → cursor shown ≠ none)
    {fuel : ℕ} {selected shown rest : List α} (hl : l = shown ++ rest)
    (hrest : shown = [] ∨ rest ≠ []) (hfuel : rest.length < fuel) :
    ∃ found, gather list keep wanted fuel (cursor shown) selected = some (.ok (selected ++ found)) ∧
      found <+: rest.filter keep ∧
        (found = rest.filter keep ∨ wanted < (selected ++ found).length) := by
  induction fuel generalizing selected shown rest with
  | zero => exact absurd hfuel (Nat.not_lt_zero _)
  | succ fuel ih =>
    obtain ⟨page, hok, hcut⟩ := hcuts.list_eq_ok hl hrest
    -- The page in hand is the front of what is left.
    have hsplit : rest.filter keep =
        (rest.take size).filter keep ++ (rest.drop size).filter keep := by
      rw [← List.filter_append, List.take_append_drop]
    rw [gather, hok]
    dsimp only
    rw [hcut.data]
    split
    · next hdone =>
      refine ⟨_, rfl, ?_, ?_⟩
      · rw [hsplit]
        exact List.prefix_append _ _
      · rcases hdone with hdone | hdone
        · exact .inr hdone
        · left
          rw [List.take_of_length_le]
          have hend : ¬ page.hasMore = true := by simp [hdone]
          rw [hcut.hasMore] at hend
          exact Nat.le_of_not_lt hend
    · next hgo =>
      have hmore : page.hasMore = true := by
        rcases hpage : page.hasMore with _ | _
        · exact absurd (.inr hpage) hgo
        · rfl
      obtain ⟨hne, htake, hshorter⟩ := hcut.continues hsize hmore
      have hl' : l = (shown ++ rest.take size) ++ rest.drop size := by
        rw [List.append_assoc, List.take_append_drop]
        exact hl
      obtain ⟨after, hafter⟩ := Option.ne_none_iff_exists'.mp (hcursor _ _ hl' htake)
      rw [hcut.next hmore, hafter]
      dsimp only
      obtain ⟨found, hfound, hbegins, hall⟩ : ∃ found, gather list keep wanted fuel
          (cursor (shown ++ rest.take size)) (selected ++ (rest.take size).filter keep) =
            some (.ok (selected ++ (rest.take size).filter keep ++ found)) ∧
          found <+: (rest.drop size).filter keep ∧ (found = (rest.drop size).filter keep ∨
            wanted < (selected ++ (rest.take size).filter keep ++ found).length) :=
        ih hl' (.inr hne) (by omega)
      rw [hafter] at hfound
      refine ⟨(rest.take size).filter keep ++ found, ?_, ?_, ?_⟩
      · rw [hfound, List.append_assoc]
      · rw [hsplit, List.prefix_append_right_inj]
        exact hbegins
      · rw [hsplit, List.append_cancel_left_eq, ← List.append_assoc]
        exact hall

theorem take_of_prefix {found l : List α} (h : found <+: l)
    (hall : found = l ∨ wanted < found.length) :
    found.take wanted = l.take wanted ∧ (wanted < found.length ↔ wanted < l.length) := by
  rcases hall with rfl | hlt
  · exact ⟨rfl, Iff.rfl⟩
  · obtain ⟨rest, rfl⟩ := h
    rw [List.take_append_of_le_length (Nat.le_of_lt hlt), List.length_append]
    exact ⟨rfl, iff_of_true hlt (by omega)⟩

/-- What is kept behind an item lies behind it in the whole list. -/
theorem exists_of_filter_eq {shown rest : List α} {a : α} (h : l.filter keep = shown ++ a :: rest) :
    ∃ before behind, l = before ++ a :: behind ∧ behind.filter keep = rest := by
  obtain ⟨first, second, rfl, -, hsecond⟩ := List.filter_eq_append_iff.mp h
  obtain ⟨skipped, behind, rfl, -, -, hbehind⟩ := List.filter_eq_cons_iff.mp hsecond
  exact ⟨first ++ skipped, behind, by rw [List.append_assoc], hbehind⟩

/-- **A service that keeps some items of a listing cuts what it keeps**, whatever pages the listing
comes in, if it shows items by their ids. -/
theorem Cuts.gathered {β : Type} {id : α → C} {f : α → β} {id' : β → C} {fuel : ℕ}
    {service : Option C → Option (Page β C)} (hsize : 0 < size) (hwanted : 0 < wanted)
    (hcuts : Cuts (fun after ↦ (list after).toOption) (fun shown ↦ shown.getLast?.map id) size l)
    (hid : ∀ a ∈ l, id' (f a) = id a) (hfuel : l.length < fuel)
    (hservice : ∀ after found, gather list keep wanted fuel after [] = some (.ok found) →
      service after = some ⟨(found.take wanted).map f, decide (wanted < found.length),
        ((found.take wanted).map f).getLast?.map id'⟩) :
    Cuts service (fun shown ↦ shown.getLast?.map id') wanted ((l.filter keep).map f) := by
  have hcursor : ∀ shown rest, l = shown ++ rest → shown ≠ [] → shown.getLast?.map id ≠ none := by
    intro shown _ _ hne hnone
    rw [Option.map_eq_none_iff, List.getLast?_eq_none_iff] at hnone
    exact hne hnone
  intro shown' rest' hl' hrest'
  -- The items of the listing behind the last one that was shown.
  obtain ⟨shown, rest, hl, hrest, hcursors, hkept⟩ : ∃ shown rest, l = shown ++ rest ∧
      (shown = [] ∨ rest ≠ []) ∧ shown'.getLast?.map id' = shown.getLast?.map id ∧
        (rest.filter keep).map f = rest' := by
    rcases List.eq_nil_or_concat' shown' with rfl | ⟨init, b, rfl⟩
    · exact ⟨[], l, rfl, .inl rfl, rfl, hl'⟩
    · obtain ⟨kept, rest, hfilter, hkept, rfl⟩ := List.map_eq_append_iff.mp hl'
      obtain ⟨init, last, rfl, rfl, hlast⟩ := List.map_eq_append_iff.mp hkept
      obtain ⟨a, rfl, rfl⟩ := List.map_eq_singleton_iff.mp hlast
      rw [List.append_assoc, List.singleton_append] at hfilter
      obtain ⟨before, behind, hl, hbehind⟩ := exists_of_filter_eq hfilter
      refine ⟨before ++ [a], behind, ?_, .inr ?_, ?_, ?_⟩
      · rw [hl, List.append_assoc, List.singleton_append]
      · rintro rfl
        rcases hrest' with hnil | hne
        · exact absurd hnil (by simp)
        · rw [← hbehind] at hne
          exact hne rfl
      · have hmem : a ∈ l := by
          rw [hl]
          exact List.mem_append_right _ List.mem_cons_self
        simp [hid a hmem]
      · rw [hbehind]
  have hlength : rest.length < fuel := by
    rw [hl, List.length_append] at hfuel
    omega
  obtain ⟨found, hfound, hbegins, hall⟩ : ∃ found,
      gather list keep wanted fuel (shown.getLast?.map id) [] = some (.ok ([] ++ found)) ∧
        found <+: rest.filter keep ∧
          (found = rest.filter keep ∨ wanted < ([] ++ found).length) :=
    gather_eq hsize hcuts hcursor hl hrest hlength
  rw [List.nil_append] at hfound hall
  obtain ⟨htake, hlt⟩ := take_of_prefix hbegins hall
  refine ⟨⟨(found.take wanted).map f, decide (wanted < found.length),
    ((found.take wanted).map f).getLast?.map id'⟩, ?_, ?_⟩
  · dsimp only
    rw [hcursors]
    exact hservice _ found hfound
  have hdata : (found.take wanted).map f = rest'.take wanted := by
    rw [htake, ← hkept, List.map_take]
  have hlength : wanted < found.length ↔ wanted < rest'.length := by
    rw [hlt, ← hkept, List.length_map]
  rw [hdata, decide_eq_decide.mpr hlength]
  exact isCut_map id' hwanted

end Concurrent
