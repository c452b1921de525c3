import Mathlib.Data.List.Nodup
import Mathlib.Logic.Relation
import Mathlib.Order.WellFoundedSet

/-!
# Nodes that name their parents

A tree is often written as a list of nodes, each with the name of its parent. The list may say
anything: a parent may be missing, and nodes may be each other's ancestors. It is a tree if a key
decreases from every node to its parent, since a list holds only finitely many keys.
-/

namespace Concurrent

variable {ι κ K : Type} [LinearOrder κ]

structure Node (K : Type) where
  id : K
  parent : Option K
deriving DecidableEq, Repr

/-- `b` is the parent of `a`. -/
def ChildOf (nodes : List (Node K)) (a b : K) : Prop :=
  ∃ node ∈ nodes, node.id = a ∧ node.parent = some b

/-- One node has no parent, and is reached from every other by going from parent to parent. -/
structure IsTree (nodes : List (Node K)) : Prop where
  nodup : (nodes.map Node.id).Nodup
  linked : ∀ node ∈ nodes, ∀ p, node.parent = some p → ∃ q ∈ nodes, q.id = p
  root : ∃ root ∈ nodes, root.parent = none ∧ (∀ node ∈ nodes, node.parent = none → node = root) ∧
    ∀ node ∈ nodes, Relation.ReflTransGen (ChildOf nodes) node.id root.id

/-- Nodes that lead only to each other are not nodes of a tree. -/
theorem IsTree.id_notMem {nodes : List (Node K)} (h : IsTree nodes) {circle : Set K}
    (hclosed : ∀ node ∈ nodes, node.id ∈ circle → ∃ p ∈ circle, node.parent = some p) :
    ∀ node ∈ nodes, node.id ∉ circle := by
  intro node hnode hmem
  obtain ⟨root, hroot, hnone, -, hreach⟩ := h.root
  have hin : ∀ a, Relation.ReflTransGen (ChildOf nodes) node.id a → a ∈ circle := by
    intro a ha
    induction ha with
    | refl => exact hmem
    | tail _ hstep ih =>
      obtain ⟨child, hchild, rfl, hparent⟩ := hstep
      obtain ⟨p, hp, heq⟩ := hclosed child hchild ih
      obtain rfl := Option.some.inj (heq.symm.trans hparent)
      exact hp
  obtain ⟨p, -, hp⟩ := hclosed root hroot (hin root.id (hreach node hnode))
  rw [hnone] at hp
  exact nomatch hp

/-- Links along which a key decreases lead to an element that has no link. -/
theorem exists_end {l : List ι} {key : ι → κ} {R : ι → ι → Prop} {Ends : ι → Prop}
    (h : ∀ a ∈ l, Ends a ∨ ∃ b ∈ l, R a b ∧ key b < key a) {a : ι} (ha : a ∈ l) :
    ∃ b ∈ l, Ends b ∧ Relation.ReflTransGen R a b := by
  -- The smaller keys of a finite list are well founded.
  have hfounded : {a | a ∈ l}.WellFoundedOn (Order.Preimage key (· < ·)) :=
    l.finite_toSet.wellFoundedOn
  refine hfounded.induction (P := fun a ↦ ∃ b ∈ l, Ends b ∧ Relation.ReflTransGen R a b) ha
    fun a ha ih ↦ ?_
  rcases h a ha with hends | ⟨b, hb, hlink, hkey⟩
  · exact ⟨a, ha, hends, .refl⟩
  · obtain ⟨c, hc, hends, hreach⟩ := ih b hb hkey
    exact ⟨c, hc, hends, .head hlink hreach⟩

/-- **A key that decreases towards the parent makes a list a tree.** The root needs no key. -/
theorem IsTree.of_key {l : List ι} {node : ι → Node K} (key : ι → κ)
    (hnodup : (l.map fun i ↦ (node i).id).Nodup) {r : ι} (hr : r ∈ l)
    (hroot : ∀ i ∈ l, (node i).parent = none ↔ i = r)
    (hkey : ∀ i ∈ l, i ≠ r → ∃ j ∈ l, (node i).parent = some (node j).id ∧
      (j = r ∨ key j < key i)) :
    IsTree (l.map node) := by
  have hmem : ∀ i ∈ l, node i ∈ l.map node := fun i hi ↦ List.mem_map_of_mem hi
  refine ⟨by rwa [List.map_map], ?_, node r, hmem r hr, (hroot r hr).mpr rfl, ?_, ?_⟩
  · intro n hn p hp
    obtain ⟨i, hi, rfl⟩ := List.mem_map.mp hn
    have hne : i ≠ r := by
      intro heq
      rw [(hroot i hi).mpr heq] at hp
      exact nomatch hp
    obtain ⟨j, hj, hparent, -⟩ := hkey i hi hne
    exact ⟨node j, hmem j hj, Option.some.inj (hparent.symm.trans hp)⟩
  · intro n hn hnone
    obtain ⟨i, hi, rfl⟩ := List.mem_map.mp hn
    rw [(hroot i hi).mp hnone]
  · intro n hn
    obtain ⟨i, hi, rfl⟩ := List.mem_map.mp hn
    -- The last link leads to the root, and so needs no smaller key.
    have hlink : ∀ i ∈ l, (i = r ∨ i ∈ l ∧ (node i).parent = some (node r).id) ∨
        ∃ j ∈ l, (i ∈ l ∧ (node i).parent = some (node j).id) ∧ key j < key i := by
      intro i hi
      by_cases heq : i = r
      · exact .inl (.inl heq)
      · obtain ⟨j, hj, hparent, rfl | hlt⟩ := hkey i hi heq
        · exact .inl (.inr ⟨hi, hparent⟩)
        · exact .inr ⟨j, hj, ⟨hi, hparent⟩, hlt⟩
    obtain ⟨j, _, hend, hreach⟩ := exists_end hlink hi
    have hnodes : Relation.ReflTransGen (ChildOf (l.map node)) (node i).id (node j).id :=
      hreach.lift (fun i ↦ (node i).id) fun i j h ↦ ⟨node i, hmem i h.1, rfl, h.2⟩
    rcases hend with rfl | ⟨hj, hparent⟩
    · exact hnodes
    · exact hnodes.tail ⟨node j, hmem j hj, rfl, hparent⟩

end Concurrent
