import Mathlib.Data.Fintype.Card
import Mathlib.Data.Set.Finite.Basic
import Mathlib.Logic.Relation
import Mathlib.Order.WellFounded

/-! Walks in a finite set of nodes, along the edges of a relation. Where each node has an edge to
another one of the set or to an exit, a walk from any node comes to an exit or to a cycle. -/

namespace Walks

open Relation

variable {α : Type*} {R : α → α → Prop} {S : Set α}

/-- The nodes of the set that a walk in it can come to. -/
def Within (R : α → α → Prop) (S : Set α) : α → α → Prop := ReflTransGen fun x y => R x y ∧ y ∈ S

theorem Within.mem {a k : α} (h : Within R S a k) (ha : a ∈ S) : k ∈ S := by
  cases h with
  | refl => exact ha
  | tail _ hlast => exact hlast.2

/-- A node on a cycle has an edge to a node on a cycle. -/
theorem exists_edge_of_cycle {x : α} (h : TransGen R x x) : ∃ y, R x y ∧ TransGen R y y := by
  obtain ⟨y, hxy, hyx⟩ := TransGen.head'_iff.mp h
  exact ⟨y, hxy, TransGen.tail' hyx hxy⟩

/-- In a finite set without cycles some node has no edge to another one. -/
theorem exists_last [Finite S] [Nonempty S] (h : ∀ x ∈ S, ¬TransGen R x x) : ∃ x ∈ S, ∀ y ∈ S, ¬R x y := by
  let r : S → S → Prop := fun x y => TransGen R y x
  have htrans : IsTrans S r := ⟨fun _ _ _ h1 h2 => h2.trans h1⟩
  have hirrefl : Std.Irrefl r := ⟨fun x => h x x.2⟩
  have hwf : WellFounded r := Finite.wellFounded_of_trans_of_irrefl r
  obtain ⟨x, _, hmin⟩ := hwf.has_min Set.univ Set.univ_nonempty
  exact ⟨x, x.2, fun y hy hxy => hmin ⟨y, hy⟩ trivial (.single hxy)⟩

/-- A walk in a finite set comes to an exit, or next to a cycle. -/
theorem exit_or_cycle (hfin : S.Finite) {P : α → Prop} (hstep : ∀ x ∈ S, ∃ y, R x y ∧ (y ∈ S ∨ P y)) {a : α}
    (ha : a ∈ S) : ∃ k, Within R S a k ∧ ∃ y, R k y ∧ (P y ∨ TransGen R y y) := by
  by_contra hnone
  let T : Set α := {x | Within R S a x}
  have hsub : T ⊆ S := fun x hx => Within.mem hx ha
  have : Finite T := (hfin.subset hsub).to_subtype
  have : Nonempty T := ⟨⟨a, .refl⟩⟩
  have hacyclic : ∀ x ∈ T, ¬TransGen R x x := by
    intro x hx hcycle
    obtain ⟨y, hxy, hy⟩ := exists_edge_of_cycle hcycle
    exact hnone ⟨x, hx, y, hxy, .inr hy⟩
  obtain ⟨x, hx, hlast⟩ := exists_last hacyclic
  obtain ⟨y, hxy, hy | hy⟩ := hstep x (hsub hx)
  · exact hlast y (ReflTransGen.tail hx ⟨hxy, hy⟩) hxy
  · exact hnone ⟨x, hx, y, hxy, .inl hy⟩

end Walks
