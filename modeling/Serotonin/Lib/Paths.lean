import Mathlib.Algebra.GroupWithZero.Nat
import Mathlib.Data.List.TakeWhile
import Mathlib.Tactic.Common

/-! Texts of parts between separators, as a file system's paths are. A text is cut into its parts from
the left; the parts that are open, the last one first, have a text of their own. -/

namespace Paths

open List

variable {α : Type*} (sep : α)

/-- A separator and the part, for each part from the last one of the list on. -/
def text : List (List α) → List α
  | [] => []
  | p :: ps => text ps ++ sep :: p

theorem length_text {sep : α} {ps : List (List α)} : (text sep ps).length = (ps.map fun p => p.length + 1).sum := by
  induction ps with
  | nil => rfl
  | cons p ps ih =>
    simp only [text, length_append, length_cons, map_cons, sum_cons]
    omega

variable [DecidableEq α]

/-- The first part of a text, and the text behind the separator that ends the part. -/
def next (s : List α) : Option (List α × List α) :=
  match s.dropWhile (· = sep) with
  | [] => none
  | a :: rest => some ((a :: rest).takeWhile (· ≠ sep), ((a :: rest).dropWhile (· ≠ sep)).drop 1)

def partsUpTo : Nat → List α → List (List α)
  | 0, _ => []
  | n + 1, s =>
    match next sep s with
    | none => []
    | some (p, rest) => p :: partsUpTo n rest

/-- The parts of a text. None is longer than the text, so neither are they more. -/
def parts (s : List α) : List (List α) := partsUpTo sep s.length s

/-- What is before the last separator. -/
def beforeLast (s : List α) : Option (List α) :=
  match s.reverse.dropWhile (· ≠ sep) with
  | [] => none
  | _ :: before => some before.reverse

/-- A part as `next` gives it. -/
def IsPart (p : List α) : Prop := p ≠ [] ∧ sep ∉ p

variable {sep} {s p rest : List α} {ps : List (List α)}

theorem next_spec (h : next sep s = some (p, rest)) :
    IsPart sep p ∧ p.length ≤ s.length ∧ (rest = [] ∨ p.length + 1 + rest.length ≤ s.length) := by
  unfold next at h
  split at h
  · cases h
  · next a tail hdrop =>
    obtain ⟨rfl, rfl⟩ := Prod.mk.inj (Option.some.inj h)
    have ha : a ≠ sep := by
      have hhead := head_dropWhile_not (p := fun b => decide (b = sep)) (l := s) (by rw [hdrop]; exact cons_ne_nil _ _)
      simpa [hdrop] using hhead
    have hlen : (a :: tail).length ≤ s.length := hdrop ▸ (dropWhile_sublist _).length_le
    have hsplit := congrArg List.length (takeWhile_append_dropWhile (p := fun b => decide (b ≠ sep)) (l := a :: tail))
    rw [length_append] at hsplit
    refine ⟨⟨by simp [ha], fun hmem => ?_⟩, by omega, ?_⟩
    · simpa using mem_takeWhile_imp hmem
    · cases hrest : (a :: tail).dropWhile (fun b => decide (b ≠ sep)) with
      | nil => exact .inl rfl
      | cons b rest =>
        rw [hrest, length_cons] at hsplit
        exact .inr (by rw [drop_one, tail_cons]; omega)

theorem length_rest_lt (h : next sep s = some (p, rest)) : rest.length < s.length := by
  obtain ⟨⟨hne, -⟩, hle, hrest⟩ := next_spec h
  have hpos := length_pos_iff.mpr hne
  rcases hrest with rfl | hrest
  · exact Nat.lt_of_lt_of_le hpos hle
  · omega

theorem partsUpTo_eq : ∀ {n m : Nat} {s : List α}, s.length ≤ n → s.length ≤ m → partsUpTo sep n s = partsUpTo sep m s
  | 0, 0, _, _, _ => rfl
  | 0, m + 1, s, hn, _ => by
    obtain rfl := eq_nil_of_length_eq_zero (Nat.le_zero.mp hn)
    rfl
  | n + 1, 0, s, _, hm => by
    obtain rfl := eq_nil_of_length_eq_zero (Nat.le_zero.mp hm)
    rfl
  | n + 1, m + 1, s, hn, hm => by
    unfold partsUpTo
    cases hnext : next sep s with
    | none => rfl
    | some q =>
      have hlt := length_rest_lt hnext
      exact congrArg _ (partsUpTo_eq (by omega) (by omega))

theorem parts_of_none (h : next sep s = none) : parts sep s = [] := by
  unfold parts
  cases s.length with
  | zero => rfl
  | succ n => rw [partsUpTo, h]

theorem parts_of_some (h : next sep s = some (p, rest)) : parts sep s = p :: parts sep rest := by
  have hlt := length_rest_lt h
  obtain ⟨n, hn⟩ : ∃ n, s.length = n + 1 := ⟨s.length - 1, by omega⟩
  unfold parts
  rw [hn, partsUpTo, h]
  exact congrArg _ (partsUpTo_eq (by omega) (Nat.le_refl _))

/-- The parts with a separator for each are no longer than the text, but for the one separator that
the text may not begin with. -/
theorem parts_spec : ∀ {n : Nat} {s : List α}, s.length ≤ n →
    (∀ p ∈ parts sep s, IsPart sep p) ∧ ((parts sep s).map fun p => p.length + 1).sum ≤ s.length + 1
  | 0, s, hn => by
    obtain rfl := eq_nil_of_length_eq_zero (Nat.le_zero.mp hn)
    exact ⟨nofun, Nat.zero_le _⟩
  | n + 1, s, hn => by
    cases hnext : next sep s with
    | none =>
      rw [parts_of_none hnext]
      exact ⟨nofun, Nat.zero_le _⟩
    | some q =>
      have hlt := length_rest_lt hnext
      obtain ⟨hpart, hle, hrest⟩ := next_spec hnext
      obtain ⟨hall, hsum⟩ := parts_spec (n := n) (s := q.2) (by omega)
      rw [parts_of_some hnext]
      refine ⟨forall_mem_cons.mpr ⟨hpart, hall⟩, ?_⟩
      rw [map_cons, sum_cons]
      rcases hrest with hnil | hrest
      · rw [hnil]
        exact Nat.succ_le_succ hle
      · omega

theorem isPart_of_mem (h : p ∈ parts sep s) : IsPart sep p := (parts_spec (Nat.le_refl _)).1 p h

theorem parts_cons_sep : parts sep (sep :: s) = parts sep s := by
  have hnext : next sep (sep :: s) = next sep s := by simp [next]
  cases h : next sep s with
  | none => rw [parts_of_none h, parts_of_none (hnext.trans h)]
  | some q => rw [parts_of_some h, parts_of_some (hnext.trans h)]

theorem sum_parts_le (s : List α) : ((parts sep (sep :: s)).map fun p => p.length + 1).sum ≤ (sep :: s).length := by
  rw [parts_cons_sep]
  exact (parts_spec (Nat.le_refl _)).2

/-! ## Texts of parts -/

theorem beforeLast_append (h : sep ∉ p) : beforeLast sep (s ++ sep :: p) = some s := by
  have hdrop : (s ++ sep :: p).reverse.dropWhile (· ≠ sep) = sep :: s.reverse := by
    rw [reverse_append, reverse_cons, append_assoc, dropWhile_append_of_pos]
    · simp
    · intro a ha
      simpa using fun heq : a = sep => h (heq ▸ mem_reverse.mp ha)
  unfold beforeLast
  rw [hdrop]
  simp

theorem next_of_part (hp : IsPart sep p) : next sep (p ++ s) = some (p ++ s.takeWhile (· ≠ sep), (s.dropWhile (· ≠ sep)).drop 1) := by
  obtain ⟨a, tail, rfl⟩ := exists_cons_of_ne_nil hp.1
  have hne : ∀ b ∈ a :: tail, decide (b ≠ sep) = true := by
    intro b hb
    simpa using fun heq : b = sep => hp.2 (heq ▸ hb)
  have hhead : a ≠ sep := by simpa using hne a mem_cons_self
  unfold next
  have hdrop : ((a :: tail) ++ s).dropWhile (· = sep) = (a :: tail) ++ s := by simp [hhead]
  rw [hdrop]
  change some (((a :: tail) ++ s).takeWhile _, (((a :: tail) ++ s).dropWhile _).drop 1) = _
  rw [takeWhile_append_of_pos hne, dropWhile_append_of_pos hne]

theorem parts_append_sep (hp : IsPart sep p) : parts sep (p ++ sep :: s) = p :: parts sep s := by
  refine parts_of_some ?_
  rw [next_of_part hp]
  simp

theorem parts_of_part (hp : IsPart sep p) : parts sep p = [p] := by
  have hnext := next_of_part (s := []) hp
  rw [append_nil] at hnext
  rw [parts_of_some hnext]
  simp [parts, partsUpTo]

/-- The parts behind a text of parts. -/
theorem parts_text_append : ∀ {ps : List (List α)} {s : List α}, (∀ p ∈ ps, IsPart sep p) →
    parts sep (text sep ps ++ sep :: s) = ps.reverse ++ parts sep s
  | [], s, _ => parts_cons_sep
  | p :: ps, s, h => by
    obtain ⟨hp, hps⟩ := forall_mem_cons.mp h
    rw [text, append_assoc, cons_append, parts_text_append hps, parts_append_sep hp]
    simp

theorem parts_text (h : ∀ p ∈ ps, IsPart sep p) : parts sep (text sep ps) = ps.reverse := by
  cases ps with
  | nil => rfl
  | cons p ps =>
    obtain ⟨hp, hps⟩ := forall_mem_cons.mp h
    rw [text, parts_text_append hps, parts_of_part hp, reverse_cons]

end Paths
