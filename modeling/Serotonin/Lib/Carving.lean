import Mathlib.Data.List.Flatten
import Mathlib.Data.List.Nodup
import Mathlib.Tactic.Common

/-! Ranges of addresses from which others are cut out, and the pages that lie wholly inside
what is left. -/

namespace Carving

open List

/-- The addresses from `start` on, up to `stop`. -/
structure Range where
  start : Nat
  stop : Nat
  deriving DecidableEq

/-- Page `p`, of `u` addresses, lies wholly inside the range. -/
def Inside (u : Nat) (r : Range) (p : Nat) : Prop := r.start ≤ p * u ∧ p * u + u ≤ r.stop

/-- Page `p` has no address in the range. -/
def Off (u : Nat) (r : Range) (p : Nat) : Prop := p * u + u ≤ r.start ∨ r.stop ≤ p * u

instance (u : Nat) (r : Range) (p : Nat) : Decidable (Inside u r p) := inferInstanceAs (Decidable (_ ∧ _))

instance (u : Nat) (r : Range) (p : Nat) : Decidable (Off u r p) := inferInstanceAs (Decidable (_ ∨ _))

/-- The pages inside a range, in order. -/
def pages (u : Nat) (r : Range) : List Nat :=
  List.range' ((r.start + (u - 1)) / u) (r.stop / u - (r.start + (u - 1)) / u)

/-- What is left of `i` without `e`. -/
def cut (e i : Range) : List Range :=
  if e.stop ≤ i.start ∨ i.stop ≤ e.start then [i]
  else (if i.start < e.start then [⟨i.start, e.start⟩] else []) ++ if e.stop < i.stop then [⟨e.stop, i.stop⟩] else []

/-- What is left of the ranges without those of `es`. -/
def pieces (es l : List Range) : List Range := es.foldl (fun l e => l.flatMap (cut e)) l

theorem pieces_snoc (es : List Range) (e : Range) (l : List Range) :
    pieces (es ++ [e]) l = (pieces es l).flatMap (cut e) := foldl_append

variable {u : Nat}

theorem mem_pages (hu : 0 < u) {r : Range} {p : Nat} : p ∈ pages u r ↔ Inside u r p := by
  have hfirst : (r.start + (u - 1)) / u ≤ p ↔ r.start ≤ p * u := by
    rw [← Nat.lt_succ_iff, Nat.div_lt_iff_lt_mul hu, Nat.succ_mul]
    omega
  have hlast : p + 1 ≤ r.stop / u ↔ p * u + u ≤ r.stop := by
    rw [Nat.le_div_iff_mul_le hu, Nat.add_mul, Nat.one_mul]
  unfold pages Inside
  rw [List.mem_range'_1, ← hfirst, ← hlast]
  omega

theorem nodup_pages (u : Nat) (r : Range) : (pages u r).Nodup := nodup_range'

/-- A page that is inside what is left is inside what there was. -/
theorem inside_of_cut {e i t : Range} (ht : t ∈ cut e i) {p : Nat} (hp : Inside u t p) :
    Inside u i p ∧ Off u e p := by
  unfold Inside at hp ⊢
  unfold Off
  unfold cut at ht
  split at ht
  · rename_i hoff
    rw [mem_singleton.mp ht] at hp
    exact ⟨hp, by omega⟩
  · rename_i hmeet
    obtain hl | hr := mem_append.mp ht
    · obtain ⟨hlt, hl⟩ := mem_ite_nil_right.mp hl
      rw [mem_singleton.mp hl] at hp
      dsimp only at hp
      omega
    · obtain ⟨hlt, hr⟩ := mem_ite_nil_right.mp hr
      rw [mem_singleton.mp hr] at hp
      dsimp only at hp
      omega

theorem exists_cut {e i : Range} {p : Nat} (hu : 0 < u) (hi : Inside u i p) (he : Off u e p) :
    ∃ t ∈ cut e i, Inside u t p := by
  unfold Inside at hi ⊢
  unfold cut
  split
  · exact ⟨i, mem_singleton_self i, hi⟩
  · obtain hl | hr := he
    · refine ⟨⟨i.start, e.start⟩, mem_append_left _ ?_, hi.1, hl⟩
      rw [if_pos (by omega)]
      exact mem_singleton_self _
    · refine ⟨⟨e.stop, i.stop⟩, mem_append_right _ ?_, hr, hi.2⟩
      rw [if_pos (by omega)]
      exact mem_singleton_self _

theorem mem_flatMap_pages (hu : 0 < u) {l : List Range} {p : Nat} :
    p ∈ l.flatMap (pages u) ↔ ∃ t ∈ l, Inside u t p := by
  rw [mem_flatMap]
  exact exists_congr fun t => and_congr_right fun _ => mem_pages hu

/-- The pages that are left are those off everything that was cut out. -/
theorem mem_pieces (hu : 0 < u) {es : List Range} : ∀ {l : List Range} {p : Nat},
    p ∈ (pieces es l).flatMap (pages u) ↔ (∃ i ∈ l, Inside u i p) ∧ ∀ e ∈ es, Off u e p := by
  induction es with
  | nil =>
    intro l p
    rw [show pieces [] l = l from rfl, mem_flatMap_pages hu]
    exact ⟨fun h => ⟨h, fun e he => (nomatch he)⟩, fun h => h.1⟩
  | cons e es ih =>
    intro l p
    refine (ih (l := l.flatMap (cut e))).trans ?_
    constructor
    · intro ⟨⟨t, ht, hp⟩, hes⟩
      obtain ⟨i, hi, ht⟩ := mem_flatMap.mp ht
      obtain ⟨hinside, hoff⟩ := inside_of_cut ht hp
      exact ⟨⟨i, hi, hinside⟩, forall_mem_cons.mpr ⟨hoff, hes⟩⟩
    · intro ⟨⟨i, hi, hinside⟩, hes⟩
      obtain ⟨hoff, hes⟩ := forall_mem_cons.mp hes
      obtain ⟨t, ht, hp⟩ := exists_cut hu hinside hoff
      exact ⟨⟨t, mem_flatMap.mpr ⟨i, hi, ht⟩, hp⟩, hes⟩

/-- Cutting a range in two leaves no page in both parts. -/
theorem nodup_cut (hu : 0 < u) {e : Range} (he : e.start ≤ e.stop) (i : Range) :
    ((cut e i).flatMap (pages u)).Nodup := by
  unfold cut
  split
  · rw [flatMap_singleton]
    exact nodup_pages u i
  · rw [flatMap_append]
    refine nodup_append.mpr ⟨?_, ?_, fun p hp p' hp' heq => ?_⟩
    · split
      · rw [flatMap_singleton]
        exact nodup_pages u _
      · exact nodup_nil
    · split
      · rw [flatMap_singleton]
        exact nodup_pages u _
      · exact nodup_nil
    · obtain ⟨t, ht, hp⟩ := (mem_flatMap_pages hu).mp hp
      obtain ⟨t', ht', hp'⟩ := (mem_flatMap_pages hu).mp hp'
      rw [mem_singleton.mp (mem_ite_nil_right.mp ht).2] at hp
      rw [mem_singleton.mp (mem_ite_nil_right.mp ht').2, ← heq] at hp'
      have hleft : p * u + u ≤ e.start := hp.2
      have hright : e.stop ≤ p * u := hp'.1
      omega

theorem nodup_pieces (hu : 0 < u) {es : List Range} : ∀ {l : List Range}, (∀ e ∈ es, e.start ≤ e.stop) →
    (l.flatMap (pages u)).Nodup → ((pieces es l).flatMap (pages u)).Nodup := by
  induction es with
  | nil => exact fun _ h => h
  | cons e es ih =>
    intro l hes hl
    obtain ⟨he, hes⟩ := forall_mem_cons.mp hes
    refine ih hes ?_
    rw [flatMap_assoc]
    obtain ⟨-, hapart⟩ := nodup_flatMap.mp hl
    refine nodup_flatMap.mpr ⟨fun i _ => nodup_cut hu he i, hapart.imp fun {i j} hij => ?_⟩
    intro p hp hp'
    obtain ⟨t, ht, hpt⟩ := (mem_flatMap_pages hu).mp hp
    obtain ⟨t', ht', hpt'⟩ := (mem_flatMap_pages hu).mp hp'
    exact hij ((mem_pages hu).mpr (inside_of_cut ht hpt).1) ((mem_pages hu).mpr (inside_of_cut ht' hpt').1)

/-- A piece starts where a range did, or where something was cut out of it. -/
theorem start_pieces (P : Nat → Prop) {es : List Range} : ∀ {l : List Range}, (∀ e ∈ es, P e.stop) →
    (∀ i ∈ l, P i.start) → ∀ t ∈ pieces es l, P t.start := by
  induction es with
  | nil => exact fun _ h => h
  | cons e es ih =>
    intro l hes hl
    obtain ⟨he, hes⟩ := forall_mem_cons.mp hes
    refine ih hes fun t ht => ?_
    obtain ⟨i, hi, ht⟩ := mem_flatMap.mp ht
    unfold cut at ht
    split at ht
    · rw [mem_singleton.mp ht]
      exact hl i hi
    · obtain hl' | hr := mem_append.mp ht
      · rw [mem_singleton.mp (mem_ite_nil_right.mp hl').2]
        exact hl i hi
      · rw [mem_singleton.mp (mem_ite_nil_right.mp hr).2]
        exact he

/-- Nothing is cut out of a range that ends before it starts. -/
theorem empty_pieces {es : List Range} : ∀ {l : List Range}, (∀ e ∈ es, e.start ≤ e.stop) →
    (∀ i ∈ l, i.stop ≤ i.start) → ∀ t ∈ pieces es l, t.stop ≤ t.start := by
  induction es with
  | nil => exact fun _ h => h
  | cons e es ih =>
    intro l hes hl
    obtain ⟨he, hes⟩ := forall_mem_cons.mp hes
    refine ih hes fun t ht => ?_
    obtain ⟨i, hi, ht⟩ := mem_flatMap.mp ht
    have hempty := hl i hi
    unfold cut at ht
    split at ht
    · rw [mem_singleton.mp ht]
      exact hempty
    · obtain hl' | hr := mem_append.mp ht
      · have hlt := (mem_ite_nil_right.mp hl').1
        omega
      · have hlt := (mem_ite_nil_right.mp hr).1
        omega

end Carving
