import Mathlib.Logic.Function.Basic
import Mathlib.Data.Nat.Find
import Mathlib.Tactic.Common

/-! Copies in place. The cells at `p i` take what the cells at `q i` hold, each at its own
time, and those of one time are read before any of them is written. Whether that is the copy
of a snapshot depends on one thing: no cell is read after it was written. -/

namespace Copying

variable {I A B : Type*}

/-- All cells at once. -/
noncomputable def snapshot (p q : I → A) (m : A → B) : A → B := Function.extend p (m ∘ q) m

/-- The cells whose time it is. -/
noncomputable def step (p q : I → A) (time : I → Nat) (T : Nat) (m : A → B) : A → B :=
  Function.extend (fun i : {i // time i = T} => p i) (fun i => m (q i)) m

/-- The copy before time `T`. -/
noncomputable def upTo (p q : I → A) (time : I → Nat) (m : A → B) : Nat → A → B
  | 0 => m
  | T + 1 => step p q time T (upTo p q time m T)

variable {p q : I → A} {time : I → Nat}

theorem step_apply (hp : p.Injective) (m : A → B) (T : Nat) (i : I) :
    step p q time T m (p i) = if time i = T then m (q i) else m (p i) := by
  have hinj : Function.Injective fun i : {i // time i = T} => p i :=
    fun _ _ h => Subtype.ext (hp h)
  unfold step
  by_cases h : time i = T
  · rw [if_pos h]
    exact hinj.extend_apply _ _ ⟨i, h⟩
  · rw [if_neg h]
    refine Function.extend_apply' _ _ _ ?_
    intro ⟨j, hj⟩
    exact h (hp hj ▸ j.2)

theorem step_outside {a : A} (ha : ∀ i, p i ≠ a) (m : A → B) (T : Nat) : step p q time T m a = m a :=
  Function.extend_apply' _ _ _ fun ⟨i, hi⟩ => ha i hi

theorem upTo_apply (hp : p.Injective) (m : A → B) (T : Nat) (i : I) :
    upTo p q time m T (p i) = if time i < T then upTo p q time m (time i) (q i) else m (p i) := by
  induction T with
  | zero => rfl
  | succ T ih =>
    show step p q time T (upTo p q time m T) (p i) = _
    rw [step_apply hp, ih]
    by_cases h : time i = T
    · rw [if_pos h, if_pos (by omega), h]
    · rw [if_neg h]
      by_cases hlt : time i < T
      · rw [if_pos hlt, if_pos (by omega)]
      · rw [if_neg hlt, if_neg (by omega)]

theorem upTo_outside {a : A} (ha : ∀ i, p i ≠ a) (m : A → B) (T : Nat) : upTo p q time m T a = m a := by
  induction T with
  | zero => rfl
  | succ T ih => exact (step_outside ha _ T).trans ih

/-- A cell that is not written before `T` is what it was. -/
theorem upTo_early (hp : p.Injective) (m : A → B) {T : Nat} {a : A} (h : ∀ i, p i = a → T ≤ time i) :
    upTo p q time m T a = m a := by
  by_cases ha : ∃ i, p i = a
  · obtain ⟨i, rfl⟩ := ha
    rw [upTo_apply hp, if_neg (Nat.not_lt.mpr (h i rfl))]
  · exact upTo_outside (fun i hi => ha ⟨i, hi⟩) m T

/-- Nothing happens in between. -/
theorem upTo_skip (m : A → B) {T : Nat} {k : Nat} (h : ∀ i, time i < T ∨ T + k ≤ time i) :
    upTo p q time m (T + k) = upTo p q time m T := by
  induction k with
  | zero => rfl
  | succ k ih =>
    have hnone : IsEmpty {i // time i = T + k} := ⟨fun i => by
      have h1 := h i.1
      omega⟩
    rw [← ih fun i => by have h1 := h i; omega]
    show step p q time (T + k) _ = _
    funext a
    exact Function.extend_apply' _ _ _ fun ⟨i, _⟩ => hnone.elim i

/-- No cell is read after it was written. -/
def Ordered (p q : I → A) (time : I → Nat) : Prop := ∀ i j, time i < time j → p i ≠ q j

theorem Ordered.upTo_eq (h : Ordered p q time) (hp : p.Injective) {N : Nat} (hN : ∀ i, time i < N) (m : A → B) :
    upTo p q time m N = snapshot p q m := by
  funext a
  by_cases ha : ∃ i, p i = a
  · obtain ⟨j, rfl⟩ := ha
    rw [upTo_apply hp, if_pos (hN j)]
    have hread : upTo p q time m (time j) (q j) = m (q j) :=
      upTo_early hp m fun i hi => Nat.not_lt.mp fun hlt => h i j hlt hi
    rw [hread]
    exact (hp.extend_apply (m ∘ q) m j).symm
  · rw [upTo_outside (fun i hi => ha ⟨i, hi⟩)]
    exact (Function.extend_apply' _ _ _ ha).symm

/-- At the first read that comes too late, the copy goes wrong for some contents. -/
theorem exists_ne_of_not_ordered [Nontrivial B] (h : ¬Ordered p q time) (hp : p.Injective) (hq : q.Injective)
    {N : Nat} (hN : ∀ i, time i < N) : ∃ m : A → B, upTo p q time m N ≠ snapshot p q m := by
  have hlate : ∃ T i j, time j = T ∧ time i < time j ∧ p i = q j := by
    unfold Ordered at h
    push Not at h
    obtain ⟨i, j, hlt, hij⟩ := h
    exact ⟨time j, i, j, rfl, hlt, hij⟩
  classical
  obtain ⟨i, j, hT, hlt, hij⟩ := Nat.find_spec hlate
  have hfirst : ∀ i' j', time j' < time j → time i' < time j' → p i' ≠ q j' :=
    fun i' j' hj' hlt' he => Nat.find_min hlate (hT ▸ hj') ⟨i', j', rfl, hlt', he⟩
  have hne : q i ≠ q j := fun he => Nat.lt_irrefl (time i) ((congrArg time (hq he)).symm ▸ hlt)
  obtain ⟨x, y, hxy⟩ := exists_pair_ne B
  refine ⟨fun a => if a = q i then x else y, fun he => hxy ?_⟩
  have hval := congrFun he (p j)
  rw [upTo_apply hp, if_pos (hN j), ← hij, upTo_apply hp, if_pos hlt,
    upTo_early hp _ fun k hk => Nat.not_lt.mp fun hk' => hfirst k i hlt hk' hk, if_pos rfl] at hval
  rw [hval]
  refine (hp.extend_apply _ _ j).trans ?_
  exact if_neg fun he' => hne he'.symm

theorem snapshot_iff [Nontrivial B] (hp : p.Injective) (hq : q.Injective) {N : Nat} (hN : ∀ i, time i < N) :
    (∀ m : A → B, upTo p q time m N = snapshot p q m) ↔ Ordered p q time := by
  constructor
  · intro h
    by_contra hnot
    obtain ⟨m, hm⟩ : ∃ m : A → B, upTo p q time m N ≠ snapshot p q m :=
      exists_ne_of_not_ordered hnot hp hq hN
    exact hm (h m)
  · intro h m
    exact h.upTo_eq hp hN m

end Copying
