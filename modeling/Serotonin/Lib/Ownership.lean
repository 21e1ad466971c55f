import Mathlib.Data.Set.Insert
import Mathlib.Logic.Function.Basic

/-! Owners and what they hold. Some owners are alive, and each of them holds at most one
resource; what is held is in use, and held by one owner only. The rules say what that
survives: an owner that goes together with what it holds, a resource that nobody holds
going out of use, and an owner that is given a resource not in use before. -/

namespace Ownership

open Function

variable {ι ρ : Type*}

structure Held (alive : Set ι) (own : ι → Option ρ) (used : Set ρ) : Prop where
  used : ∀ i ∈ alive, ∀ r, own i = some r → r ∈ used
  apart : ∀ i ∈ alive, ∀ j ∈ alive, ∀ r, own i = some r → own j = some r → i = j

variable {alive alive' : Set ι} {own : ι → Option ρ} {used used' : Set ρ}

theorem Held.mono (h : Held alive own used) (ha : alive' ⊆ alive) (hu : used ⊆ used') :
    Held alive' own used' :=
  ⟨fun i hi r hr => hu (h.used i (ha hi) r hr),
    fun i hi j hj r hr hr' => h.apart i (ha hi) j (ha hj) r hr hr'⟩

/-- Nobody holds what goes out of use. -/
theorem Held.lose (h : Held alive own used) {r : ρ} (hr : ∀ i ∈ alive, own i ≠ some r) :
    Held alive own {x ∈ used | x ≠ r} := by
  refine ⟨fun i hi x hx => ⟨h.used i hi x hx, fun he => ?_⟩, h.apart⟩
  exact hr i hi (he ▸ hx)

/-- Of two owners, only one can hold a resource. -/
theorem Held.other (h : Held alive own used) {i j : ι} {r : ρ} (hi : i ∈ alive) (hj : j ∈ alive)
    (hne : j ≠ i) (hr : own i = some r) : own j ≠ some r :=
  fun he => hne (h.apart j hj i hi r he hr)

/-- An owner goes, and with it what it holds. -/
theorem Held.release (h : Held alive own used) {i : ι} (hi : i ∈ alive) :
    Held {j ∈ alive | j ≠ i} own {x ∈ used | own i ≠ some x} := by
  refine ⟨fun j hj x hx => ⟨h.used j hj.1 x hx, fun he => ?_⟩,
    fun j hj k hk x hx hx' => h.apart j hj.1 k hk.1 x hx hx'⟩
  exact h.other hi hj.1 hj.2 he hx

variable [DecidableEq ι]

/-- A resource not in use is given to an owner, new or not. -/
theorem Held.give (h : Held alive own used) (i : ι) {r : ρ} (hr : r ∉ used) :
    Held (insert i alive) (update own i (some r)) (insert r used) := by
  have hother : ∀ j ∈ insert i alive, j ≠ i → j ∈ alive := fun j hj hne => hj.resolve_left hne
  have hfresh : ∀ j ∈ insert i alive, j ≠ i → update own i (some r) j ≠ some r := by
    intro j hj hne he
    rw [update_of_ne hne] at he
    exact hr (h.used j (hother j hj hne) r he)
  refine ⟨fun j hj x hx => ?_, fun j hj k hk x hx hx' => ?_⟩
  · by_cases hji : j = i
    · subst hji
      rw [update_self] at hx
      exact .inl (Option.some.inj hx).symm
    · rw [update_of_ne hji] at hx
      exact .inr (h.used j (hother j hj hji) x hx)
  · by_cases hji : j = i
    · subst hji
      rw [update_self] at hx
      cases hx
      by_cases hkj : k = j
      · exact hkj.symm
      · exact absurd hx' (hfresh k hk hkj)
    · by_cases hki : k = i
      · subst hki
        rw [update_self] at hx'
        cases hx'
        exact absurd hx (hfresh j hj hji)
      · rw [update_of_ne hji] at hx
        rw [update_of_ne hki] at hx'
        exact h.apart j (hother j hj hji) k (hother k hk hki) x hx hx'

/-- A new owner may hold nothing. -/
theorem Held.bare (h : Held alive own used) {i : ι} (hi : i ∉ alive) :
    Held (insert i alive) (update own i none) used := by
  have hold : ∀ j ∈ insert i alive, ∀ r, update own i none j = some r →
      j ∈ alive ∧ own j = some r := by
    intro j hj r hr
    by_cases hji : j = i
    · subst hji
      rw [update_self] at hr
      cases hr
    · rw [update_of_ne hji] at hr
      exact ⟨hj.resolve_left hji, hr⟩
  refine ⟨fun j hj r hr => ?_, fun j hj k hk r hr hr' => ?_⟩
  · obtain ⟨hj, hr⟩ := hold j hj r hr
    exact h.used j hj r hr
  · obtain ⟨hj, hr⟩ := hold j hj r hr
    obtain ⟨hk, hr'⟩ := hold k hk r hr'
    exact h.apart j hj k hk r hr hr'

/-- What an owner held before it was given another resource is held by nobody. -/
theorem Held.dropped (h : Held alive own used) {i : ι} {r old : ρ} (hi : i ∈ alive) (hr : r ∉ used)
    (hold : own i = some old) : ∀ j ∈ alive, update own i (some r) j ≠ some old := by
  intro j hj he
  by_cases hji : j = i
  · subst hji
    rw [update_self] at he
    rw [Option.some.inj he] at hr
    exact hr (h.used j hj old hold)
  · rw [update_of_ne hji] at he
    exact h.other hi hj hji hold he

end Ownership
