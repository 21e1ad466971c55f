import Mathlib.Tactic.Common

/-! Computations that may fail and do not: `Returns e Q` says that `e` gives a result, and that
`Q` holds of it. The rules follow the shape of the computation, loops over lists included. -/

universe u v

variable {ε : Type v} {α β : Type u}

/-- The computation gives a result, of which `Q` holds. -/
def Returns (e : Except ε α) (Q : α → Prop) : Prop := ∃ a, e = .ok a ∧ Q a

namespace Returns

variable {e : Except ε α} {Q Q' : α → Prop}

theorem ok {a : α} (h : Q a) : Returns (.ok a : Except ε α) Q := ⟨a, rfl, h⟩

theorem pure {a : α} (h : Q a) : Returns (Pure.pure a : Except ε α) Q := ⟨a, rfl, h⟩

theorem mono (h : Returns e Q) (hq : ∀ a, Q a → Q' a) : Returns e Q' :=
  h.imp fun a ha => ⟨ha.1, hq a ha.2⟩

theorem eq (h : Returns e Q) : Returns e fun a => e = .ok a ∧ Q a := by
  obtain ⟨a, ha, hq⟩ := h
  exact ⟨a, ha, ha, hq⟩

theorem bind {f : α → Except ε β} {R : β → Prop} (h : Returns e Q) (hf : ∀ a, Q a → Returns (f a) R) :
    Returns (e >>= f) R := by
  obtain ⟨a, rfl, ha⟩ := h
  exact hf a ha

theorem ite {p : Prop} [Decidable p] {e' : Except ε α} (h : p → Returns e Q) (h' : ¬p → Returns e' Q) :
    Returns (if p then e else e') Q := by
  split
  · exact h ‹p›
  · exact h' ‹¬p›

theorem result (h : Returns e Q) {a : α} (ha : e = .ok a) : Q a := by
  obtain ⟨b, hb, hq⟩ := h
  exact Except.ok.inj (ha.symm.trans hb) ▸ hq

/-- A loop over a list; the invariant speaks of what is left of it. -/
theorem foldlM {γ : Type*} {f : β → γ → Except ε β} (I : List γ → β → Prop) {l : List γ} {b : β} (h : I l b)
    (hf : ∀ x xs b, I (x :: xs) b → Returns (f b x) (I xs)) : Returns (l.foldlM f b) (I []) := by
  induction l generalizing b with
  | nil => exact .pure h
  | cons x xs ih =>
    rw [List.foldlM_cons]
    exact Returns.bind (hf x xs b h) fun b' hb' => ih hb'

end Returns
