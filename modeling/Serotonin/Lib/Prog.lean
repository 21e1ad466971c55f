import Mathlib.Tactic.Common

/-! Programs over an interface. A program is a tree of calls, each with a continuation for
its answer; what a call does is left to a handler, so one program runs on a machine as well
as on an abstraction of it, and if every call of the one simulates the call of the other,
so does the program. -/

variable {Op : Type} {Ret : Op → Type} {ε α β : Type} {σ τ : Type*}

/-- Programs with calls in `Op`, answered in `Ret`, that may halt with an error. -/
inductive Prog {Op : Type} (Ret : Op → Type) (ε α : Type) : Type where
  | ret (a : α)
  | halt (e : ε)
  | call (o : Op) (k : Ret o → Prog Ret ε α)

namespace Prog

protected def bind (p : Prog Ret ε α) (f : α → Prog Ret ε β) : Prog Ret ε β :=
  match p with
  | .ret a => f a
  | .halt e => .halt e
  | .call o k => .call o fun r => (k r).bind f

instance : Monad (Prog Ret ε) where
  pure := .ret
  bind := .bind

/-- The call of an operation. -/
def perform (o : Op) : Prog Ret ε (Ret o) := .call o .ret

theorem bind_def (p : Prog Ret ε α) (f : α → Prog Ret ε β) : p >>= f = p.bind f := rfl

theorem bind_ret (p : Prog Ret ε α) : p.bind .ret = p := by
  induction p with
  | ret a => rfl
  | halt e => rfl
  | call o k ih => exact congrArg (call o) (funext ih)

theorem bind_bind {γ : Type} (p : Prog Ret ε α) (f : α → Prog Ret ε β) (g : β → Prog Ret ε γ) :
    (p.bind f).bind g = p.bind fun a => (f a).bind g := by
  induction p with
  | ret a => rfl
  | halt e => rfl
  | call o k ih => exact congrArg (call o) (funext ih)

instance : LawfulMonad (Prog Ret ε) :=
  LawfulMonad.mk' (Prog Ret ε) bind_ret (fun _ _ => rfl) bind_bind

/-! ## Runs -/

/-- How a machine answers the calls. -/
abbrev Handler (Ret : Op → Type) (ε : Type) (σ : Type*) := (o : Op) → σ → Except ε (Ret o × σ)

def run (h : Handler Ret ε σ) : Prog Ret ε α → σ → Except ε (α × σ)
  | .ret a, s => .ok (a, s)
  | .halt e, _ => .error e
  | .call o k, s =>
    match h o s with
    | .ok (r, s') => run h (k r) s'
    | .error e => .error e

variable {h : Handler Ret ε σ}

@[simp] theorem run_pure (a : α) (s : σ) : run h (pure a : Prog Ret ε α) s = .ok (a, s) := rfl

theorem run_perform (o : Op) (s : σ) : run h (perform o) s = h o s := by
  rw [perform, run]
  cases h o s with
  | error e => rfl
  | ok r => rfl

theorem run_bind (p : Prog Ret ε α) (f : α → Prog Ret ε β) (s : σ) :
    run h (p >>= f) s = match run h p s with
      | .ok (a, s') => run h (f a) s'
      | .error e => .error e := by
  rw [bind_def]
  induction p generalizing s with
  | ret a => rfl
  | halt e => rfl
  | call o k ih =>
    rw [Prog.bind, run, run]
    cases h o s with
    | error e => rfl
    | ok r => exact ih r.1 r.2

theorem run_bind_ok {p : Prog Ret ε α} {f : α → Prog Ret ε β} {s s' : σ} {a : α} (hp : run h p s = .ok (a, s')) :
    run h (p >>= f) s = run h (f a) s' := by
  rw [run_bind, hp]

theorem run_bind_error {p : Prog Ret ε α} {f : α → Prog Ret ε β} {s : σ} {e : ε} (hp : run h p s = .error e) :
    run h (p >>= f) s = .error e := by
  rw [run_bind, hp]

/-- A run of two programs in turn ends in a value only if both do. -/
theorem run_bind_eq_ok {p : Prog Ret ε α} {f : α → Prog Ret ε β} {s r : σ} {b : β} :
    run h (p >>= f) s = .ok (b, r) ↔ ∃ a s', run h p s = .ok (a, s') ∧ run h (f a) s' = .ok (b, r) := by
  rw [run_bind]
  cases hp : run h p s with
  | error e => simp
  | ok q =>
    obtain ⟨a, s'⟩ := q
    constructor
    · intro hf
      exact ⟨a, s', rfl, hf⟩
    · rintro ⟨a', r', heq, hf⟩
      cases heq
      exact hf

/-! ## Simulation -/

/-- The first result follows the second: the same value in related states, or the same
error, unless the second is the error of a run that the abstraction does not cover. -/
def Follows (lost : ε) (R : σ → τ → Prop) (x : Except ε (α × σ)) : Except ε (α × τ) → Prop
  | .ok (a, t) => ∃ s, x = .ok (a, s) ∧ R s t
  | .error e => e ≠ lost → x = .error e

/-- If each call on the machine follows the call on the abstraction, so do programs. -/
theorem run_follows {lost : ε} {R : σ → τ → Prop} {hs : Handler Ret ε σ} {ht : Handler Ret ε τ}
    (hcall : ∀ o s t, R s t → Follows lost R (hs o s) (ht o t)) (p : Prog Ret ε α) :
    ∀ s t, R s t → Follows lost R (run hs p s) (run ht p t) := by
  induction p with
  | ret a =>
    intro s t hR
    exact ⟨s, rfl, hR⟩
  | halt e =>
    intro s t _ _
    rfl
  | call o k ih =>
    intro s t hR
    have ho := hcall o s t hR
    rw [run, run]
    cases ht' : ht o t with
    | ok r =>
      rw [ht'] at ho
      obtain ⟨s', heq, hR'⟩ := ho
      rw [heq]
      exact ih r.1 s' r.2 hR'
    | error e =>
      rw [ht'] at ho
      intro he
      rw [ho he]

theorem run_follows_ok {lost : ε} {R : σ → τ → Prop} {hs : Handler Ret ε σ} {ht : Handler Ret ε τ}
    (hcall : ∀ o s t, R s t → Follows lost R (hs o s) (ht o t)) {p : Prog Ret ε α} {s : σ} {t t' : τ} {a : α}
    (hR : R s t) (hrun : run ht p t = .ok (a, t')) : ∃ s', run hs p s = .ok (a, s') ∧ R s' t' := by
  have hf := run_follows hcall p s t hR
  rw [hrun] at hf
  exact hf

end Prog
