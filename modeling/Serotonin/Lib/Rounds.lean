import Serotonin.Lib.Prog

/-! Loops with a bound on their rounds. A family of programs, one for each bound, stands for the
loop itself: it ends if it does under some bound, and then under every larger one. -/

variable {Op : Type} {Ret : Op → Type} {ε α β : Type} {σ : Type*}

namespace Prog

variable (h : Handler Ret ε σ)

/-- The family ends in a value and a state. -/
def Ends (P : Nat → Prog Ret ε α) (s : σ) (a : α) (t : σ) : Prop := ∃ n, run h (P n) s = .ok (a, t)

/-- More rounds change nothing of a run that has ended. -/
def Steady (P : Nat → Prog Ret ε α) : Prop :=
  ∀ n s a t, run h (P n) s = .ok (a, t) → run h (P (n + 1)) s = .ok (a, t)

variable {h} {P : Nat → Prog Ret ε α} {Q : α → Nat → Prog Ret ε β} {s t : σ} {a : α} {b : β}

theorem Steady.le (hP : Steady h P) {n m : Nat} (hle : n ≤ m) (hrun : run h (P n) s = .ok (a, t)) :
    run h (P m) s = .ok (a, t) := by
  induction hle with
  | refl => exact hrun
  | step _ ih => exact hP _ _ _ _ ih

theorem steady_const (p : Prog Ret ε α) : Steady h fun _ => p := fun _ _ _ _ hrun => hrun

theorem Steady.bind (hP : Steady h P) (hQ : ∀ a, Steady h (Q a)) : Steady h fun n => P n >>= fun a => Q a n := by
  intro n s b t hrun
  obtain ⟨a, s', hp, hq⟩ := run_bind_eq_ok.mp hrun
  exact run_bind_eq_ok.mpr ⟨a, s', hP _ _ _ _ hp, hQ a _ _ _ _ hq⟩

theorem Steady.ite {c : Prop} [Decidable c] {P' : Nat → Prog Ret ε α} (hP : Steady h P) (hP' : Steady h P') :
    Steady h fun n => if c then P n else P' n := by
  intro n s a t hrun
  by_cases hc : c
  · simp only [hc, if_true] at hrun ⊢
    exact hP _ _ _ _ hrun
  · simp only [hc, if_false] at hrun ⊢
    exact hP' _ _ _ _ hrun

/-- Two loops in turn end where both do. -/
theorem ends_bind (hP : Steady h P) (hQ : ∀ a, Steady h (Q a)) :
    Ends h (fun n => P n >>= fun a => Q a n) s b t ↔ ∃ a s', Ends h P s a s' ∧ Ends h (Q a) s' b t := by
  constructor
  · rintro ⟨n, hrun⟩
    obtain ⟨a, s', hp, hq⟩ := run_bind_eq_ok.mp hrun
    exact ⟨a, s', ⟨n, hp⟩, ⟨n, hq⟩⟩
  · rintro ⟨a, s', ⟨n, hp⟩, ⟨m, hq⟩⟩
    refine ⟨max n m, run_bind_eq_ok.mpr ⟨a, s', hP.le (Nat.le_max_left n m) hp, ?_⟩⟩
    exact (hQ a).le (Nat.le_max_right n m) hq

theorem ends_const {p : Prog Ret ε α} : Ends h (fun _ => p) s a t ↔ run h p s = .ok (a, t) :=
  ⟨fun ⟨_, hrun⟩ => hrun, fun hrun => ⟨0, hrun⟩⟩

end Prog

/-! ## Scans of a list -/

/-- After an item a scan is done, or goes on with a state. -/
inductive Round (ρ : Type*) (σ : Type*)
  | done (r : ρ)
  | next (s : σ)

namespace Round

variable {ι ρ : Type*}

def scan (step : σ → ι → Round ρ σ) (s : σ) : List ι → Round ρ σ
  | [] => .next s
  | x :: xs =>
    match step s x with
    | .done r => .done r
    | .next s => scan step s xs

theorem scan_append (step : σ → ι → Round ρ σ) (ys : List ι) : ∀ (xs : List ι) (s : σ), scan step s (xs ++ ys) =
    match scan step s xs with
    | .done r => .done r
    | .next s => scan step s ys
  | [], _ => rfl
  | x :: xs, s => by
    rw [List.cons_append, scan, scan]
    cases step s x with
    | done r => rfl
    | next s => exact scan_append step ys xs s

/-- A scan that keeps no state goes on as long as each item lets it. -/
theorem scan_next_iff {step : Unit → ι → Round ρ Unit} : ∀ {xs : List ι},
    scan step () xs = .next () ↔ ∀ x ∈ xs, step () x = .next ()
  | [] => by simp [scan]
  | x :: xs => by
    rw [scan, List.forall_mem_cons]
    cases step () x with
    | done r => simp
    | next s => simp [scan_next_iff]

end Round
