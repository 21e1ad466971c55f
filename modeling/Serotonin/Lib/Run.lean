import Mathlib.Tactic.Common

/-! Runs of a transition system. A system is a set of start states and a step
relation; `Reachable` is the least set of states closed under both. A property
of every reachable state is proved from what one step preserves, and a system
whose steps are guarded is a system like any other. -/

namespace Run

variable {σ : Type*}

/-- The states a run of the system can be in. -/
inductive Reachable (init : σ → Prop) (step : σ → σ → Prop) : σ → Prop
  | start {s : σ} : init s → Reachable init step s
  | step {s t : σ} : Reachable init step s → step s t → Reachable init step t

variable {init : σ → Prop} {step step' : σ → σ → Prop}

/-- An inductive invariant holds in every reachable state. -/
theorem Reachable.invariant (inv : σ → Prop) (h0 : ∀ s, init s → inv s)
    (hs : ∀ s t, inv s → step s t → inv t) {s : σ} (h : Reachable init step s) : inv s := by
  induction h with
  | start hi => exact h0 _ hi
  | step _ hst ih => exact hs _ _ ih hst

/-- A system with fewer steps reaches fewer states. -/
theorem Reachable.mono (hsub : ∀ s t, step s t → step' s t) {s : σ}
    (h : Reachable init step s) : Reachable init step' s := by
  induction h with
  | start hi => exact .start hi
  | step _ hst ih => exact ih.step (hsub _ _ hst)

/-! ## Runs with their operations -/

variable {ι τ : Type*}

/-- The operations done in turn, as far as they are possible. -/
def exec (next : σ → ι → Option σ) (s : σ) : List ι → Option σ
  | [] => some s
  | op :: ops => (next s op).bind fun t => exec next t ops

theorem exec_snoc (next : σ → ι → Option σ) (op : ι) : ∀ (ops : List ι) (s : σ),
    Run.exec next s (ops ++ [op]) = (Run.exec next s ops).bind fun t => next t op
  | [], s => by
    show (next s op).bind some = next s op
    cases next s op <;> rfl
  | o :: ops, s => by
    show (next s o).bind (fun t => Run.exec next t (ops ++ [op])) = ((next s o).bind fun t => Run.exec next t ops).bind _
    rw [Option.bind_assoc]
    congr 1
    funext t
    exact exec_snoc next op ops t

/-- A run of operations each of which is a step of the system. -/
theorem Reachable.execOn {next : σ → ι → Option σ} : ∀ {ops : List ι},
    (∀ op ∈ ops, ∀ s t, next s op = some t → step s t) → ∀ {s t : σ}, Reachable init step s →
      Run.exec next s ops = some t → Reachable init step t
  | [], _, _, _, h, he => Option.some.inj he ▸ h
  | op :: _, hnext, s, _, h, he => by
    obtain ⟨t, ht, he⟩ := Option.bind_eq_some_iff.mp he
    exact Reachable.execOn (fun o ho => hnext o (List.mem_cons_of_mem _ ho))
      (h.step (hnext op List.mem_cons_self s t ht)) he

theorem Reachable.exec {next : σ → ι → Option σ} (hnext : ∀ s op t, next s op = some t → step s t)
    {ops : List ι} {s t : σ} (h : Reachable init step s) (he : Run.exec next s ops = some t) :
    Reachable init step t := Reachable.execOn (fun op _ s t => hnext s op t) h he

/-- The state that a sequence of operations leads to. -/
inductive Trace (step : σ → ι → σ → Prop) (s : σ) : List ι → σ → Prop
  | nil : Trace step s [] s
  | snoc {ops : List ι} {op : ι} {t t' : σ} : Trace step s ops t → step t op t' →
      Trace step s (ops ++ [op]) t'

/-- Forward simulation by a function: if each step is matched by the function on
the abstract state, a run is matched by the function applied in turn. -/
theorem Trace.simulates {next : σ → ι → σ → Prop} (R : σ → τ → Prop) (apply : τ → ι → τ)
    (hs : ∀ s s' t op, R s t → next s op s' → R s' (apply t op)) {s s' : σ} {t : τ} {ops : List ι}
    (h : Trace next s ops s') (h0 : R s t) : R s' (ops.foldl apply t) := by
  induction h with
  | nil => exact h0
  | snoc _ hst ih =>
    rw [List.foldl_append]
    exact hs _ _ _ _ ih hst

end Run
