import Mathlib.Data.List.Chain
import Mathlib.Tactic.Common

/-! A bounded queue that loses its oldest element when it overflows, and joins what comes with the
element before. The ledger of its run has all that was put in, in order, and what became of each:
it still waits, it was delivered, it was dropped, or the element behind it took its place. -/

namespace Ledger

open List

inductive Fate
  | waiting
  | delivered
  | dropped
  | joined
deriving DecidableEq

variable {α : Type*}

/-- The elements of a ledger with the fate. -/
def withFate (fate : Fate) (l : List (α × Fate)) : List α := (l.filter (·.2 = fate)).map Prod.fst

/-- What comes has to be joined with the last element, which waits. -/
def Meets (joins : α → α → Prop) (l : List (α × Fate)) (x : α) : Prop := ∃ y, l.getLast? = some (y, .waiting) ∧ joins y x

/-- The ledgers of the runs, with what was delivered so far: at most `cap` elements wait, and `joins`
says of two elements whether the second takes the place of the first. -/
inductive Kept (cap : Nat) (joins : α → α → Prop) : List (α × Fate) → List α → Prop
  | start : Kept cap joins [] []
  /-- Nothing waits, and an element is delivered at once. -/
  | passed {l : List (α × Fate)} {d : List α} (x : α) : Kept cap joins l d → withFate .waiting l = [] →
    Kept cap joins (l ++ [(x, .delivered)]) (d ++ [x])
  | added {l : List (α × Fate)} {d : List α} (x : α) : Kept cap joins l d → ¬Meets joins l x →
    (withFate .waiting l).length < cap → Kept cap joins (l ++ [(x, .waiting)]) d
  | joined {l : List (α × Fate)} {d : List α} {y : α} (x : α) : Kept cap joins (l ++ [(y, .waiting)]) d → joins y x →
    Kept cap joins (l ++ [(y, .joined), (x, .waiting)]) d
  /-- As many wait as can, and the first of them is dropped. -/
  | dropped {l l' : List (α × Fate)} {d : List α} {y : α} (x : α) : Kept cap joins (l ++ (y, .waiting) :: l') d →
    ¬Meets joins (l ++ (y, .waiting) :: l') x → withFate .waiting l = [] →
    (withFate .waiting (l ++ (y, .waiting) :: l')).length = cap →
    Kept cap joins (l ++ (y, .dropped) :: l' ++ [(x, .waiting)]) d
  /-- The first that waits is delivered. -/
  | taken {l l' : List (α × Fate)} {d : List α} {y : α} : Kept cap joins (l ++ (y, .waiting) :: l') d →
    withFate .waiting l = [] → Kept cap joins (l ++ (y, .delivered) :: l') (d ++ [y])

variable {l l' : List (α × Fate)} {d : List α} {x y : α} {fate fate' : Fate} {cap : Nat} {joins : α → α → Prop}

@[simp] theorem withFate_nil : withFate fate ([] : List (α × Fate)) = [] := rfl

@[simp] theorem withFate_append : withFate fate (l ++ l') = withFate fate l ++ withFate fate l' := by
  simp [withFate]

@[simp] theorem withFate_cons : withFate fate ((x, fate') :: l) =
    if fate' = fate then x :: withFate fate l else withFate fate l := by
  by_cases h : fate' = fate
  · simp [withFate, h]
  · simp [withFate, h]

theorem withFate_eq_nil : withFate fate l = [] ↔ ∀ e ∈ l, e.2 ≠ fate := by
  simp [withFate, filter_eq_nil_iff]

/-- The first that waits has nothing that waits before it. -/
theorem exists_of_waiting_cons {xs : List α} : ∀ {l : List (α × Fate)}, withFate .waiting l = x :: xs →
    ∃ l₁ l₂, l = l₁ ++ (x, .waiting) :: l₂ ∧ withFate .waiting l₁ = [] ∧ withFate .waiting l₂ = xs
  | (y, fate) :: l, h => by
    rw [withFate_cons] at h
    by_cases hfate : fate = .waiting
    · rw [if_pos hfate, List.cons.injEq] at h
      obtain ⟨rfl, hrest⟩ := h
      exact ⟨[], l, by rw [hfate, nil_append], rfl, hrest⟩
    · rw [if_neg hfate] at h
      obtain ⟨l₁, l₂, rfl, hnone, hrest⟩ := exists_of_waiting_cons h
      refine ⟨(y, fate) :: l₁, l₂, rfl, ?_, hrest⟩
      rw [withFate_cons, if_neg hfate, hnone]

/-! ## What the ledger of a run is like -/

/-- If something waits, then what came last does. -/
theorem Kept.ended (h : Kept cap joins l d) : withFate .waiting l = [] ∨ ∃ l₁ x, l = l₁ ++ [(x, .waiting)] := by
  induction h with
  | start => exact .inl rfl
  | passed x _ hnone _ => simp [hnone]
  | added x _ _ _ _ => exact .inr ⟨_, _, rfl⟩
  | @joined l _ y x _ _ _ => exact .inr ⟨l ++ [(y, .joined)], x, by rw [append_assoc, singleton_append]⟩
  | dropped x _ _ _ _ _ => exact .inr ⟨_, _, rfl⟩
  | @taken l l' _ y _ hnone ih =>
    obtain rfl | ⟨l₂, e, rfl⟩ := eq_nil_or_concat' l'
    · exact .inl (by simp [hnone])
    · obtain hnot | ⟨l₁, x, hlast⟩ := ih
      · simp at hnot
      · rw [← cons_append, ← append_assoc] at hlast
        obtain ⟨-, he⟩ := append_inj' hlast rfl
        rw [he]
        exact .inr ⟨l ++ (y, .delivered) :: l₂, x, by simp⟩

theorem Kept.last_waiting {xs : List α} (h : Kept cap joins l d) (hl : withFate .waiting l = xs ++ [x]) :
    ∃ l₁, l = l₁ ++ [(x, .waiting)] ∧ withFate .waiting l₁ = xs := by
  obtain hnone | ⟨l₁, y, rfl⟩ := h.ended
  · simp [hnone] at hl
  · simp only [withFate_append, withFate_cons, if_true, withFate_nil] at hl
    obtain ⟨hxs, hx⟩ := append_inj' hl rfl
    rw [singleton_inj] at hx
    exact ⟨l₁, by rw [hx], hxs⟩

/-- What waits is behind all that was delivered or dropped. -/
def InTurn (l : List (α × Fate)) : Prop := l.Pairwise fun a b => a.2 = .waiting → b.2 ≠ .delivered ∧ b.2 ≠ .dropped

/-- What comes waits, behind all others. -/
theorem InTurn.snoc (h : InTurn l) (x : α) : InTurn (l ++ [(x, .waiting)]) := by
  refine pairwise_append.mpr ⟨h, pairwise_singleton _ _, fun a _ b hb _ => ?_⟩
  rw [mem_singleton.mp hb]
  exact ⟨nofun, nofun⟩

/-- The first that waits no longer does. -/
theorem InTurn.settle (h : InTurn (l ++ (y, .waiting) :: l')) (hnone : withFate .waiting l = []) (hfate : fate ≠ .waiting) :
    InTurn (l ++ (y, fate) :: l') := by
  obtain ⟨hl, hl', -⟩ := pairwise_append.mp h
  rw [withFate_eq_nil] at hnone
  exact pairwise_append.mpr ⟨hl, (pairwise_cons.mp hl').2.cons fun b _ hw => absurd hw hfate,
    fun a ha b _ hw => absurd hw (hnone a ha)⟩

theorem Kept.inTurn (h : Kept cap joins l d) : InTurn l := by
  induction h with
  | start => exact .nil
  | passed x _ hnone ih =>
    rw [withFate_eq_nil] at hnone
    exact pairwise_append.mpr ⟨ih, pairwise_singleton _ _, fun a ha b _ hw => absurd hw (hnone a ha)⟩
  | added x _ _ _ ih => exact ih.snoc x
  | @joined l _ y x _ _ ih =>
    obtain ⟨hl, -, -⟩ := pairwise_append.mp ih
    have hjoined : InTurn (l ++ [(y, .joined)]) := by
      refine pairwise_append.mpr ⟨hl, pairwise_singleton _ _, fun a _ b hb _ => ?_⟩
      rw [mem_singleton.mp hb]
      exact ⟨nofun, nofun⟩
    have hsnoc := hjoined.snoc x
    rwa [append_assoc] at hsnoc
  | dropped x _ _ hnone _ ih => exact (ih.settle hnone (by decide : Fate.dropped ≠ .waiting)).snoc x
  | taken _ hnone ih => exact ih.settle hnone (by decide)

/-- What was delivered are the elements with that fate, in the order in which they came. -/
theorem Kept.delivered_eq (h : Kept cap joins l d) : d = withFate .delivered l := by
  induction h with
  | start => rfl
  | passed x _ _ ih => simp [ih]
  | added x _ _ _ ih => simp [ih]
  | joined x _ _ ih => simpa using ih
  | dropped x _ _ _ _ ih => simpa using ih
  | taken hkept hnone ih =>
    obtain ⟨-, hl', -⟩ := pairwise_append.mp hkept.inTurn
    have hlater : withFate .delivered _ = [] := withFate_eq_nil.mpr fun e he => ((pairwise_cons.mp hl').1 e he rfl).1
    simp only [withFate_append, withFate_cons, reduceCtorEq, if_false, if_true, hlater] at ih ⊢
    rw [ih, append_nil]

/-- Nothing is there twice or out of order. -/
theorem InTurn.sublist (h : InTurn l) : (withFate .delivered l ++ withFate .waiting l).Sublist (l.map Prod.fst) := by
  induction l with
  | nil => exact .refl _
  | cons e l ih =>
    obtain ⟨x, fate⟩ := e
    obtain ⟨hhead, htail⟩ := pairwise_cons.mp h
    cases fate with
    | waiting =>
      have hlater : withFate .delivered l = [] := withFate_eq_nil.mpr fun e he => (hhead e he rfl).1
      have hrest := ih htail
      simp only [hlater, nil_append] at hrest
      simpa [hlater] using hrest
    | delivered => simpa using ih htail
    | dropped => simpa using (ih htail).cons x
    | joined => simpa using (ih htail).cons x

/-- An element whose place another took has that one right behind it. -/
def Followed (joins : α → α → Prop) (l : List (α × Fate)) : Prop :=
  (l.IsChain fun a b => a.2 = .joined → joins a.1 b.1) ∧ ∀ e ∈ l.getLast?, e.2 ≠ .joined

theorem Followed.snoc (h : Followed joins l) (x : α) (hfate : fate ≠ .joined) : Followed joins (l ++ [(x, fate)]) := by
  refine ⟨isChain_append.mpr ⟨h.1, .singleton _, fun a ha b _ hj => absurd hj (h.2 a ha)⟩, fun e he => ?_⟩
  rw [List.getLast?_concat, Option.mem_some_iff] at he
  rwa [← he]

theorem Followed.settle (h : Followed joins (l ++ (y, fate) :: l')) (hfate' : fate' ≠ .joined) :
    Followed joins (l ++ (y, fate') :: l') := by
  obtain ⟨hchain, hlast⟩ := h
  obtain ⟨hl, hl', hcross⟩ := isChain_append.mp hchain
  refine ⟨isChain_append.mpr ⟨hl, ?_, ?_⟩, ?_⟩
  · exact isChain_cons.mpr ⟨fun b _ hj => absurd hj hfate', (isChain_cons.mp hl').2⟩
  · intro a ha b hb hj
    cases hb
    exact hcross a ha (y, fate) rfl hj
  · intro e he
    obtain rfl | ⟨l₂, e', rfl⟩ := eq_nil_or_concat' l'
    · rw [List.getLast?_concat, Option.mem_some_iff] at he
      rwa [← he]
    · refine hlast e ?_
      rw [← cons_append, ← append_assoc, List.getLast?_concat] at he ⊢
      exact he

theorem Kept.followed (h : Kept cap joins l d) : Followed joins l := by
  induction h with
  | start => exact ⟨.nil, nofun⟩
  | passed x _ _ ih => exact ih.snoc x (by decide)
  | added x _ _ _ ih => exact ih.snoc x (by decide)
  | @joined l _ y x _ hjoins ih =>
    obtain ⟨hl, -, hcross⟩ := isChain_append.mp ih.1
    refine ⟨isChain_append.mpr ⟨hl, ?_, ?_⟩, ?_⟩
    · exact isChain_cons_cons.mpr ⟨fun _ => hjoins, .singleton _⟩
    · intro a ha b hb hj
      cases hb
      exact hcross a ha (y, .waiting) rfl hj
    · intro e he
      rw [List.getLast?_append_cons, List.getLast?_cons_cons] at he
      cases he
      nofun
  | dropped x _ _ _ _ ih => exact (ih.settle (by decide : Fate.dropped ≠ .joined)).snoc x (by decide)
  | taken _ _ ih => exact ih.settle (by decide)

theorem Followed.exists_joins (h : Followed joins l) {e : α × Fate} (he : e ∈ l) (hfate : e.2 = .joined) : ∃ x, joins e.1 x := by
  obtain ⟨l₁, l₂, rfl⟩ := append_of_mem he
  obtain ⟨hchain, hlast⟩ := h
  cases l₂ with
  | nil => exact absurd hfate (hlast e (by simp))
  | cons b l₂ =>
    obtain ⟨-, hl, -⟩ := isChain_append.mp hchain
    exact ⟨b.1, (isChain_cons_cons.mp hl).1 hfate⟩

end Ledger
