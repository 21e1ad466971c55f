import Mathlib.Data.List.Basic
import Mathlib.Tactic.Common

/-! Readers that wait for a ring to be filled. A reader joins the queue when the ring is
empty; a writer that has put something in serves the first of the queue, which takes all of
it or a part. Nobody sleeps over data as long as the first takes all whenever others sleep
behind it. -/

namespace WaitRing

variable {ω τ : Type*} {asleep asleep' : ω → Prop} {queue queue' : List ω} {len len' : Nat}

/-- Whoever sleeps in the queue finds the ring empty. -/
def Awake (asleep : ω → Prop) (queue : List ω) (len : Nat) : Prop := ∀ w ∈ queue, asleep w → len = 0

theorem awake_nil (asleep : ω → Prop) (len : Nat) : Awake asleep [] len := fun _ hw => nomatch hw

/-- Fewer readers sleep, and an empty ring stays empty. -/
theorem Awake.mono (h : Awake asleep queue len) (hq : ∀ w ∈ queue', asleep' w → w ∈ queue ∧ asleep w)
    (hl : len = 0 → len' = 0) : Awake asleep' queue' len' := by
  intro w hw ha
  obtain ⟨hmem, hbefore⟩ := hq w hw ha
  exact hl (h w hmem hbefore)

/-- The first of the queue has room for `put` elements, if another task sleeps behind it. -/
def FirstTakes (task : ω → τ) (asleep : ω → Prop) (room : ω → Nat) (queue : List ω) (put : Nat) : Prop :=
  ∀ w ws, queue = w :: ws → (∃ w' ∈ ws, task w' ≠ task w ∧ asleep w') → put ≤ room w

theorem FirstTakes.head {task : ω → τ} {room : ω → Nat} {w : ω} {ws : List ω} {put : Nat} (hq : queue = w :: ws)
    (hroom : put ≤ room w) : FirstTakes task asleep room queue put := by
  intro v vs hv _
  rw [hq] at hv
  cases hv
  exact hroom

theorem FirstTakes.mono {task : ω → τ} {room : ω → Nat} {put : Nat} (h : FirstTakes task asleep room queue put)
    (ha : ∀ w ∈ queue, asleep' w → asleep w) : FirstTakes task asleep' room queue put := by
  intro w ws hq ⟨w', hw', hne, hsleep⟩
  refine h w ws hq ⟨w', hw', hne, ha w' ?_ hsleep⟩
  rw [hq]
  exact List.mem_cons_of_mem w hw'

/-- `put` elements go in, and the first of the queue leaves it, awake, with what it has room for. -/
theorem Awake.serve {task : ω → τ} {room : ω → Nat} {w : ω} {ws : List ω} {put : Nat}
    (h : Awake asleep (w :: ws) len) (hf : FirstTakes task asleep room (w :: ws) put)
    (ha : ∀ w' ∈ ws, asleep' w' → task w' ≠ task w ∧ asleep w') :
    Awake asleep' ws (len + put - min (room w) (len + put)) := by
  intro w' hw' hasleep
  obtain ⟨hne, hbefore⟩ := ha w' hw' hasleep
  have hempty : len = 0 := h w' (List.mem_cons_of_mem w hw') hbefore
  have hroom : put ≤ room w := hf w ws rfl ⟨w', hw', hne, hbefore⟩
  omega

end WaitRing
