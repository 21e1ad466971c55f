import Serotonin.Schedule.Conservation

/-! The run queues as one queue with priorities. The two bitmaps say exactly which queues have
a task, and each queue holds the tasks of its priority in the order in which they came, so
`dequeue` takes the earliest one of the highest priority. -/

namespace Serotonin.Schedule

open Function List

/-! ## The highest bit of a word -/

theorem getLsbD_highestBit {n : Nat} {w : BitVec n} (h : w ≠ 0#n) : w.getLsbD (highestBit w) = true := by
  have hne : w.toNat ≠ 0 := fun hz => h (BitVec.eq_of_toNat_eq (by simp [hz]))
  rw [← BitVec.testBit_toNat]
  exact Nat.testBit_log2 hne

theorem le_highestBit {n i : Nat} {w : BitVec n} (h : w.getLsbD i = true) : i ≤ highestBit w := by
  rw [← BitVec.testBit_toNat] at h
  have hle : 2 ^ i ≤ w.toNat := Nat.ge_two_pow_of_testBit h
  have hne : w.toNat ≠ 0 := Nat.pos_iff_ne_zero.mp (Nat.lt_of_lt_of_le (Nat.two_pow_pos i) hle)
  exact (Nat.le_log2 hne).mpr hle

theorem ne_zero_iff {n : Nat} {w : BitVec n} : w ≠ 0#n ↔ ∃ i, w.getLsbD i = true := by
  constructor
  · intro h
    exact ⟨_, getLsbD_highestBit h⟩
  · intro ⟨i, hi⟩ hz
    simp [hz] at hi

theorem getLsbD_one {n b : Nat} (h : b < n) (i : Nat) : (1#n <<< b).getLsbD i = decide (b = i) := by
  rw [← BitVec.twoPow_eq, BitVec.getLsbD_twoPow]
  simp [h]

/-! ## The place of a priority -/

def wordOf (p : UInt8) : Nat := (p >>> 5).toNat
def bitOf (p : UInt8) : Nat := (p &&& 31).toNat

theorem wordOf_eq (p : UInt8) : wordOf p = p.toNat / 32 := by
  simp [wordOf, Nat.shiftRight_eq_div_pow]

theorem bitOf_eq (p : UInt8) : bitOf p = p.toNat % 32 := by
  unfold bitOf
  rw [UInt8.toNat_and]
  exact Nat.and_two_pow_sub_one_eq_mod p.toNat 5

theorem wordOf_lt (p : UInt8) : wordOf p < 8 := by
  have hp := p.toNat_lt
  rw [wordOf_eq]
  omega

theorem bitOf_lt (p : UInt8) : bitOf p < 32 := by
  rw [bitOf_eq]
  exact Nat.mod_lt _ (by simp)

theorem place_inj {p q : UInt8} (hw : wordOf p = wordOf q) (hb : bitOf p = bitOf q) : p = q := by
  rw [wordOf_eq, wordOf_eq] at hw
  rw [bitOf_eq, bitOf_eq] at hb
  exact UInt8.toNat_inj.mp (by omega)

theorem le_of_place {p q : UInt8} (hw : wordOf p ≤ wordOf q) (hb : wordOf p = wordOf q → bitOf p ≤ bitOf q) :
    p ≤ q := by
  rw [wordOf_eq, wordOf_eq] at hw hb
  rw [bitOf_eq, bitOf_eq] at hb
  rw [UInt8.le_iff_toNat_le]
  omega

/-- The priority that is found at a bit of a word. -/
theorem place_ofNat {w b : Nat} (hw : w < 8) (hb : b < 32) :
    wordOf (UInt8.ofNat (w <<< 5 ||| b)) = w ∧ bitOf (UInt8.ofNat (w <<< 5 ||| b)) = b := by
  have hsum : w <<< 5 ||| b = w * 32 + b := by
    rw [← Nat.shiftLeft_add_eq_or_of_lt hb, Nat.shiftLeft_eq]
  have hval : (UInt8.ofNat (w <<< 5 ||| b)).toNat = w * 32 + b := by
    rw [hsum, UInt8.toNat_ofNat_of_lt' (by show _ < 256; omega)]
  rw [wordOf_eq, bitOf_eq, hval]
  omega

/-! ## The bitmaps -/

namespace Sched

def prioBit (s : Sched) (p : UInt8) : Bool := (s.prioBitmap (wordOf p)).getLsbD (bitOf p)
def groupBit (s : Sched) (w : Nat) : Bool := s.topBitmap.getLsbD w

/-- The bit of a group says whether its word has a bit. -/
def Grouped (s : Sched) : Prop := ∀ w < 8, s.groupBit w = true ↔ s.prioBitmap w ≠ 0#32

end Sched

theorem prioBit_bmSet (s : Sched) (p q : UInt8) : (bmSet s p).prioBit q = (s.prioBit q || decide (p = q)) := by
  show (update s.prioBitmap (wordOf p) (s.prioBitmap (wordOf p) ||| 1#32 <<< bitOf p) (wordOf q)).getLsbD _ = _
  by_cases hw : wordOf q = wordOf p
  · rw [hw, update_self, BitVec.getLsbD_or, getLsbD_one (bitOf_lt p), ← hw]
    have hiff : bitOf p = bitOf q ↔ p = q := ⟨place_inj hw.symm, fun he => he ▸ rfl⟩
    simp only [hiff]
    rfl
  · have hne : p ≠ q := fun he => hw (he ▸ rfl)
    rw [update_of_ne hw]
    simp [hne, Sched.prioBit]

theorem prioBit_bmClear (s : Sched) (p q : UInt8) : (bmClear s p).prioBit q = (s.prioBit q && decide (p ≠ q)) := by
  show (update s.prioBitmap (wordOf p) (s.prioBitmap (wordOf p) &&& ~~~(1#32 <<< bitOf p)) (wordOf q)).getLsbD _ = _
  by_cases hw : wordOf q = wordOf p
  · rw [hw, update_self, BitVec.getLsbD_and, BitVec.getLsbD_not, getLsbD_one (bitOf_lt p), ← hw]
    have hiff : bitOf p = bitOf q ↔ p = q := ⟨place_inj hw.symm, fun he => he ▸ rfl⟩
    have hlt := bitOf_lt q
    simp only [hiff, hlt]
    simp [Sched.prioBit]
  · have hne : p ≠ q := fun he => hw (he ▸ rfl)
    rw [update_of_ne hw]
    simp [hne, Sched.prioBit]

theorem grouped_bmSet {s : Sched} (h : s.Grouped) (p : UInt8) : (bmSet s p).Grouped := by
  intro w hw
  show (s.topBitmap ||| 1#8 <<< wordOf p).getLsbD w = true ↔
    update s.prioBitmap (wordOf p) (s.prioBitmap (wordOf p) ||| 1#32 <<< bitOf p) w ≠ 0#32
  rw [BitVec.getLsbD_or, getLsbD_one (wordOf_lt p)]
  by_cases he : wordOf p = w
  · subst he
    have hset : s.prioBitmap (wordOf p) ||| 1#32 <<< bitOf p ≠ 0#32 := by
      rw [ne_zero_iff]
      refine ⟨bitOf p, ?_⟩
      rw [BitVec.getLsbD_or, getLsbD_one (bitOf_lt p)]
      simp
    rw [update_self]
    simp [hset]
  · rw [update_of_ne (Ne.symm he)]
    simpa [he, Sched.groupBit] using h w hw

theorem grouped_bmClear {s : Sched} (h : s.Grouped) (p : UInt8) : (bmClear s p).Grouped := by
  intro w hw
  show (if s.prioBitmap (wordOf p) &&& ~~~(1#32 <<< bitOf p) = 0#32 then s.topBitmap &&& ~~~(1#8 <<< wordOf p)
      else s.topBitmap).getLsbD w = true ↔
    update s.prioBitmap (wordOf p) (s.prioBitmap (wordOf p) &&& ~~~(1#32 <<< bitOf p)) w ≠ 0#32
  by_cases he : wordOf p = w
  · subst he
    rw [update_self]
    split
    · next hz =>
      rw [BitVec.getLsbD_and, BitVec.getLsbD_not, getLsbD_one (wordOf_lt p)]
      simp [hz]
    · next hz =>
      -- A word that still has a bit had one before.
      have hold : s.prioBitmap (wordOf p) ≠ 0#32 := fun h0 => hz (by rw [h0, BitVec.zero_and])
      exact iff_of_true ((h _ hw).mpr hold) hz
  · rw [update_of_ne (Ne.symm he), ← h w hw]
    split
    · rw [BitVec.getLsbD_and, BitVec.getLsbD_not, getLsbD_one (wordOf_lt p)]
      simp [he, hw, Sched.groupBit]
    · rfl

/-- The group of a priority whose bit is set has its bit set. -/
theorem groupBit_iff {s : Sched} (h : s.Grouped) {w : Nat} (hw : w < 8) :
    s.groupBit w = true ↔ ∃ p, wordOf p = w ∧ s.prioBit p = true := by
  rw [h w hw, ne_zero_iff]
  constructor
  · intro ⟨b, hb⟩
    obtain ⟨hword, hbit⟩ := place_ofNat hw (BitVec.lt_of_getLsbD hb)
    refine ⟨_, hword, ?_⟩
    unfold Sched.prioBit
    rw [hword, hbit]
    exact hb
  · intro ⟨p, hp, hb⟩
    subst hp
    exact ⟨bitOf p, hb⟩

theorem highestReadyPrio_none {s : Sched} (h : s.Grouped) :
    highestReadyPrio s = none ↔ ∀ p, s.prioBit p = false := by
  have hiff : highestReadyPrio s = none ↔ s.topBitmap = 0#8 := by
    unfold highestReadyPrio
    split <;> simp [*]
  rw [hiff]
  constructor
  · intro hz p
    have hgroup := groupBit_iff h (wordOf_lt p)
    rw [Bool.eq_false_iff]
    intro hp
    have hset : s.groupBit (wordOf p) = true := hgroup.mpr ⟨p, rfl, hp⟩
    simp [Sched.groupBit, hz] at hset
  · intro hall
    by_contra hne
    have hset := getLsbD_highestBit hne
    obtain ⟨p, _, hp⟩ := (groupBit_iff h (BitVec.lt_of_getLsbD hset)).mp hset
    rw [hall p] at hp
    exact absurd hp (by simp)

/-- The highest word that has a bit, and in it the highest bit. -/
theorem highestReadyPrio_some {s : Sched} (h : s.Grouped) {p : UInt8} (hp : highestReadyPrio s = some p) :
    s.prioBit p = true ∧ ∀ q, s.prioBit q = true → q ≤ p := by
  unfold highestReadyPrio at hp
  split at hp
  · cases hp
  · next hne =>
    have hword := getLsbD_highestBit hne
    have hlt : highestBit s.topBitmap < 8 := BitVec.lt_of_getLsbD hword
    have hbit := getLsbD_highestBit ((h _ hlt).mp hword)
    obtain ⟨hw, hb⟩ := place_ofNat hlt (BitVec.lt_of_getLsbD hbit)
    rw [Option.some.inj hp] at hw hb
    refine ⟨?_, fun q hq => le_of_place ?_ fun he => ?_⟩
    · unfold Sched.prioBit
      rw [hw, hb]
      exact hbit
    · rw [hw]
      exact le_highestBit ((groupBit_iff h (wordOf_lt q)).mpr ⟨q, rfl, hq⟩)
    · rw [hb]
      rw [hw] at he
      unfold Sched.prioBit at hq
      rw [he] at hq
      exact le_highestBit hq

/-! ## The queues in order -/

namespace Sched

/-- The tasks that wait, in the order in which they came. -/
def waiting (s : Sched) : List Tid := s.pending.reverse

def ofPriority (s : Sched) (p : UInt8) : List Tid := s.waiting.filter fun t => (s.pcb t).priority = p

/-- The queues hold the waiting tasks in order, and the bitmaps say which of them have one. -/
structure InOrder (s : Sched) : Prop where
  linked : Linked s s.ofPriority
  marked : ∀ p, s.prioBit p = true ↔ s.ofPriority p ≠ []
  grouped : s.Grouped
  nodup : s.pending.Nodup

end Sched

open Sched

theorem mem_waiting {s : Sched} {t : Tid} : t ∈ s.waiting ↔ t ∈ s.pending := mem_reverse

theorem mem_ofPriority {s : Sched} {p : UInt8} {t : Tid} :
    t ∈ s.ofPriority p ↔ t ∈ s.pending ∧ (s.pcb t).priority = p := by
  simp [ofPriority, mem_waiting]

theorem SameTasks.priority {s s' : Sched} (h : SameTasks s s') (t : Tid) :
    (s'.pcb t).priority = (s.pcb t).priority := by
  obtain ⟨n, hn⟩ := h.pcb t
  rw [hn]

theorem SameTasks.ofPriority {s s' : Sched} (h : SameTasks s s') (p : UInt8) :
    s'.ofPriority p = s'.waiting.filter fun t => (s.pcb t).priority = p := by
  simp only [Sched.ofPriority, h.priority]

/-- The bitmaps are the same. -/
structure SameMarks (s s' : Sched) : Prop where
  prioBitmap : s'.prioBitmap = s.prioBitmap
  topBitmap : s'.topBitmap = s.topBitmap

theorem SameMarks.prioBit {s s' : Sched} (h : SameMarks s s') (p : UInt8) : s'.prioBit p = s.prioBit p := by
  unfold Sched.prioBit
  rw [h.prioBitmap]

theorem SameMarks.grouped {s s' : Sched} (h : SameMarks s s') (hg : s.Grouped) : s'.Grouped := by
  intro w hw
  unfold Sched.groupBit
  rw [h.prioBitmap, h.topBitmap]
  exact hg w hw

theorem sameMarks_enqueue (s : Sched) (t : Tid) :
    SameMarks (if (s.prioQ (s.pcb t).priority).head = none then bmSet s (s.pcb t).priority else s) (enqueue s t) := by
  unfold enqueue
  dsimp only
  cases hh : (s.prioQ (s.pcb t).priority).head with
  | none => exact ⟨rfl, rfl⟩
  | some head => cases ht : (s.prioQ (s.pcb t).priority).tail <;> exact ⟨rfl, rfl⟩

theorem sameMarks_dequeue {s : Sched} {p : UInt8} {t : Tid} (hp : highestReadyPrio s = some p)
    (hh : (s.prioQ p).head = some t) :
    SameMarks (if s.rqNext t = none then bmClear s p else s) (dequeue s).2 := by
  unfold dequeue
  simp only [hp, hh]
  cases hn : s.rqNext t <;> exact ⟨rfl, rfl⟩

theorem head_none_iff {s : Sched} {L : UInt8 → List Tid} (h : Linked s L) (p : UInt8) :
    (s.prioQ p).head = none ↔ L p = [] := by
  have hchain := h.chain p
  cases hL : L p with
  | nil =>
    rw [hL] at hchain
    simpa using hchain
  | cons y ys =>
    rw [hL] at hchain
    simp [hchain.1]

theorem Sched.InOrder.enqueue {s : Sched} (h : s.InOrder) {t : Tid} (ht : t ∉ s.pending) : (enqueue s t).InOrder := by
  have hpend := enqueue_pending s t
  have hsame := sameTasks_enqueue s t
  have hmarks := sameMarks_enqueue s t
  have hwait : (Schedule.enqueue s t).waiting = s.waiting ++ [t] := by
    rw [waiting, hpend, reverse_cons]
    rfl
  have hof : (Schedule.enqueue s t).ofPriority =
      update s.ofPriority (s.pcb t).priority (s.ofPriority (s.pcb t).priority ++ [t]) := by
    funext p
    rw [hsame.ofPriority, hwait, filter_append]
    by_cases hp : p = (s.pcb t).priority
    · subst hp
      simp [Sched.ofPriority]
    · rw [update_of_ne hp]
      simp [Sched.ofPriority, Ne.symm hp]
  refine ⟨hof ▸ h.linked.enqueue ht, fun p => ?_, ?_, ?_⟩
  · rw [hmarks.prioBit, hof]
    by_cases hp : p = (s.pcb t).priority
    · subst hp
      rw [update_self]
      refine iff_of_true ?_ (by simp)
      split
      · rw [prioBit_bmSet]
        simp
      · next hne => exact (h.marked _).mpr fun hnil => hne ((head_none_iff h.linked _).mpr hnil)
    · rw [update_of_ne hp, ← h.marked]
      split
      · rw [prioBit_bmSet]
        simp [Ne.symm hp]
      · rfl
  · apply hmarks.grouped
    split
    · exact grouped_bmSet h.grouped _
    · exact h.grouped
  · rw [hpend]
    exact nodup_cons.mpr ⟨ht, h.nodup⟩

/-- With a bit set for each queue that has a task, a task is found as long as there is one. -/
theorem Sched.InOrder.dequeue_cases {s : Sched} (h : s.InOrder) :
    s.pending = [] ∧ Schedule.dequeue s = (none, s) ∨
      ∃ p t ys, highestReadyPrio s = some p ∧ (s.prioQ p).head = some t ∧ s.ofPriority p = t :: ys ∧
        ∀ u ∈ s.pending, (s.pcb u).priority ≤ p := by
  have hbit : ∀ u ∈ s.pending, s.prioBit (s.pcb u).priority = true := fun u hu =>
    (h.marked _).mpr (ne_nil_of_mem (mem_ofPriority.mpr ⟨hu, rfl⟩))
  cases hp : highestReadyPrio s with
  | none =>
    refine .inl ⟨eq_nil_iff_forall_not_mem.mpr fun u hu => ?_, dequeue_of_none hp⟩
    have hclear := (highestReadyPrio_none h.grouped).mp hp (s.pcb u).priority
    rw [hbit u hu] at hclear
    cases hclear
  | some p =>
    obtain ⟨hset, hmax⟩ := highestReadyPrio_some h.grouped hp
    have hne := (h.marked p).mp hset
    have hchain := h.linked.chain p
    cases hL : s.ofPriority p with
    | nil => exact absurd hL hne
    | cons t ys =>
      rw [hL] at hchain
      exact .inr ⟨p, t, ys, rfl, hchain.1, hL, fun u hu => hmax _ (hbit u hu)⟩

theorem Sched.InOrder.dequeue {s : Sched} (h : s.InOrder) : (Schedule.dequeue s).2.InOrder := by
  rcases h.dequeue_cases with ⟨_, heq⟩ | ⟨p, t, ys, hp, hh, hys, _⟩
  · rw [heq]
    exact h
  · obtain ⟨zs, hzs, _, hpend, hlinked⟩ := h.linked.dequeueHead hp hh
    rw [hys] at hzs
    cases hzs
    have hsame := sameTasks_dequeue s
    have hmarks := sameMarks_dequeue hp hh
    have hwait : (Schedule.dequeue s).2.waiting = s.waiting.filter (· != t) := by
      rw [waiting, hpend, ← filter_reverse]
      rfl
    have hnodup : (t :: ys).Nodup := by
      rw [← hys]
      exact (nodup_reverse.mpr h.nodup).filter _
    have hprio : (s.pcb t).priority = p := (mem_ofPriority.mp (by rw [hys]; simp)).2
    have hof : (Schedule.dequeue s).2.ofPriority = update s.ofPriority p ys := by
      funext q
      rw [hsame.ofPriority, hwait, filter_comm]
      show (s.ofPriority q).filter (· != t) = _
      by_cases hq : q = p
      · subst hq
        rw [hys, update_self, filter_cons_of_neg (by simp)]
        exact filter_eq_self.mpr fun u hu => by
          rw [bne_iff_ne]
          exact fun he => (nodup_cons.mp hnodup).1 (he ▸ hu)
      · rw [update_of_ne hq]
        exact filter_eq_self.mpr fun u hu => by
          rw [bne_iff_ne]
          intro he
          exact hq ((he ▸ (mem_ofPriority.mp hu).2).symm.trans hprio)
    have hnext : s.rqNext t = none ↔ ys = [] := by
      have hchain := h.linked.chain p
      rw [hys] at hchain
      cases ys with
      | nil => simpa using hchain.2
      | cons y ys => simp [hchain.2.1]
    refine ⟨hof ▸ hlinked, fun q => ?_, ?_, ?_⟩
    · rw [hmarks.prioBit, hof]
      by_cases hq : q = p
      · subst hq
        rw [update_self]
        split
        · next hn =>
          rw [prioBit_bmClear]
          simp [hnext.mp hn]
        · next hn =>
          refine iff_of_true ((h.marked _).mpr (by rw [hys]; simp)) fun hnil => hn (hnext.mpr hnil)
      · rw [update_of_ne hq, ← h.marked]
        split
        · rw [prioBit_bmClear]
          simp [Ne.symm hq]
        · rfl
    · apply hmarks.grouped
      split
      · exact grouped_bmClear h.grouped _
      · exact h.grouped
    · rw [hpend]
      exact h.nodup.filter _

/-- The head of the highest queue that has a task, among all that wait. -/
theorem first_of_highest {s : Sched} {p : UInt8} {t : Tid} {ys : List Tid}
    (hys : s.ofPriority p = t :: ys) (hmax : ∀ u ∈ s.pending, (s.pcb u).priority ≤ p) :
    ∃ before after, s.waiting = before ++ t :: after ∧ (∀ u ∈ before, (s.pcb u).priority < (s.pcb t).priority) ∧
      ∀ u ∈ after, (s.pcb u).priority ≤ (s.pcb t).priority := by
  obtain ⟨before, after, hsplit, hbefore, hprio, _⟩ := filter_eq_cons_iff.mp hys
  have hprio : (s.pcb t).priority = p := of_decide_eq_true hprio
  refine ⟨before, after, hsplit, fun u hu => ?_, fun u hu => ?_⟩
  · have hle := hmax u (mem_waiting.mp (by rw [hsplit]; simp [hu]))
    have hne : (s.pcb u).priority ≠ p := fun he => hbefore u hu (decide_eq_true he)
    rw [hprio]
    exact UInt8.lt_of_le_of_ne hle hne
  · rw [hprio]
    exact hmax u (mem_waiting.mp (by rw [hsplit]; simp [hu]))

/-! ## Runs -/

/-- The priority of a task changes only while it is not queued. -/
inductive QueueOp where
  | enqueue (t : Tid)
  | dequeue
  | setPriority (t : Tid) (p : UInt8)

def queueStep (s : Sched) : QueueOp → Option Sched
  | .enqueue t => if t ∈ s.pending then none else some (enqueue s t)
  | .dequeue => some (dequeue s).2
  | .setPriority t p => if t ∈ s.pending then none else some (s.modify t fun x => { x with priority := p })

/-- No task is queued and no bit is set. -/
structure Sched.Empty (s : Sched) : Prop where
  pending : s.pending = []
  prioQ : ∀ p, s.prioQ p = ⟨none, none⟩
  prioBitmap : ∀ w, s.prioBitmap w = 0#32
  topBitmap : s.topBitmap = 0#8

theorem Sched.Empty.inOrder {s : Sched} (h : s.Empty) : s.InOrder := by
  have hof : ∀ p, s.ofPriority p = [] := fun p => by simp [ofPriority, waiting, h.pending]
  refine ⟨⟨fun p => ?_, fun p => ?_, fun p q t ht => ?_, fun t => ?_⟩, fun p => ?_, fun w _ => ?_, ?_⟩
  · rw [h.prioQ, hof]
    rfl
  · rw [h.prioQ, hof]
    rfl
  · rw [hof] at ht
    cases ht
  · simp [hof, h.pending]
  · simp [hof, prioBit, h.prioBitmap]
  · simp [groupBit, h.prioBitmap, h.topBitmap]
  · rw [h.pending]
    exact nodup_nil

theorem Sched.InOrder.setPriority {s : Sched} (h : s.InOrder) {t : Tid} (ht : t ∉ s.pending) (p : UInt8) :
    (s.modify t fun x => { x with priority := p }).InOrder := by
  have hsame := sameQueues_modify s t (f := fun x => { x with priority := p }) fun _ => rfl
  have hof : (s.modify t fun x => { x with priority := p }).ofPriority = s.ofPriority := by
    funext q
    refine filter_congr fun u hu => ?_
    have hne : u ≠ t := fun he => ht (he ▸ mem_waiting.mp hu)
    rw [modify_pcb_ne hne]
  exact ⟨hof ▸ h.linked.congr hsame, hof ▸ h.marked, h.grouped, h.nodup⟩

theorem Sched.InOrder.queueStep {s s' : Sched} (h : s.InOrder) {op : QueueOp} (hs : queueStep s op = some s') :
    s'.InOrder := by
  cases op with
  | enqueue t =>
    obtain ⟨ht, hs⟩ := Option.ite_none_left_eq_some.mp hs
    cases hs
    exact h.enqueue ht
  | dequeue =>
    cases hs
    exact h.dequeue
  | setPriority t p =>
    obtain ⟨ht, hs⟩ := Option.ite_none_left_eq_some.mp hs
    cases hs
    exact h.setPriority ht p

def QueueRun : Sched → Prop := Run.Reachable Sched.Empty fun s s' => ∃ op, queueStep s op = some s'

/-- `dequeue` takes the earliest task of the highest priority, and the bitmaps say which queues
have a task. -/
structure PriorityQueue (s : Sched) : Prop where
  none : (dequeue s).1 = none ↔ s.waiting = []
  some : ∀ t, (dequeue s).1 = some t → ∃ before after, s.waiting = before ++ t :: after ∧
    (∀ u ∈ before, (s.pcb u).priority < (s.pcb t).priority) ∧ ∀ u ∈ after, (s.pcb u).priority ≤ (s.pcb t).priority
  queued : ∀ p, (s.prioQ p).head ≠ Option.none ↔ ∃ t ∈ s.waiting, (s.pcb t).priority = p
  bit : ∀ p, s.prioBit p = true ↔ (s.prioQ p).head ≠ Option.none
  group : ∀ w < 8, s.groupBit w = true ↔ ∃ p, wordOf p = w ∧ (s.prioQ p).head ≠ Option.none

theorem Sched.InOrder.priorityQueue {s : Sched} (h : s.InOrder) : PriorityQueue s := by
  have hhead : ∀ p, (s.prioQ p).head ≠ none ↔ s.ofPriority p ≠ [] := fun p =>
    not_congr (head_none_iff h.linked p)
  have hbit : ∀ p, s.prioBit p = true ↔ (s.prioQ p).head ≠ none := fun p => (h.marked p).trans (hhead p).symm
  have hempty : s.waiting = [] ↔ s.pending = [] := reverse_eq_nil_iff
  refine ⟨?_, fun t ht => ?_, fun p => ?_, hbit, fun w hw => ?_⟩
  · rcases h.dequeue_cases with ⟨hnil, heq⟩ | ⟨p, t, ys, hp, hh, hys, _⟩
    · rw [heq, hempty]
      exact iff_of_true rfl hnil
    · obtain ⟨_, _, ht, _⟩ := h.linked.dequeueHead hp hh
      have hmem : t ∈ s.waiting := mem_waiting.mpr (mem_ofPriority.mp (by rw [hys]; simp)).1
      rw [ht]
      exact iff_of_false (by simp) (ne_nil_of_mem hmem)
  · rcases h.dequeue_cases with ⟨_, heq⟩ | ⟨p, t', ys, hp, hh, hys, hmax⟩
    · rw [heq] at ht
      cases ht
    · obtain ⟨_, _, ht', _⟩ := h.linked.dequeueHead hp hh
      rw [ht'] at ht
      cases ht
      exact first_of_highest hys hmax
  · rw [hhead, ← isEmpty_eq_false_iff, isEmpty_eq_false_iff_exists_mem]
    simp only [mem_ofPriority, mem_waiting]
  · rw [groupBit_iff h.grouped hw]
    simp only [hbit]

theorem priorityQueue_of_run {s : Sched} (h : QueueRun s) : PriorityQueue s :=
  (h.invariant Sched.InOrder (fun _ hs => hs.inOrder) fun _ _ hi ⟨_, hs⟩ => hi.queueStep hs).priorityQueue

theorem booted_empty : booted.Empty := ⟨rfl, fun _ => rfl, fun _ => rfl, rfl⟩

/-- Both tasks of the booted kernel are queued, and the compositor has the higher priority. -/
theorem priorityQueue_of_run_two :
    PriorityQueue (enqueue (enqueue booted 1) 2) ∧ (dequeue (enqueue (enqueue booted 1) 2)).1 = some 2 :=
  ⟨priorityQueue_of_run (((Run.Reachable.start booted_empty).step ⟨.enqueue 1, rfl⟩).step ⟨.enqueue 2, rfl⟩), by decide +kernel⟩

end Serotonin.Schedule
