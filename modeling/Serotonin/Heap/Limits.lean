import Serotonin.Heap.DebugSwitch

/-! Sizes at the limits of 32 bits. The rounded size, the guard and the header are added to an address, and
each of the sums can wrap around; then the heap ends at once in front of the new block. -/

namespace Serotonin.Heap
open ByteMem Chain

/-- `ALIGN_UP(x, a)`, for a power of two. -/
def alignUp (x a : Nat) : Nat := u32 (x + (a - 1)) / a * a

/-- The address of `((uintptr_t*)p)[-1]`. -/
def wordBefore (p : Nat) : Nat := u32 (p + (2 ^ 32 - 4))

/-- The block in which an aligned address lies. -/
def rawOf (m : Mem) (p : Nat) : Nat := load32 m (wordBefore p)

def kernelMallocAlign (h : HeapState) (align size : Nat) : Result (HeapState × Nat) := do
  let (h, raw) ← kernelMalloc h (u32 (size + align - 1 + 4))
  if raw = 0 then pure (h, 0)
  else
    let aligned := alignUp (u32 (raw + 4)) align
    pure ({ h with mem := store32 h.mem (wordBefore aligned) raw }, aligned)

def kernelFreeAlign (h : HeapState) (p : Nat) : Result HeapState :=
  if p = 0 then pure h else kernelFree h (rawOf h.mem p)

/-- `n` bytes at `p` in the block that was returned as `raw`: inside the heap, behind everything that was
there before or in a block of the list that is not live. -/
structure Usable (s : System) (h' : HeapState) (raw p n : Nat) : Prop where
  above : heapStart ≤ raw
  inside : raw ≤ p ∧ p + n ≤ raw + payloadSize h'.mem raw
  below : raw + payloadSize h'.mem raw ≤ h'.currentHeap
  top : h'.currentHeap ≤ heapEnd
  apart : ∀ q ∈ s.live.map Prod.fst,
    raw + payloadSize h'.mem raw ≤ q ∨ q + payloadSize s.heap.mem q ≤ raw
  forward : s.heap.currentHeap ≤ h'.currentHeap

/-- `kernel_malloc` panics, or it returns a block for `n` bytes. -/
def MallocOk (s : System) (n : Nat) : Prop :=
  (∃ msg, kernelMalloc s.heap n = .error (.panic msg)) ∨
    ∃ h' p, kernelMalloc s.heap n = .ok (h', p) ∧ Usable s h' p p n

def MallocAlignOk (s : System) (align n : Nat) : Prop :=
  (∃ msg, kernelMallocAlign s.heap align n = .error (.panic msg)) ∨
    ∃ h' p, kernelMallocAlign s.heap align n = .ok (h', p) ∧ p % align = 0 ∧
      Usable s h' (rawOf h'.mem p) p n

/-- Where `current_heap` would come to lie with a new block. -/
def newTop (h : HeapState) (bs : List Block) (want : Nat) : Nat :=
  u32 ((if bs ≠ [] ∧ pageSize ≤ want then pageAlign h.currentHeap else h.currentHeap) +
    (headerSize + u32 (want + kernelHeapGuardSize h)))

/-- No free block is large enough, and a new one would end past the heap. -/
def NoRoom (h : HeapState) (bs : List Block) (want : Nat) : Prop :=
  (∀ b ∈ bs, b.free = true → b.size < want) ∧ heapEnd < newTop h bs want

/-! ## Panics -/

theorem firstFit_eq_none {bs : List Block} {rover : Option Nat} {want : Nat} :
    firstFit bs rover want = none ↔ ∀ b ∈ bs, b.free = true → b.size < want := by
  have hmem : ∀ b, b ∈ searchOrder bs rover ↔ b ∈ bs := by
    intro b
    unfold searchOrder
    rw [List.mem_append, or_comm, ← List.mem_append, List.takeWhile_append_dropWhile]
  simp [firstFit, List.find?_eq_none, hmem, Block.fits]

theorem firstBlock_eq_error {h : HeapState} {want : Nat} :
    (∃ e, firstBlock h want = .error e) ↔ heapEnd < newTop h [] want := by
  have hbase : (if ([] : List Block) ≠ [] ∧ pageSize ≤ want then pageAlign h.currentHeap else h.currentHeap) =
      h.currentHeap := if_neg fun hc => hc.1 rfl
  unfold firstBlock newTop
  rw [hbase]
  dsimp only
  split
  · next hlt => exact ⟨fun _ => hlt, fun _ => ⟨_, rfl⟩⟩
  · next hlt => exact ⟨nofun, fun hc => absurd hc hlt⟩

theorem appendBlock_eq_error {h : HeapState} {bs : List Block} (hbs : bs ≠ []) {want t : Nat} :
    (∃ e, appendBlock h want t = .error e) ↔ heapEnd < newTop h bs want := by
  have hbase : (if bs ≠ [] ∧ pageSize ≤ want then pageAlign h.currentHeap else h.currentHeap) =
      if pageSize ≤ want then pageAlign h.currentHeap else h.currentHeap := by
    simp only [ne_eq, hbs, not_false_eq_true, true_and]
  unfold appendBlock newTop
  rw [hbase]
  generalize (if pageSize ≤ want then pageAlign h.currentHeap else h.currentHeap) = base
  dsimp only
  split
  · next hlt => exact ⟨fun _ => hlt, fun _ => ⟨_, rfl⟩⟩
  · next hlt => exact ⟨nofun, fun hc => absurd hc hlt⟩

theorem newTop_roved (h : HeapState) (bs : List Block) (want : Nat) : newTop h.roved bs want = newTop h bs want := rfl

/-- A call that does not return finds no room. -/
theorem kernelMalloc_eq_error {h : HeapState} {bs : List Block} (hok : MixedOk h bs) (n : Nat) :
    (∃ e, kernelMalloc h n = .error e) ↔ NoRoom h bs (align n) := by
  rcases List.eq_nil_or_concat bs with rfl | ⟨l, t, rfl⟩
  · rw [kernelMalloc_first hok, firstBlock_eq_error]
    exact ⟨fun hlt => ⟨nofun, hlt⟩, fun hno => hno.2⟩
  rw [List.concat_eq_append] at hok ⊢
  rw [kernelMalloc_eq hok]
  unfold NoRoom
  rw [← @firstFit_eq_none _ h.rover]
  cases hfit : firstFit (l ++ [t]) h.rover (align n) with
  | some b => exact ⟨nofun, fun hno => nomatch hno.1⟩
  | none =>
    dsimp only
    rw [@appendBlock_eq_error _ (l ++ [t]) (by simp), newTop_roved]
    exact ⟨fun hlt => ⟨rfl, hlt⟩, fun hno => hno.2⟩

/-! ## Blocks -/

/-- The header of the block that is taken has the size that was asked for, or the whole size. -/
theorem size_takeBlock {h : HeapState} {want b : Nat} (hw : want < 2 ^ 32) :
    size (takeBlock h want b).mem b =
      if headerSize + kernelHeapGuardSize h + blockAlign ≤ size h.mem b - want then want else size h.mem b := by
  have htaken : ∀ m : Mem, size (kernelHeapSetGuard (setFree m b false) b) b = size m b := by
    intro m
    have hflag : AgreeOn m (setFree m b false) (b + 4) (b + 8) := store8_agree (by omega)
    have hword : AgreeOn (setFree m b false) (kernelHeapSetGuard (setFree m b false) b) (b + 4) (b + 8) :=
      setGuardWord_agree (.inl (by unfold headerSize; omega))
    exact (hflag.trans hword).load32 (Nat.le_refl _) (Nat.le_refl _)
  unfold takeBlock
  dsimp only
  rw [htaken]
  split
  · unfold splitBlock
    dsimp only
    generalize kernelHeapInitGuard h.debugMode _ _ = m
    refine Eq.trans ?_ (size_setSize (m := m) (a := b) hw)
    exact load32_store32_disjoint (by omega)
  · rfl

theorem MixedInv.live_block {s : System} {bs : List Block} (hi : MixedInv s bs) {q : Nat} (hq : q ∈ s.live.map Prod.fst) :
    ∃ c ∈ bs, c.free = false ∧ c.payload = q ∧ Heap.payloadSize s.heap.mem q = c.size := by
  obtain ⟨c, hc, hf, rfl⟩ := hi.block hq
  exact ⟨c, hc, hf, rfl, hi.payloadSize hc⟩

theorem payloadSize_payload (m : Mem) (b : Block) : payloadSize m b.payload = size m b.addr := by
  unfold payloadSize Block.payload
  rw [Nat.add_sub_cancel]

/-- A free block that is taken is apart from the live ones. -/
theorem usable_takeBlock {s : System} {bs : List Block} (hi : MixedInv s bs) {n : Nat} (hn : n ≤ heapSize) {b : Block}
    (hb : b ∈ bs) (hf : b.free = true) (hw : align n ≤ b.size) :
    Usable s (takeBlock s.heap (align n) b.addr) b.payload b.payload n := by
  obtain ⟨hle, hlt⟩ := le_align hn
  have hsz : heapSize = 268435456 := rfl
  have hsize := @size_takeBlock s.heap (align n) b.addr (by omega)
  rw [(hi.heap.rep.stored b hb).size, ← payloadSize_payload] at hsize
  have hmem := hi.heap.layout.mem hb
  have hstop : b.stop = b.payload + b.size + guardBytes b.guard := rfl
  have hpay : b.payload = b.addr + headerSize := rfl
  have hfit : n ≤ payloadSize (takeBlock s.heap (align n) b.addr).mem b.payload ∧
      payloadSize (takeBlock s.heap (align n) b.addr).mem b.payload ≤ b.size := by
    rw [hsize]
    split <;> omega
  refine ⟨by omega, ⟨Nat.le_refl _, by omega⟩, ?_, hi.heap.top, fun q hq => ?_, Nat.le_refl _⟩
  · show _ ≤ s.heap.currentHeap
    omega
  · obtain ⟨c, hc, hcf, rfl, hcs⟩ := hi.live_block hq
    have hne : b ≠ c := by
      rintro rfl
      rw [hf] at hcf
      cases hcf
    have hapart := hi.heap.layout.payloads hb hc hne
    omega

/-- A block past `current_heap` is apart from everything. -/
theorem usable_new {s : System} {bs : List Block} (hi : MixedInv s bs) {h' : HeapState} {b : Block} {n : Nat}
    (hst : Stored h'.mem b) (hn : n ≤ b.size) (hbase : s.heap.currentHeap ≤ b.addr) (hcur : h'.currentHeap = b.stop)
    (hstop : b.stop ≤ heapEnd) : Usable s h' b.payload b.payload n := by
  have hsize : payloadSize h'.mem b.payload = b.size := (payloadSize_payload _ _).trans hst.size
  have hs : b.stop = b.payload + b.size + guardBytes b.guard := rfl
  have hpay : b.payload = b.addr + headerSize := rfl
  have hlow := hi.heap.layout.le
  refine ⟨by omega, ⟨Nat.le_refl _, by omega⟩, by omega, by omega, fun q hq => .inr ?_, by omega⟩
  obtain ⟨c, hc, -, rfl, hcs⟩ := hi.live_block hq
  have hmem := hi.heap.layout.mem hc
  have hc : c.stop = c.payload + c.size + guardBytes c.guard := rfl
  omega

/-- A size that the heap could have gets its bytes. -/
theorem usable_of_ok {s : System} {bs : List Block} (hi : MixedInv s bs) {n : Nat} (hn : n ≤ heapSize) {h' : HeapState}
    {p : Nat} (hr : kernelMalloc s.heap n = .ok (h', p)) : Usable s h' p p n := by
  obtain ⟨hle, hlt⟩ := le_align hn
  rcases List.eq_nil_or_concat bs with rfl | ⟨l, t, rfl⟩
  · rw [kernelMalloc_first hi.heap] at hr
    obtain ⟨hrep, hcur, hstop, rfl, -, -⟩ := firstBlock_rep hlt (hi.heap.unused rfl) hr
    exact usable_new hi (hrep.stored _ List.mem_cons_self) hle (Nat.le_refl _) hcur hstop
  rw [List.concat_eq_append] at hi
  rw [kernelMalloc_eq hi.heap] at hr
  cases hfit : firstFit (l ++ [t]) s.heap.rover (align n) with
  | some b =>
    rw [hfit] at hr
    obtain ⟨hb, hf, hw⟩ := firstFit_some hfit
    have hmem := hi.heap.layout.mem hb
    have hend : heapEnd < 2 ^ 32 := by decide
    have htop := hi.heap.top
    have hbstop := b.addr_lt_stop
    have hu : u32 (b.addr + headerSize) = b.payload := u32_of_lt (by omega)
    dsimp only at hr
    rw [hu] at hr
    obtain ⟨rfl, rfl⟩ := Prod.mk.inj (Except.ok.inj hr)
    exact usable_takeBlock hi hn hb hf hw
  | none =>
    rw [hfit] at hr
    have hok := hi.heap.roved
    have hrep0 : Rep s.heap.roved.mem s.heap.roved.heapList (l ++ [t] ++ []) none := by simpa using hok.rep
    obtain ⟨b, hbs, -, -, rfl, hbase, hcur, hstop, hrep, -⟩ := appendBlock_rep hrep0 hok.layout hok.top hlt hr
    exact usable_new hi (hrep.stored b (by simp)) (hbs ▸ hle) hbase hcur hstop

/-- What a larger size gets does not fit into the heap. -/
theorem Usable.le_heapSize {s : System} {h' : HeapState} {raw p n : Nat} (h : Usable s h' raw p n) : n ≤ heapSize := by
  have hab := h.above
  have hin := h.inside
  have hbe := h.below
  have htop := h.top
  have hs0 : heapStart = 3238002688 := rfl
  have hen : heapEnd = 3506438144 := rfl
  have hsz : heapSize = 268435456 := rfl
  omega

theorem malloc_panics {h : HeapState} {bs : List Block} (hok : MixedOk h bs) {n : Nat} (hno : NoRoom h bs (align n)) :
    kernelMalloc h n = .error (.panic "out of kernel heap memory") := by
  obtain ⟨e, he⟩ := (kernelMalloc_eq_error hok n).mpr hno
  rw [he, kernelMalloc_error hok he]

theorem mallocOk_iff {s : System} {bs : List Block} (hi : MixedInv s bs) (n : Nat) :
    MallocOk s n ↔ n ≤ heapSize ∨ NoRoom s.heap bs (align n) := by
  constructor
  · rintro (⟨msg, he⟩ | ⟨h', p, -, hu⟩)
    · exact .inr ((kernelMalloc_eq_error hi.heap n).mp ⟨_, he⟩)
    · exact .inl hu.le_heapSize
  · rintro (hn | hno)
    · cases hr : kernelMalloc s.heap n with
      | error e => exact .inl ⟨_, by rw [hr, kernelMalloc_error hi.heap hr]⟩
      | ok r => exact .inr ⟨r.1, r.2, hr, usable_of_ok hi hn hr⟩
    · exact .inl ⟨_, malloc_panics hi.heap hno⟩

/-! ## Aligned blocks -/

theorem alignUp_spec {x k : Nat} (h : x + 2 ^ k ≤ 2 ^ 32) :
    x ≤ alignUp x (2 ^ k) ∧ alignUp x (2 ^ k) < x + 2 ^ k ∧ alignUp x (2 ^ k) % 2 ^ k = 0 := by
  have hpos : 0 < 2 ^ k := Nat.two_pow_pos k
  unfold alignUp
  rw [u32_of_lt (by omega)]
  have hle := Nat.div_mul_le_self (x + (2 ^ k - 1)) (2 ^ k)
  have hlt := Nat.lt_div_mul_add (a := x + (2 ^ k - 1)) hpos
  exact ⟨by omega, by omega, Nat.mul_mod_left ..⟩

theorem kernelMallocAlign_eq {h : HeapState} {k n : Nat} {r : Result (HeapState × Nat)}
    (hr : kernelMalloc h (u32 (n + 2 ^ k + 3)) = r) :
    kernelMallocAlign h (2 ^ k) n = r >>= fun x => if x.2 = 0 then .ok (x.1, 0) else
      .ok ({ x.1 with mem := store32 x.1.mem (wordBefore (alignUp (u32 (x.2 + 4)) (2 ^ k))) x.2 },
        alignUp (u32 (x.2 + 4)) (2 ^ k)) := by
  have hpos : 0 < 2 ^ k := Nat.two_pow_pos k
  have hsum : n + 2 ^ k - 1 + 4 = n + 2 ^ k + 3 := by omega
  unfold kernelMallocAlign
  rw [hsum, hr]
  rfl

/-- The aligned address lies in the block, behind the word with the address of the block. -/
theorem usable_aligned {s : System} {h : HeapState} {raw k n : Nat} (hu : Usable s h raw raw (n + 2 ^ k + 3))
    (h' : HeapState) (hh' : h' = { h with mem := store32 h.mem (wordBefore (alignUp (u32 (raw + 4)) (2 ^ k))) raw }) :
    alignUp (u32 (raw + 4)) (2 ^ k) % 2 ^ k = 0 ∧
      Usable s h' (rawOf h'.mem (alignUp (u32 (raw + 4)) (2 ^ k))) (alignUp (u32 (raw + 4)) (2 ^ k)) n := by
  have hpos : 0 < 2 ^ k := Nat.two_pow_pos k
  have hs0 : heapStart = 3238002688 := rfl
  have hen : heapEnd = 3506438144 := rfl
  have hab := hu.above
  have hin := hu.inside
  have hbe := hu.below
  have htop := hu.top
  have hraw : u32 (raw + 4) = raw + 4 := u32_of_lt (by omega)
  obtain ⟨hge, hlt, hmod⟩ := alignUp_spec (x := raw + 4) (k := k) (by omega)
  rw [hraw] at hh' ⊢
  generalize alignUp (raw + 4) (2 ^ k) = aligned at *
  have hword : wordBefore aligned = aligned - 4 := by
    unfold wordBefore u32
    omega
  unfold rawOf
  rw [hword] at hh' ⊢
  subst hh'
  have hload : load32 (store32 h.mem (aligned - 4) raw) (aligned - 4) = raw := by
    rw [load32_store32]
    exact Nat.mod_eq_of_lt (by omega)
  have hsize : payloadSize (store32 h.mem (aligned - 4) raw) raw = payloadSize h.mem raw := by
    unfold payloadSize size headerSize
    exact load32_store32_disjoint (by omega)
  dsimp only
  rw [hload]
  refine ⟨hmod, hab, ?_, ?_, htop, ?_, hu.forward⟩
  · dsimp only
    rw [hsize]
    omega
  · dsimp only
    rw [hsize]
    exact hbe
  · dsimp only
    rw [hsize]
    exact hu.apart

/-- A request past the heap's size that does not wrap around finds no room. -/
theorem noRoom_of_large {h : HeapState} {bs : List Block} (hok : MixedOk h bs) {n : Nat} (hlo : heapSize < n)
    (hhi : n ≤ 2 * heapSize + 3) : NoRoom h bs (align n) := by
  have hs0 : heapStart = 3238002688 := rfl
  have hen : heapEnd = 3506438144 := rfl
  have hsz : heapSize = 268435456 := rfl
  have hwant : n ≤ align n ∧ align n < n + 8 := by
    unfold align blockAlign
    rw [u32_of_lt (by omega)]
    omega
  have htop := hok.top
  have hlow := hok.layout.le
  have hg : guardBytes h.debugMode ≤ 4 := by cases h.debugMode <;> decide
  refine ⟨fun b hb _ => ?_, ?_⟩
  · have hmem := hok.layout.mem hb
    have hstop : b.stop = b.addr + headerSize + b.size + guardBytes b.guard := rfl
    omega
  · unfold newTop
    have hps : pageSize = 4096 := rfl
    have hpage := pageAlign_le (a := h.currentHeap) (by omega)
    have hbase : h.currentHeap ≤ (if bs ≠ [] ∧ pageSize ≤ align n then pageAlign h.currentHeap else h.currentHeap) ∧
        (if bs ≠ [] ∧ pageSize ≤ align n then pageAlign h.currentHeap else h.currentHeap) < h.currentHeap + pageSize := by
      split
      · exact hpage
      · omega
    generalize (if bs ≠ [] ∧ pageSize ≤ align n then pageAlign h.currentHeap else h.currentHeap) = base at *
    have hh : headerSize = 16 := rfl
    unfold kernelHeapGuardSize
    rw [u32_of_lt (by omega : align n + _ < _), u32_of_lt (by omega)]
    omega

/-- No address of the heap is a multiple of more than the heap's size. -/
theorem align_le_of_mod {p k : Nat} (hlo : heapStart ≤ p) (hhi : p ≤ heapEnd) (hmod : p % 2 ^ k = 0) : 2 ^ k ≤ heapSize := by
  have hk : k ≤ 28 := by
    by_contra hk
    have hdvd : 2 ^ 29 ∣ p := Nat.dvd_trans (Nat.pow_dvd_pow 2 (by omega)) (Nat.dvd_of_mod_eq_zero hmod)
    have hs0 : heapStart = 3238002688 := rfl
    have hen : heapEnd = 3506438144 := rfl
    omega
  exact Nat.pow_le_pow_right (by decide) hk

theorem mallocAlignOk_iff {s : System} {bs : List Block} (hi : MixedInv s bs) (k n : Nat) :
    MallocAlignOk s (2 ^ k) n ↔ n + 2 ^ k + 3 ≤ heapSize ∨ NoRoom s.heap bs (align (u32 (n + 2 ^ k + 3))) := by
  have hsz : heapSize = 268435456 := rfl
  unfold MallocAlignOk
  cases hr : kernelMalloc s.heap (u32 (n + 2 ^ k + 3)) with
  | error e =>
    rw [kernelMallocAlign_eq hr]
    have hno := (kernelMalloc_eq_error hi.heap _).mp ⟨e, hr⟩
    exact ⟨fun _ => .inr hno, fun _ => .inl ⟨_, congrArg _ (kernelMalloc_error hi.heap hr)⟩⟩
  | ok r =>
    have hroom : ¬NoRoom s.heap bs (align (u32 (n + 2 ^ k + 3))) := by
      intro hno
      rw [malloc_panics hi.heap hno] at hr
      cases hr
    rw [kernelMallocAlign_eq hr, ok_bind]
    constructor
    · rintro (⟨msg, he⟩ | ⟨h', p, hp, hmod, hu⟩)
      · split at he <;> cases he
      left
      by_contra hlarge
      have hn := hu.le_heapSize
      have hab := hu.above
      have hin := hu.inside
      have hbe := hu.below
      have htop := hu.top
      have hpow := align_le_of_mod (by omega) (by omega) hmod
      have hT : u32 (n + 2 ^ k + 3) = n + 2 ^ k + 3 := u32_of_lt (by omega)
      rw [hT] at hroom
      exact hroom (noRoom_of_large hi.heap (by omega) (by omega))
    · rintro (hn | hno)
      · have hT : u32 (n + 2 ^ k + 3) = n + 2 ^ k + 3 := u32_of_lt (by omega)
        rw [hT] at hr
        have hu := usable_of_ok hi hn hr
        have hne : r.2 ≠ 0 := by
          have hab := hu.above
          unfold heapStart kernelHeapVma at hab
          omega
        rw [if_neg hne]
        obtain ⟨hmod, hu⟩ := usable_aligned hu _ rfl
        exact .inr ⟨_, _, rfl, hmod, hu⟩
      · exact absurd hno hroom

/-- In every run in which no size was larger than the heap and no block without a guard was split in debug
mode, an allocation panics or returns a block for the size just when the size, with what the alignment
adds, is no larger than the heap or there is no room. -/
theorem malloc_limits_iff {s : System} (h : Run.Reachable Init ClearStep s) : ∃ bs, Listed s.heap bs ∧
    (∀ n, MallocOk s n ↔ n ≤ heapSize ∨ NoRoom s.heap bs (align n)) ∧
    ∀ k n, MallocAlignOk s (2 ^ k) n ↔ n + 2 ^ k + 3 ≤ heapSize ∨ NoRoom s.heap bs (align (u32 (n + 2 ^ k + 3))) := by
  obtain ⟨bs, hi⟩ := MixedInv.reachable h
  exact ⟨bs, ⟨hi.heap.rep.links, hi.heap.rep.stored⟩, mallocOk_iff hi, mallocAlignOk_iff hi⟩

theorem malloc_limits_boot : MallocOk ⟨bootHeap false, []⟩ 24 ∧ MallocAlignOk ⟨bootHeap false, []⟩ (2 ^ 12) 100 := by
  obtain ⟨bs, -, hmalloc, halign⟩ := malloc_limits_iff (.start (s := ⟨bootHeap false, []⟩) ⟨⟨rfl, rfl, rfl⟩, rfl⟩)
  exact ⟨(hmalloc 24).mpr (.inl (by decide)), (halign 12 100).mpr (.inl (by decide))⟩

/-- The largest size rounds up to 0, and the block has no bytes. -/
theorem not_malloc_limits : ¬∀ s, Run.Reachable Init (fun s t => ∃ a, act s a = some t) s →
    (∀ n < 2 ^ 32, MallocOk s n) ∧ ∀ k < 32, ∀ n < 2 ^ 32, MallocAlignOk s (2 ^ k) n := by
  intro h
  have hreach : Run.Reachable Init (fun s t => ∃ a, act s a = some t) ⟨bootHeap false, []⟩ := .start ⟨⟨rfl, rfl, rfl⟩, rfl⟩
  have hok : (kernelMalloc (bootHeap false) 0xFFFFFFFF).toOption.isSome = true := by decide +kernel
  rcases (h _ hreach).1 0xFFFFFFFF (by decide) with ⟨msg, he⟩ | ⟨h', p, -, hu⟩
  · have he : kernelMalloc (bootHeap false) 0xFFFFFFFF = .error (.panic msg) := he
    rw [he] at hok
    cases hok
  · exact absurd hu.le_heapSize (by decide)

end Serotonin.Heap
