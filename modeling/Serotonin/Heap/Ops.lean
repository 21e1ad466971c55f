import Serotonin.Heap.Layout

/-! What each part of `kernel_malloc` and `kernel_free` does to a list of blocks
that memory represents: the scans end at a block of the list, taking a block
puts one or two blocks where it was, appending adds one behind the last, and
coalescing joins physically adjacent ones. -/

namespace Serotonin.Heap
open ByteMem Chain List

/-! ## Scans -/

theorem bind_ok {α β : Type} {x : Result α} {f : α → Result β} {r : β}
    (h : x >>= f = .ok r) : ∃ a, x = .ok a ∧ f a = .ok r := by
  cases x with
  | error e => cases h
  | ok a => exact ⟨a, rfl, h⟩

@[simp] theorem ok_bind {α β : Type} (a : α) (f : α → Result β) : Except.ok a >>= f = f a := rfl

/-- Does the free block take a request of this size? -/
def Block.fits (want : Nat) (b : Block) : Bool := b.free && decide (want ≤ b.size)

theorem fits_of_stored {m : Mem} {b : Block} (h : Stored m b) (want : Nat) :
    (free m b.addr && decide (want ≤ size m b.addr)) = b.fits want := by
  rw [h.free, h.size]
  rfl

theorem Rep.eq_nil {m : Mem} {bs : List Block} (h : Rep m none bs none) : bs = [] := by
  cases bs with
  | nil => rfl
  | cons b bs => cases (rep_cons.mp h).1

/-- Phase 1 ends at the first block that fits, or else at the last one. -/
theorem scanToTail_eq {m : Mem} (want : Nat) {fuel : Nat} : ∀ {bs : List Block} {p : Option Nat}, Rep m p bs none →
    (∀ b ∈ bs, kernelHeapCheckBlock m b.addr = .ok ()) → bs.length ≤ fuel →
      scanToTail m want fuel p =
        .ok ((bs.find? (·.fits want)).elim (.miss (bs.getLast?.map Block.addr)) fun b => .found b.addr) := by
  induction fuel with
  | zero =>
    intro bs p hrep _ hlen
    obtain rfl := length_eq_zero_iff.mp (Nat.le_zero.mp hlen)
    obtain rfl := rep_nil.mp hrep
    rfl
  | succ fuel ih =>
    intro bs p hrep hcheck hlen
    cases bs with
    | nil =>
      obtain rfl := rep_nil.mp hrep
      rfl
    | cons b bs =>
      obtain ⟨rfl, hst, hrest⟩ := rep_cons.mp hrep
      rw [scanToTail, hcheck b mem_cons_self, ok_bind, fits_of_stored hst]
      by_cases hfit : b.fits want = true
      · rw [if_pos hfit, List.find?_cons_of_pos hfit]
        rfl
      rw [if_neg hfit, List.find?_cons_of_neg hfit]
      split
      · next hnone =>
        obtain rfl := (hnone ▸ hrest).eq_nil
        rfl
      · next hsome =>
        have hlast : (b :: bs).getLast? = bs.getLast? := by
          cases bs with
          | nil => exact absurd (rep_nil.mp hrest) hsome
          | cons c bs => rfl
        rw [hlast]
        exact ih hrest (fun c hc => hcheck c (mem_cons_of_mem _ hc)) (Nat.le_of_succ_le_succ hlen)

/-- Phase 2 looks at the blocks in front of the rover. -/
theorem scanToRover_eq {m : Mem} (want : Nat) {rb : Block} {r : List Block} {fuel : Nat} : ∀ {l : List Block} {p : Option Nat},
    Rep m p (l ++ rb :: r) none → (∀ b ∈ l, b.addr ≠ rb.addr) → (∀ b ∈ l, kernelHeapCheckBlock m b.addr = .ok ()) →
      l.length < fuel → scanToRover m want (some rb.addr) fuel p =
        .ok ((l.find? (·.fits want)).elim (.miss none) fun b => .found b.addr) := by
  induction fuel with
  | zero =>
    intro l p _ _ _ hlen
    cases hlen
  | succ fuel ih =>
    intro l p hrep hne hcheck hlen
    cases l with
    | nil =>
      obtain ⟨rfl, -⟩ := rep_cons.mp hrep
      rw [scanToRover, if_pos rfl]
      rfl
    | cons b l =>
      obtain ⟨rfl, hst, hrest⟩ := rep_cons.mp hrep
      have hrover : ¬some b.addr = some rb.addr := fun he => hne b mem_cons_self (Option.some.inj he)
      rw [scanToRover, if_neg hrover, hcheck b mem_cons_self, ok_bind, fits_of_stored hst]
      by_cases hfit : b.fits want = true
      · rw [if_pos hfit, List.find?_cons_of_pos hfit]
        rfl
      have hsome : next m b.addr ≠ none := fun hnone => by
        have hnil := (hnone ▸ hrest).eq_nil
        simp at hnil
      rw [if_neg hfit, List.find?_cons_of_neg hfit, if_neg hsome]
      exact ih hrest (fun c hc => hne c (mem_cons_of_mem _ hc)) (fun c hc => hcheck c (mem_cons_of_mem _ hc))
        (Nat.lt_of_succ_lt_succ hlen)

/-- Every block of a represented list passes the check. -/
theorem checkBlock_ok {m : Mem} {p : Option Nat} {bs : List Block} {b : Block} {hi : Nat}
    (hrep : Rep m p bs none) (hlay : Layout heapStart bs hi) (htop : hi ≤ heapEnd) (hb : b ∈ bs) :
    kernelHeapCheckBlock m b.addr = .ok () := by
  have hst := hrep.stored b hb
  have hsz : heapSize = 268435456 := rfl
  have hen : heapEnd = 3506438144 := rfl
  have hs0 : heapStart = 3238002688 := rfl
  have hh : headerSize = 16 := rfl
  have hbs : b.stop = b.addr + headerSize + b.size + guardBytes b.guard := rfl
  obtain ⟨h0, h1⟩ := hlay.mem hb
  unfold kernelHeapCheckBlock
  rw [hst.magic, hst.size, hst.guard, u32_of_lt (by omega), u32_of_lt (by omega),
    if_neg (by omega), if_neg (by simp), if_neg (by omega), if_neg fun h => h.2 (hst.word h.1)]
  cases hn : next m b.addr with
  | none => rfl
  | some n =>
    -- the link leads to another block of the list
    obtain ⟨c, hc, rfl⟩ := mem_map.mp (IsChain.next_mem hrep.links (mem_map_of_mem hb) hn)
    have hcb := hlay.mem hc
    have hcs := c.addr_lt_stop
    simp only
    rw [u32_of_lt (by omega), if_neg (by omega)]
    rfl

/-- Sixteen bytes of header for every block bound their number. -/
theorem Layout.length {bs : List Block} : ∀ {lo hi : Nat}, Layout lo bs hi →
    lo + 16 * bs.length ≤ hi := by
  induction bs with
  | nil => intro lo hi h; exact h
  | cons b bs ih =>
    intro lo hi h
    have hb := b.addr_lt_stop
    have hh : headerSize = 16 := rfl
    have h0 := h.1
    have := ih h.2
    rw [length_cons]
    omega

theorem length_le_heapFuel {bs : List Block} {hi : Nat} (hlay : Layout heapStart bs hi)
    (htop : hi ≤ heapEnd) : bs.length < heapFuel := by
  have h := hlay.length
  have hen : heapEnd = heapStart + 268435456 := rfl
  have hf : heapFuel = 16777217 := rfl
  omega

/-! ## Taking a block -/

/-- The blocks that stand where `b` was once `want` bytes are taken from it. -/
def Block.carve (b : Block) (want : Nat) : List Block :=
  if headerSize + guardBytes b.guard + blockAlign ≤ b.size - want then
    [{ b with size := want, free := false },
     { addr := b.payload + want + guardBytes b.guard
       size := b.size - want - headerSize - guardBytes b.guard, free := true, guard := b.guard }]
  else [{ b with free := false }]

theorem carve_head (b : Block) (want : Nat) (h : want ≤ b.size) :
    ∃ b' rest, b.carve want = b' :: rest ∧ b'.addr = b.addr ∧ b'.free = false ∧ want ≤ b'.size := by
  unfold Block.carve
  split
  · exact ⟨_, _, rfl, rfl, rfl, Nat.le_refl _⟩
  · exact ⟨_, _, rfl, rfl, rfl, h⟩

theorem carve_guard {b c : Block} {want : Nat} (h : c ∈ b.carve want) : c.guard = b.guard := by
  unfold Block.carve at h
  split at h
  · simp only [mem_cons, not_mem_nil, or_false] at h
    rcases h with rfl | rfl <;> rfl
  · rw [mem_singleton] at h
    exact h ▸ rfl

/-- Carving fills exactly the range of the block. -/
theorem carve_layout (b : Block) (want : Nat) (h : want ≤ b.size) :
    Layout b.addr (b.carve want) b.stop := by
  unfold Block.carve
  split
  · simp only [layout_cons, layout_nil, Block.stop, Block.payload]
    omega
  · exact ⟨Nat.le_refl _, Nat.le_refl _⟩

/-! ### The stores of `takeBlock`, one field at a time -/

theorem setGuardWord_agree {m : Mem} {b lo hi : Nat}
    (h : hi ≤ b + headerSize + size m b ∨ b + headerSize + size m b + guardBytes (guard m b) ≤ lo) :
    AgreeOn m (kernelHeapSetGuard m b) lo hi := by
  unfold kernelHeapSetGuard
  split
  · rename_i hg
    refine store32_agree ?_
    rw [hg] at h
    exact h
  · exact AgreeOn.refl _ _ _

/-- Writing the guard word completes a block whose header is in place. -/
theorem stored_setGuardWord {m : Mem} {b : Block} (hm : magic m b.addr = heapMagic)
    (hs : size m b.addr = b.size) (hf : free m b.addr = b.free) (hg : guard m b.addr = b.guard) :
    Stored (kernelHeapSetGuard m b.addr) b := by
  have hh : AgreeOn m (kernelHeapSetGuard m b.addr) b.addr b.payload :=
    setGuardWord_agree (by simp only [Block.payload]; omega)
  have h9 : b.addr + 10 ≤ b.payload ∧ b.addr + 8 ≤ b.payload := by
    simp only [Block.payload, headerSize]; omega
  refine ⟨?_, ?_, ?_, ?_, fun hb => ?_⟩
  · rw [← hm]; exact hh.load32 (Nat.le_refl _) (by omega)
  · rw [← hs]; exact hh.load32 (by omega) (by omega)
  · rw [← hf]; simp only [free]; rw [hh _ (by omega) (by omega)]
  · rw [← hg]; simp only [guard]; rw [hh _ (by omega) (by omega)]
  · unfold kernelHeapSetGuard
    rw [if_pos (hg.trans hb), hs, ← Block.payload, load32_store32]
    rfl

/-- The guard flag of a new header, then its guard word. -/
theorem stored_initGuard {m : Mem} {b : Block} (hm : magic m b.addr = heapMagic)
    (hs : size m b.addr = b.size) (hf : free m b.addr = b.free) :
    Stored (kernelHeapInitGuard b.guard m b.addr) b := by
  refine stored_setGuardWord ?_ ?_ ?_ guard_setGuard
  · rw [← hm]; exact load32_store8_disjoint (by omega)
  · rw [← hs]; exact load32_store8_disjoint (by omega)
  · rw [← hf]; simp only [free, setGuard]; rw [store8_ne (by omega)]

theorem initGuard_agree {m : Mem} {g : Bool} {b n lo hi : Nat} (hs : size m b = n)
    (h : hi ≤ b + 9 ∨ (b + 10 ≤ lo ∧ hi ≤ b + headerSize + n) ∨
      b + headerSize + n + guardBytes g ≤ lo) :
    AgreeOn m (kernelHeapInitGuard g m b) lo hi := by
  have hs' : size (setGuard m b g) b = n := by
    rw [← hs]; exact load32_store8_disjoint (by omega)
  have hh : headerSize = 16 := rfl
  have hset : AgreeOn m (setGuard m b g) lo hi := store8_agree (by omega)
  refine hset.trans (setGuardWord_agree ?_)
  rw [hs', guard_setGuard]
  omega

/-- Handing out a block whose header has the right size. -/
theorem stored_taken {m : Mem} {b : Block} (hm : magic m b.addr = heapMagic)
    (hs : size m b.addr = b.size) (hf : b.free = false) (hg : guard m b.addr = b.guard) :
    Stored (kernelHeapSetGuard (setFree m b.addr false) b.addr) b := by
  refine stored_setGuardWord ?_ ?_ (by rw [hf]; exact free_setFree) ?_
  · rw [← hm]; exact load32_store8_disjoint (by omega)
  · rw [← hs]; exact load32_store8_disjoint (by omega)
  · rw [← hg]; simp only [guard, setFree]; rw [store8_ne (by omega)]

theorem taken_agree {m : Mem} {b n lo hi : Nat} {g : Bool} (hs : size m b = n)
    (hg : guard m b = g)
    (h : hi ≤ b + 8 ∨ (b + 9 ≤ lo ∧ hi ≤ b + headerSize + n) ∨
      b + headerSize + n + guardBytes g ≤ lo) :
    AgreeOn m (kernelHeapSetGuard (setFree m b false) b) lo hi := by
  have hs' : size (setFree m b false) b = n := by
    rw [← hs]; exact load32_store8_disjoint (by omega)
  have hg' : guard (setFree m b false) b = g := by
    rw [← hg]; simp only [guard, setFree]; rw [store8_ne (by omega)]
  have hh : headerSize = 16 := rfl
  have hset : AgreeOn m (setFree m b false) lo hi := store8_agree (by omega)
  refine hset.trans (setGuardWord_agree ?_)
  rw [hs', hg']
  omega

/-- What splitting leaves in memory: the two headers, and nothing else changed
but the guard word of the new block. -/
structure SplitSpec (m m' : Mem) (want : Nat) (b s : Block) : Prop where
  magic : magic m' b.addr = magic m b.addr
  size : size m' b.addr = want
  guard : guard m' b.addr = guard m b.addr
  next : next m' b.addr = some s.addr
  split : Stored m' s
  splitNext : Heap.next m' s.addr = Heap.next m b.addr
  below : ∀ lo, AgreeOn m m' lo b.addr
  above : ∀ hi, AgreeOn m m' s.stop hi

/-- The header of a block, all but its guard flag. -/
theorem header_stores {m : Mem} {b n : Nat} {f : Bool} {p : Option Nat} (hn : n < 2 ^ 32)
    (hp : ∀ x, p = some x → 0 < x ∧ x < 2 ^ 32) :
    let m' := setNext (setFree (setSize (setMagic m b heapMagic) b n) b f) b p
    magic m' b = heapMagic ∧ size m' b = n ∧ free m' b = f ∧ next m' b = p ∧
      ∀ lo hi, hi ≤ b ∨ b + headerSize ≤ lo → AgreeOn m m' lo hi := by
  refine ⟨?_, ?_, ?_, next_setNext hp, fun lo hi h => ?_⟩
  · refine Eq.trans ?_ (magic_setMagic (m := m) (a := b) (by decide))
    simp (disch := omega) only [magic, setNext, setFree, setSize, load32_store32_disjoint,
      load32_store8_disjoint]
  · refine Eq.trans ?_ (size_setSize (m := setMagic m b heapMagic) (a := b) hn)
    simp (disch := omega) only [size, setNext, setFree, load32_store32_disjoint,
      load32_store8_disjoint]
  · refine Eq.trans ?_ (free_setFree (m := setSize (setMagic m b heapMagic) b n) (a := b))
    simp (disch := omega) only [free, setNext, store32_apply_disjoint]
  · have hh : headerSize = 16 := rfl
    exact (((store32_agree (by omega)).trans (store32_agree (by omega))).trans
      (store8_agree (by omega))).trans (store32_agree (by omega))

theorem splitBlock_spec {m : Mem} {b s : Block} {want : Nat} (hb : size m b.addr = b.size)
    (hs : b.carve want = [{ b with size := want, free := false }, s])
    (h0 : 0 < b.addr) (htop : b.stop < 2 ^ 32) :
    SplitSpec m (splitBlock b.guard m want b.addr) want b s := by
  unfold Block.carve at hs
  split at hs
  swap
  · simp at hs
  rename_i hfit
  simp only [List.cons.injEq, and_true, true_and] at hs
  have hh : headerSize = 16 := rfl
  have ha : blockAlign = 8 := rfl
  have hsa : s.addr = b.addr + 16 + want + guardBytes b.guard := by rw [← hs]; rfl
  have hss : s.size = b.size - want - 16 - guardBytes b.guard := by rw [← hs]; rfl
  have hsf : s.free = true := by rw [← hs]
  have hsg : s.guard = b.guard := by rw [← hs]
  have hst : s.stop = b.stop := by
    simp only [Block.stop, Block.payload, hsg, hsa, hss]; omega
  have hbs : b.stop = b.addr + 16 + b.size + guardBytes b.guard := rfl
  have hse : s.stop = s.addr + 16 + s.size + guardBytes s.guard := rfl
  have hu : u32 (b.addr + 16 + want + guardBytes b.guard) = s.addr := by
    rw [hsa]; exact u32_of_lt (by omega)
  -- the new header at `s`
  have hnx : next (setFree (setSize (setMagic m s.addr heapMagic) s.addr s.size) s.addr true)
      b.addr = next m b.addr := by
    refine next_congr ?_
    exact ((store32_agree (by omega)).trans (store32_agree (by omega))).trans
      (store8_agree (by omega))
  obtain ⟨hm4, hs4, hf4, hn4, hag4⟩ := header_stores (m := m) (b := s.addr) (n := s.size)
    (f := true) (p := next m b.addr) (by omega) fun x hx => next_bound hx
  simp only [splitBlock, hb, hh, hu, ← hss, hnx]
  generalize setNext (setFree (setSize (setMagic m s.addr heapMagic) s.addr s.size) s.addr true)
    s.addr (next m b.addr) = m4 at hm4 hs4 hf4 hn4 hag4 ⊢
  -- the guard of `s` and the cut-down header of `b`
  have hag5 : ∀ lo hi, hi ≤ s.addr ∨ s.stop ≤ lo →
      AgreeOn m (kernelHeapInitGuard b.guard m4 s.addr) lo hi := fun lo hi h =>
    (hag4 lo hi (by omega)).trans (initGuard_agree hs4 (by rw [← hsg]; omega))
  have hst5 : Stored (kernelHeapInitGuard b.guard m4 s.addr) s := by
    rw [← hsg]; exact stored_initGuard hm4 hs4 (hf4.trans hsf.symm)
  have hn5 : next (kernelHeapInitGuard b.guard m4 s.addr) s.addr = next m b.addr := by
    refine Eq.trans ?_ hn4
    simp only [next]
    rw [(initGuard_agree hs4 (by omega : s.addr + 16 ≤ s.addr + 9 ∨ (s.addr + 10 ≤ s.addr + 10 ∧ _) ∨ _)).load32 (by omega) (by omega)]
  generalize kernelHeapInitGuard b.guard m4 s.addr = m5 at hag5 hst5 hn5 ⊢
  have hag7 : ∀ lo hi, hi ≤ b.addr + 4 ∨ (b.addr + 8 ≤ lo ∧ hi ≤ b.addr + 12) ∨
      b.addr + 16 ≤ lo → AgreeOn m5 (setNext (setSize m5 b.addr want) b.addr (some s.addr)) lo hi :=
    fun lo hi h => (store32_agree (by omega)).trans (store32_agree (by omega))
  refine ⟨?_, ?_, ?_, ?_, hst5.congr_block (hag7 _ _ (by omega)), ?_, ?_, ?_⟩
  · exact ((hag5 b.addr (b.addr + 4) (by omega)).trans (hag7 _ _ (by omega))).load32
      (Nat.le_refl _) (Nat.le_refl _)
  · refine Eq.trans ?_ (size_setSize (m := m5) (a := b.addr) (v := want) (by omega))
    exact load32_store32_disjoint (by omega)
  · simp only [guard]
    rw [((hag5 b.addr (b.addr + 10) (by omega)).mono (by omega) (Nat.le_refl _)).trans
      (hag7 (b.addr + 9) (b.addr + 10) (by omega)) _ (by omega) (by omega)]
  · exact next_setNext (by intro x hx; cases hx; omega)
  · exact (next_congr (hag7 _ _ (by omega))).trans hn5
  · exact fun lo => (hag5 lo b.addr (by omega)).trans (hag7 lo b.addr (by omega))
  · exact fun hi => (hag5 s.stop hi (by omega)).trans (hag7 s.stop hi (by omega))

/-- The memory of a block handed out whole, in place in the list. -/
theorem takeWhole_rep {h : HeapState} {b : Block} {l r : List Block} {want hi : Nat}
    (hrep : Rep h.mem h.heapList (l ++ [b] ++ r) none) (hlay : Layout heapStart (l ++ b :: r) hi)
    (hfit : ¬headerSize + kernelHeapGuardSize h + blockAlign ≤ b.size - want) :
    Rep (takeBlock h want b.addr).mem h.heapList (l ++ [{ b with free := false }] ++ r) none := by
  obtain ⟨hl, hr⟩ := layout_append_cons.mp hlay
  have hh : headerSize = 16 := rfl
  have hbs : b.stop = b.addr + 16 + b.size + guardBytes b.guard := rfl
  have hst : Stored h.mem b := hrep.stored b (by simp)
  have hmem : (takeBlock h want b.addr).mem = kernelHeapSetGuard (setFree h.mem b.addr false) b.addr := by
    simp only [takeBlock, hst.size, if_neg hfit]
  rw [hmem]
  have hag := fun lo hi => @taken_agree h.mem b.addr b.size lo hi _ hst.size hst.guard
  refine hrep.splice hl hr (hag _ _ (by omega)) (hag _ _ (by omega)) fun p t hold => ?_
  obtain ⟨hp, _, ht⟩ := rep_cons.mp hold
  refine rep_cons.mpr ⟨hp, stored_taken (b := { b with free := false })
    hst.magic hst.size rfl hst.guard, ?_⟩
  show Rep _ (next _ b.addr) _ _
  rw [next_congr' (hag _ _ (by omega))]
  exact rep_nil.mpr (rep_nil.mp ht)

/-- The memory of a block handed out, in place in the list. -/
theorem takeBlock_rep {h : HeapState} {b : Block} {l r : List Block} {want hi : Nat}
    (hrep : Rep h.mem h.heapList (l ++ [b] ++ r) none)
    (hlay : Layout heapStart (l ++ b :: r) hi) (htop : hi ≤ heapEnd)
    (hg : b.guard = h.debugMode) (hw : want ≤ b.size) :
    Rep (takeBlock h want b.addr).mem h.heapList (l ++ b.carve want ++ r) none := by
  obtain ⟨hl, hr⟩ := layout_append_cons.mp hlay
  have h0 : heapStart ≤ b.addr := hl.le
  have h1 : b.stop ≤ hi := hr.le
  have hstart : 0 < heapStart := by decide
  have hend : heapEnd < 2 ^ 32 := by decide
  have hh : headerSize = 16 := rfl
  have hbs : b.stop = b.addr + 16 + b.size + guardBytes b.guard := rfl
  have hst : Stored h.mem b := hrep.stored b (by simp)
  by_cases hfit : headerSize + guardBytes b.guard + blockAlign ≤ b.size - want
  · obtain ⟨s, hcarve⟩ : ∃ s, b.carve want = [{ b with size := want, free := false }, s] :=
      ⟨_, if_pos hfit⟩
    have hlc := carve_layout b want hw
    rw [hcarve] at hlc ⊢
    obtain ⟨_, hlc⟩ := layout_cons.mp hlc
    have hs1 : b.addr + 16 + want + guardBytes b.guard ≤ s.addr := hlc.1
    have hs2 : s.stop ≤ b.stop := hlc.2
    have sp := splitBlock_spec hst.size hcarve (by omega) (by omega)
    have hmem : (takeBlock h want b.addr).mem =
        kernelHeapSetGuard (setFree (splitBlock b.guard h.mem want b.addr) b.addr false) b.addr := by
      simp only [takeBlock, kernelHeapGuardSize, ← hg, hst.size, if_pos hfit]
    rw [hmem]
    generalize splitBlock b.guard h.mem want b.addr = m at sp ⊢
    have hag := fun lo hi => @taken_agree m b.addr want lo hi _ sp.size (sp.guard.trans hst.guard)
    refine hrep.splice hl hr ((sp.below _).trans (hag _ _ (by omega)))
      (((sp.above _).mono hs2 (Nat.le_refl _)).trans (hag _ _ (by omega))) fun p t hold => ?_
    obtain ⟨hp, _, ht⟩ := rep_cons.mp hold
    refine rep_cons.mpr ⟨hp, stored_taken (b := { b with size := want, free := false })
      (sp.magic.trans hst.magic) sp.size rfl (sp.guard.trans hst.guard), ?_⟩
    show Rep _ (next _ b.addr) _ _
    rw [next_congr' (hag _ _ (by omega)), sp.next]
    refine rep_cons.mpr ⟨rfl, sp.split.congr_block (hag _ _ (by omega)), ?_⟩
    rw [next_congr (hag _ _ (by omega)), sp.splitNext]
    exact rep_nil.mpr (rep_nil.mp ht)
  · have hcarve : b.carve want = [{ b with free := false }] := if_neg hfit
    rw [hcarve]
    exact takeWhole_rep hrep hlay (by rw [kernelHeapGuardSize, ← hg]; exact hfit)

/-- The rover moves to the block behind the one taken, or back to the head. -/
theorem takeBlock_rover {h : HeapState} {xs : List Nat} {want curr r : Nat}
    (hl : IsChain (next (takeBlock h want curr).mem) h.heapList xs) (hc : curr ∈ xs)
    (hr : (takeBlock h want curr).rover = some r) : r ∈ xs := by
  have hlink : ∀ m : Mem, next (kernelHeapSetGuard (setFree m curr false) curr) curr = next m curr := by
    intro m
    have hf : AgreeOn m (setFree m curr false) (curr + 12) (curr + headerSize) :=
      store8_agree (by omega)
    exact next_congr' (hf.trans (setGuardWord_agree (by omega)))
  simp only [takeBlock] at hl hr
  generalize (if headerSize + kernelHeapGuardSize h + blockAlign ≤ size h.mem curr - want then
    splitBlock h.debugMode h.mem want curr else h.mem) = m at hl hr
  split at hr
  · rw [hr] at hl
    exact hl.head_mem
  · exact hl.next_mem hc ((hlink _).trans hr)

/-! ## A new block at the end -/

/-- The header of a new block, complete with its guard, at an address past
everything else. -/
theorem newBlock_stored {m : Mem} {b : Block} (hn : b.size < 2 ^ 32) (hf : b.free = false) :
    Stored (kernelHeapInitGuard b.guard (initBlock m b.addr b.size) b.addr) b ∧
    next (kernelHeapInitGuard b.guard (initBlock m b.addr b.size) b.addr) b.addr = none ∧
    ∀ lo hi, hi ≤ b.addr → AgreeOn m (kernelHeapInitGuard b.guard (initBlock m b.addr b.size) b.addr)
      lo hi := by
  have hh : headerSize = 16 := rfl
  obtain ⟨hm, hs, hf', hnx, hag⟩ := header_stores (m := m) (b := b.addr) (f := false) (p := none) hn
    (by simp)
  refine ⟨stored_initGuard hm hs (hf'.trans hf.symm), ?_, fun lo hi h => ?_⟩
  · refine Eq.trans ?_ hnx
    simp only [next, initBlock]
    rw [(initGuard_agree hs (by omega : b.addr + 16 ≤ b.addr + 9 ∨
      (b.addr + 10 ≤ b.addr + 10 ∧ _) ∨ _)).load32 (by omega) (by omega)]
  · exact (hag lo hi (by omega)).trans (initGuard_agree hs (by omega))

theorem firstBlock_rep {h h' : HeapState} {want p : Nat} (hw : want ≤ heapSize)
    (hstart : h.currentHeap = heapStart) (hr : firstBlock h want = .ok (h', p)) :
    let b : Block := ⟨h.currentHeap, want, false, h.debugMode⟩
    Rep h'.mem h'.heapList [b] none ∧ h'.currentHeap = b.stop ∧ b.stop ≤ heapEnd ∧
      p = b.payload ∧ h'.rover = some b.addr ∧ h'.debugMode = h.debugMode := by
  intro b
  have hsz : heapSize = 268435456 := rfl
  have hst : heapStart = 3238002688 := rfl
  have hh : headerSize = 16 := rfl
  have hg : guardBytes h.debugMode ≤ 4 := by cases h.debugMode <;> decide
  have hbs : b.stop = h.currentHeap + 16 + want + guardBytes h.debugMode := rfl
  have hu : u32 (h.currentHeap + (headerSize + u32 (want + kernelHeapGuardSize h))) = b.stop := by
    simp only [kernelHeapGuardSize]
    rw [u32_of_lt (by omega : want + _ < _), u32_of_lt (by omega)]
    omega
  simp only [firstBlock, hu] at hr
  split at hr
  · cases hr
  · cases hr
    obtain ⟨h1, h2, _⟩ := newBlock_stored (m := h.mem) (b := b) (by simp only [b]; omega) rfl
    refine ⟨rep_cons.mpr ⟨rfl, h1, rep_nil.mpr h2⟩, rfl, by omega, ?_, rfl, rfl⟩
    exact u32_of_lt (by omega)

theorem firstBlock_error {h : HeapState} {want : Nat} {e : Stop} (hr : firstBlock h want = .error e) :
    e = .panic "out of kernel heap memory" := by
  unfold firstBlock at hr
  simp only at hr
  split at hr
  · cases hr; rfl
  · cases hr

theorem appendBlock_error {h : HeapState} {want t : Nat} {e : Stop}
    (hr : appendBlock h want t = .error e) : e = .panic "out of kernel heap memory" := by
  unfold appendBlock at hr
  simp only at hr
  generalize (if pageSize ≤ want then pageAlign h.currentHeap else h.currentHeap) = base at hr
  split at hr
  · cases hr; rfl
  · cases hr

theorem pageAlign_le {a : Nat} (h : a + pageSize ≤ 2 ^ 32) :
    a ≤ pageAlign a ∧ pageAlign a < a + pageSize := by
  have hp : pageSize = 4096 := rfl
  simp only [pageAlign]
  rw [u32_of_lt (by omega), hp]
  omega

theorem appendBlock_rep {h h' : HeapState} {l : List Block} {t : Block} {want p : Nat}
    (hrep : Rep h.mem h.heapList (l ++ [t] ++ []) none)
    (hlay : Layout heapStart (l ++ [t]) h.currentHeap) (htop : h.currentHeap ≤ heapEnd)
    (hw : want ≤ heapSize) (hr : appendBlock h want t.addr = .ok (h', p)) :
    ∃ b : Block, b.size = want ∧ b.free = false ∧ b.guard = h.debugMode ∧ p = b.payload ∧
      h.currentHeap ≤ b.addr ∧ h'.currentHeap = b.stop ∧ b.stop ≤ heapEnd ∧
      Rep h'.mem h.heapList (l ++ [t, b] ++ []) none ∧
      h'.heapList = h.heapList ∧ h'.rover = h.rover ∧ h'.debugMode = h.debugMode := by
  have hsz : heapSize = 268435456 := rfl
  have hst : heapEnd = 3506438144 := rfl
  have hst0 : heapStart = 3238002688 := rfl
  have hh : headerSize = 16 := rfl
  have hps : pageSize = 4096 := rfl
  have hg : guardBytes h.debugMode ≤ 4 := by cases h.debugMode <;> decide
  obtain ⟨hl, ht⟩ := layout_append_cons.mp hlay
  have ht0 := hl.le
  have ht1 := ht.le
  have ht2 := t.addr_lt_stop
  have hbase := pageAlign_le (a := h.currentHeap) (by omega)
  simp only [appendBlock] at hr
  generalize hb : (if pageSize ≤ want then pageAlign h.currentHeap else h.currentHeap) = base at hr
  have hb1 : h.currentHeap ≤ base ∧ base < h.currentHeap + pageSize := by
    rw [← hb]
    split
    · exact hbase
    · omega
  let b : Block := ⟨base, want, false, h.debugMode⟩
  have hba : b.addr = base := rfl
  have hbp : b.payload = base + 16 := rfl
  have hbs : b.stop = base + 16 + want + guardBytes h.debugMode := rfl
  have hu : u32 (base + (headerSize + u32 (want + kernelHeapGuardSize h))) = b.stop := by
    simp only [kernelHeapGuardSize]
    rw [u32_of_lt (by omega : want + _ < _), u32_of_lt (by omega)]
    omega
  rw [hu] at hr
  split at hr
  · cases hr
  · cases hr
    refine ⟨b, rfl, rfl, rfl, u32_of_lt (by omega), hb1.1, rfl, by omega, ?_, rfl, rfl, rfl⟩
    obtain ⟨hm, hs, hf, hn, hag⟩ := header_stores (m := h.mem) (b := base) (n := want)
      (f := false) (p := none) (by omega) (by simp)
    simp only [initBlock]
    generalize setNext (setFree (setSize (setMagic h.mem base heapMagic) base want) base false)
      base none = m1 at hm hs hf hn hag ⊢
    -- the old last block gets its link
    have hag2 : ∀ lo hi, hi ≤ t.addr + 12 ∨ t.addr + 16 ≤ lo →
        AgreeOn m1 (setNext m1 t.addr (some base)) lo hi := fun lo hi hx => store32_agree (by omega)
    have hnt : next (setNext m1 t.addr (some base)) t.addr = some base :=
      next_setNext (by intro x hx; cases hx; omega)
    have hb2 := hag2 base (base + 16) (by omega)
    have hs2 : size (setNext m1 t.addr (some base)) base = want :=
      (hb2.load32 (by omega) (by omega)).trans hs
    have hst3 : Stored (kernelHeapInitGuard b.guard (setNext m1 t.addr (some base)) b.addr) b := by
      refine stored_initGuard ((hb2.load32 (Nat.le_refl _) (by omega)).trans hm) hs2 ?_
      simp only [free]
      rw [hb2 _ (by omega) (by omega)]
      exact hf
    have hag3 : ∀ lo hi, hi ≤ base + 9 ∨ (base + 10 ≤ lo ∧ hi ≤ base + 16) →
        AgreeOn (setNext m1 t.addr (some base))
          (kernelHeapInitGuard b.guard (setNext m1 t.addr (some base)) base) lo hi :=
      fun lo hi hx => initGuard_agree hs2 (by omega)
    have hz : Layout h.currentHeap [] h.currentHeap := Nat.le_refl _
    refine hrep.splice hl hz (((hag _ _ (by omega)).trans (hag2 _ _ (by omega))).trans
      (hag3 _ _ (by omega))) (fun x hx1 hx2 => by omega) fun s q hold => ?_
    obtain ⟨hp, hstt, hq⟩ := rep_cons.mp hold
    have hagt : AgreeOn h.mem (kernelHeapInitGuard b.guard (setNext m1 t.addr (some base)) base)
        (t.payload + t.size) t.stop :=
      (((hag _ _ (by omega)).trans (hag2 _ _ (by simp only [Block.payload]; omega))).trans
        (hag3 _ _ (by omega)))
    refine rep_cons.mpr ⟨hp, ?_, ?_⟩
    · refine hstt.congr ?_ hagt
      exact ((hag _ _ (by omega)).trans (hag2 _ _ (by omega))).trans (hag3 _ _ (by omega))
    · rw [next_congr (hag3 _ _ (by omega)), hnt]
      refine rep_cons.mpr ⟨rfl, hst3, rep_nil.mpr ?_⟩
      have hlast : next h.mem t.addr = none :=
        (show Seg _ h.heapList (l.map Block.addr ++ [t.addr]) none by simpa using hrep.links).last
      rw [← rep_nil.mp hq, hlast, next_congr' (hag3 _ _ (by omega)), next_congr (hag2 _ _ (by omega)), hn]

/-! ## Coalescing -/

/-- Each block starts where the one before it ends. -/
def Adjacent (bs : List Block) : Prop := bs.IsChain fun a b => a.stop = b.addr

/-- The block that `b` and its physical successor `n` make together. -/
def Block.join (b n : Block) : Block :=
  { b with size := b.size + (headerSize + n.size + guardBytes n.guard), free := true }

/-- The joined block ends where `n` did: its guard word is that of `n`, or it has none and takes in that of `n`. -/
theorem join_stop {b n : Block} (h : b.stop = n.addr) (hg : b.guard = true → n.guard = true) :
    (b.join n).stop = n.stop := by
  have hb : b.stop = b.addr + headerSize + b.size + guardBytes b.guard := rfl
  have hn : n.stop = n.addr + headerSize + n.size + guardBytes n.guard := rfl
  have hj : (b.join n).stop = b.addr + headerSize +
    (b.size + (headerSize + n.size + guardBytes n.guard)) + guardBytes b.guard := rfl
  cases hbg : b.guard with
  | false =>
    rw [hbg] at hb hj
    omega
  | true =>
    rw [hbg] at hb hj
    rw [hg hbg] at hn hj
    omega

/-- One round of the coalescing loop. -/
theorem join_rep {m : Mem} {p : Option Nat} {l r : List Block} {b n : Block} {hi : Nat}
    (hrep : Rep m p (l ++ [b, n] ++ r) none) (hlay : Layout heapStart (l ++ b :: n :: r) hi)
    (htop : hi ≤ heapEnd) (hadj : b.stop = n.addr) (hg : b.guard = true → n.guard = true) (hf : b.free = true) :
    let m' := setSize m b.addr (size m b.addr + (headerSize + size m n.addr + guardBytes (guard m n.addr)))
    Rep (setNext m' b.addr (next m' n.addr)) p (l ++ [b.join n] ++ r) none := by
  intro m'
  obtain ⟨hl, hbn⟩ := layout_append_cons.mp hlay
  obtain ⟨hbn, hr⟩ := layout_cons.mp hbn
  have hl0 := hl.le
  have hr0 := hr.le
  have hst : heapEnd = 3506438144 := rfl
  have hst0 : heapStart = 3238002688 := rfl
  have hh : headerSize = 16 := rfl
  have hb : b.stop = b.addr + 16 + b.size + guardBytes b.guard := rfl
  have hn : n.stop = n.addr + 16 + n.size + guardBytes n.guard := rfl
  have hsb := hrep.stored b (by simp)
  have hsn := hrep.stored n (by simp)
  have hsum : size m b.addr + (headerSize + size m n.addr + guardBytes (Heap.guard m n.addr)) =
      (b.join n).size := by rw [hsb.size, hsn.size, hsn.guard]; rfl
  have hjs : (b.join n).size = b.size + (16 + n.size + guardBytes n.guard) := rfl
  have hja : (b.join n).addr = b.addr := rfl
  have hag1 : ∀ lo hi, hi ≤ b.addr + 4 ∨ b.addr + 8 ≤ lo → AgreeOn m m' lo hi :=
    fun lo hi h => store32_agree (by omega)
  have hag2 : ∀ lo hi, hi ≤ b.addr + 12 ∨ b.addr + 16 ≤ lo →
      AgreeOn m' (setNext m' b.addr (next m' n.addr)) lo hi := fun lo hi h => store32_agree (by omega)
  have hnx : next m' n.addr = next m n.addr := next_congr (hag1 _ _ (by omega))
  refine hrep.splice hl hr ((hag1 _ _ (by omega)).trans (hag2 _ _ (by omega)))
    ((hag1 _ _ (by omega)).trans (hag2 _ _ (by omega))) fun s t hold => ?_
  obtain ⟨hp, _, hold⟩ := rep_cons.mp hold
  obtain ⟨_, _, hold⟩ := rep_cons.mp hold
  refine rep_cons.mpr ⟨hp, ⟨?_, ?_, ?_, ?_, fun hgt => ?_⟩, ?_⟩
  · refine Eq.trans ?_ hsb.magic
    exact ((hag1 b.addr (b.addr + 4) (by omega)).trans (hag2 _ _ (by omega))).load32
      (Nat.le_refl _) (Nat.le_refl _)
  · have hkeep : size (setNext m' b.addr (next m' n.addr)) b.addr = size m' b.addr :=
      (hag2 (b.addr + 4) (b.addr + 8) (by omega)).load32 (Nat.le_refl _) (Nat.le_refl _)
    have hlt : (b.join n).size < 2 ^ 32 := by rw [hjs]; omega
    rw [hja, hkeep, ← hsum]
    exact size_setSize (hsum ▸ hlt)
  · refine Eq.trans ?_ (hsb.free.trans hf)
    simp only [Heap.free, hja]
    rw [((hag1 (b.addr + 8) (b.addr + 9) (by omega)).trans (hag2 _ _ (by omega))) _ (by omega)
      (by omega)]
  · refine Eq.trans ?_ hsb.guard
    simp only [Heap.guard, hja]
    rw [((hag1 (b.addr + 9) (b.addr + 10) (by omega)).trans (hag2 _ _ (by omega))) _ (by omega)
      (by omega)]
  · -- the guard word of the joined block is the one of `n`
    have hgb : b.guard = true := hgt
    have hgn : guardBytes b.guard = 4 := by rw [hgb]; rfl
    have hgn' : guardBytes n.guard = 4 := by rw [hg hgb]; rfl
    have hword : (b.join n).payload + (b.join n).size = n.payload + n.size := by
      simp only [Block.payload, hja]; omega
    rw [hword, ← hsn.word (hg hgb)]
    have hge : b.addr + 16 ≤ n.payload + n.size := by simp only [Block.payload]; omega
    exact ((hag1 (n.payload + n.size) (n.payload + n.size + 4) (by omega)).trans
      (hag2 _ _ (by omega))).load32 (Nat.le_refl _) (Nat.le_refl _)
  · rw [hja, next_setNext fun x hx => next_bound hx, hnx]
    exact rep_nil.mpr (rep_nil.mp hold)

/-- What coalescing does to the list: the free blocks that follow `b` without a
gap are joined to it, and nothing else happens. -/
structure Coalesced (m' : Mem) (p : Option Nat) (l : List Block) (b : Block) (r : List Block)
    (b' : Block) (merged post : List Block) : Prop where
  parts : r = merged ++ post
  free : ∀ c ∈ merged, c.free = true
  adjacent : Adjacent (b :: merged)
  addr : b'.addr = b.addr
  stop : b'.stop = ((b :: merged).getLast (by simp)).stop
  isFree : b'.free = true
  guard : b'.guard = b.guard
  rep : Rep m' p (l ++ [b'] ++ post) none

/-- One more block joined in front of the rest. -/
theorem Coalesced.cons {m' : Mem} {p : Option Nat} {l r merged post : List Block}
    {b n b' : Block} (h : Coalesced m' p l (b.join n) r b' merged post) (hadj : b.stop = n.addr)
    (hg : b.guard = true → n.guard = true) (hf : n.free = true) :
    Coalesced m' p l b (n :: r) b' (n :: merged) post := by
  refine ⟨by rw [h.parts]; rfl, ?_, ?_, h.addr, ?_, h.isFree, h.guard, h.rep⟩
  · intro c hc
    rcases mem_cons.mp hc with rfl | hc
    · exact hf
    · exact h.free c hc
  · refine isChain_cons_cons.mpr ⟨hadj, ?_⟩
    have := h.adjacent
    cases merged with
    | nil => simp
    | cons c cs =>
      obtain ⟨hc, hcs⟩ := isChain_cons_cons.mp this
      exact isChain_cons_cons.mpr ⟨(join_stop hadj hg).symm.trans hc, hcs⟩
  · rw [h.stop]
    cases merged with
    | nil => exact join_stop hadj hg
    | cons c cs => rfl

/-- The loop ends, and joins exactly what it may join. -/
theorem coalesce_spec {p : Option Nat} {l : List Block} {hi fuel : Nat} :
    ∀ {m : Mem} (rover : Option Nat) {b : Block} {r : List Block},
      Rep m p (l ++ [b] ++ r) none → Layout heapStart (l ++ b :: r) hi → hi ≤ heapEnd →
      (b :: r).Pairwise (fun c d => c.guard = true → d.guard = true) → b.free = true → r.length < fuel →
      ∃ m' rover' b' merged post, coalesce b.addr fuel m rover = .ok (m', rover') ∧
        Coalesced m' p l b r b' merged post ∧
        ((∀ x, rover = some x → x ∈ (l ++ b :: r).map Block.addr) →
          ∀ x, rover' = some x → x ∈ (l ++ b' :: post).map Block.addr) := by
  induction fuel with
  | zero => intro m rover b r _ _ _ _ _ h; cases h
  | succ fuel ih =>
    intro m rover b r hrep hlay htop hg hf hlen
    -- the loop stops here: nothing merged in this round
    have done : Coalesced m p l b r b [] r := ⟨rfl, by simp, by simp [Adjacent], rfl, rfl, hf, rfl, hrep⟩
    have hsb := hrep.stored b (by simp)
    obtain ⟨q, hlb, hr⟩ := rep_append.mp hrep
    obtain ⟨_, _, hb⟩ := rep_append.mp hlb
    have hnext := rep_nil.mp (rep_cons.mp hb).2.2
    unfold coalesce
    cases r with
    | nil =>
      rw [hnext, rep_nil.mp hr]
      exact ⟨m, rover, b, [], [], rfl, done, id⟩
    | cons n r =>
      obtain ⟨hq, hsn, hr⟩ := rep_cons.mp hr
      rw [hnext, hq]
      simp only
      split
      · exact ⟨m, rover, b, [], _, rfl, done, id⟩
      split
      · exact ⟨m, rover, b, [], _, rfl, done, id⟩
      rename_i hfree hadj
      obtain ⟨hl, hbn⟩ := layout_append_cons.mp hlay
      obtain ⟨hbn, hr'⟩ := layout_cons.mp hbn
      have hend : heapEnd < 2 ^ 32 := by decide
      have hbs : b.stop = b.addr + headerSize + b.size + guardBytes b.guard := rfl
      have hn := n.addr_lt_stop
      have hr0 := hr'.le
      have hsb2 : b.stop = n.addr := by
        have : n.addr = u32 (b.addr + headerSize + size m b.addr + guardBytes (guard m b.addr)) :=
          Decidable.of_not_not hadj
        rw [hsb.size, hsb.guard, u32_of_lt (by omega)] at this
        omega
      obtain ⟨hbr, hr2⟩ := pairwise_cons.mp hg
      have hgn : b.guard = true → n.guard = true := hbr n mem_cons_self
      have hfn : n.free = true := by
        rw [← hsn.free]
        simpa using hfree
      have hrep2 : Rep m p (l ++ [b, n] ++ r) none := by simpa using hrep
      have hjoin := join_rep hrep2 hlay htop hsb2 hgn hf
      have hlay' : Layout heapStart (l ++ b.join n :: r) hi := by
        refine layout_append_cons.mpr ⟨hl, ?_⟩
        rw [join_stop hsb2 hgn]
        exact hr'
      have hg' : (b.join n :: r).Pairwise fun c d => c.guard = true → d.guard = true :=
        pairwise_cons.mpr ⟨fun c hc => hbr c (mem_cons_of_mem _ hc), (pairwise_cons.mp hr2).2⟩
      obtain ⟨m', rover', b', merged, post, hrun, hco, hrov⟩ :=
        ih (if rover = some n.addr then some b.addr else rover) hjoin hlay' htop hg' rfl
          (Nat.lt_of_succ_lt_succ hlen)
      refine ⟨m', rover', b', n :: merged, post, hrun, hco.cons hsb2 hgn hfn, fun hx =>
        hrov fun x hx' => ?_⟩
      split at hx'
      · cases hx'; simp [Block.join]
      · rename_i hne
        have := hx x hx'
        have hne' : x ≠ n.addr := fun e => hne (e ▸ hx')
        simp only [map_append, map_cons, mem_append, mem_cons] at this ⊢
        rcases this with h | h | h | h
        · exact .inl h
        · exact .inr (.inl h)
        · exact absurd h hne'
        · exact .inr (.inr h)

end Serotonin.Heap
