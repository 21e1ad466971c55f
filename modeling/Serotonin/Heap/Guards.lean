import Serotonin.Heap.Ops
import Mathlib.Data.List.Pairwise
import Mathlib.Data.List.TakeWhile

/-! Both calls on a heap whose blocks need not agree about guards. Debug mode is switched on once, after
the first allocations, so blocks without a guard can be followed by blocks with one; which block a call
takes is the first that fits, from the rover on. -/

namespace Serotonin.Heap
open ByteMem Chain List

/-- Guards in one direction: no block with a guard stands in front of one without. -/
def Guarded (bs : List Block) : Prop := bs.Pairwise fun a b => a.guard = true → b.guard = true

/-- Memory and the static variables describe the blocks `bs`, in either mode. -/
structure MixedOk (h : HeapState) (bs : List Block) : Prop where
  rep : Rep h.mem h.heapList bs none
  layout : Layout heapStart bs h.currentHeap
  top : h.currentHeap ≤ heapEnd
  guarded : Guarded bs
  mode : h.debugMode = false → ∀ b ∈ bs, b.guard = false
  rover : ∀ x, h.rover = some x → x ∈ bs.map Block.addr
  unused : bs = [] → h.currentHeap = heapStart

theorem MixedOk.nodup {h : HeapState} {bs : List Block} (hok : MixedOk h bs) :
    (bs.map Block.addr).Nodup := IsChain.nodup hok.rep.links

/-- A block is known by its address. -/
theorem MixedOk.inj {h : HeapState} {bs : List Block} (hok : MixedOk h bs) {b c : Block}
    (hb : b ∈ bs) (hc : c ∈ bs) (he : b.payload = c.payload) : b = c :=
  inj_on_of_nodup_map hok.nodup hb hc (Nat.add_right_cancel he)

theorem MixedOk.check {h : HeapState} {bs : List Block} (hok : MixedOk h bs) {b : Block} (hb : b ∈ bs) :
    kernelHeapCheckBlock h.mem b.addr = .ok () := checkBlock_ok hok.rep hok.layout hok.top hb

theorem MixedOk.length {h : HeapState} {bs : List Block} (hok : MixedOk h bs) : bs.length < heapFuel :=
  length_le_heapFuel hok.layout hok.top

/-! ## Which block is taken -/

/-- The blocks in the order in which they are looked at. -/
def searchOrder (bs : List Block) (rover : Option Nat) : List Block :=
  bs.dropWhile (fun b => decide (some b.addr ≠ rover)) ++ bs.takeWhile fun b => decide (some b.addr ≠ rover)

def firstFit (bs : List Block) (rover : Option Nat) (want : Nat) : Option Block :=
  (searchOrder bs rover).find? (·.fits want)

theorem searchOrder_at {l r : List Block} {rb : Block} (h : ∀ b ∈ l, b.addr ≠ rb.addr) :
    searchOrder (l ++ rb :: r) (some rb.addr) = rb :: r ++ l := by
  have hpre : ∀ b ∈ l, decide (some b.addr ≠ some rb.addr) = true := fun b hb => by simpa using h b hb
  unfold searchOrder
  rw [dropWhile_append_of_pos hpre, takeWhile_append_of_pos hpre]
  simp

theorem searchOrder_none (bs : List Block) : searchOrder bs none = bs := by
  have hall : ∀ b ∈ bs, decide (some b.addr ≠ none) = true := fun _ _ => rfl
  unfold searchOrder
  rw [dropWhile_eq_nil_iff.mpr hall, takeWhile_eq_self_iff.mpr hall, nil_append]

theorem firstFit_some {bs : List Block} {rover : Option Nat} {want : Nat} {b : Block}
    (h : firstFit bs rover want = some b) : b ∈ bs ∧ b.free = true ∧ want ≤ b.size := by
  have hfit := List.find?_some h
  have hmem := mem_of_find?_eq_some h
  simp only [Block.fits, Bool.and_eq_true, decide_eq_true_eq] at hfit
  refine ⟨?_, hfit⟩
  rcases mem_append.mp hmem with hmem | hmem
  · exact (dropWhile_sublist _).subset hmem
  · exact (takeWhile_sublist _).subset hmem

/-- `if (!rover) rover = heap_list` -/
def HeapState.roved (h : HeapState) : HeapState := { h with rover := h.rover <|> h.heapList }

/-- The two scans find the first block that fits, and where there is none the new block goes to the end. -/
theorem kernelMalloc_eq {h : HeapState} {l : List Block} {t : Block} (hok : MixedOk h (l ++ [t])) (requested : Nat) :
    kernelMalloc h requested = match firstFit (l ++ [t]) h.rover (align requested) with
      | some b => .ok (takeBlock h (align requested) b.addr, u32 (b.addr + headerSize))
      | none => appendBlock h.roved (align requested) t.addr := by
  obtain ⟨head, hhead, hmem⟩ : ∃ head, h.heapList = some head ∧ head ∈ (l ++ [t]).map Block.addr := by
    have hlinks := hok.rep.links
    cases hl : h.heapList with
    | none =>
      rw [hl] at hlinks
      cases l <;> cases hlinks.1
    | some head =>
      rw [hl] at hlinks
      exact ⟨head, rfl, IsChain.head_mem hlinks⟩
  have hroved : h.roved = { h with heapList := some head, rover := some (h.rover.getD head) } := by
    unfold HeapState.roved
    rw [hhead]
    cases h.rover <;> rfl
  -- the list around the rover
  have hrov : h.rover.getD head ∈ (l ++ [t]).map Block.addr := by
    cases hr : h.rover with
    | none => exact hmem
    | some x => exact hok.rover x hr
  obtain ⟨rb, hrb, hraddr⟩ := mem_map.mp hrov
  obtain ⟨pre, post, hsplit⟩ := append_of_mem hrb
  have hne : ∀ b ∈ pre, b.addr ≠ rb.addr := by
    have hnodup := hok.nodup
    rw [hsplit, map_append, map_cons] at hnodup
    intro b hb he
    exact (nodup_append.mp hnodup).2.2 b.addr (mem_map_of_mem hb) rb.addr mem_cons_self he
  have horder : searchOrder (l ++ [t]) h.rover = rb :: post ++ pre := by
    cases hr : h.rover with
    | some x =>
      rw [hr] at hraddr
      obtain rfl : rb.addr = x := hraddr
      rw [hsplit, searchOrder_at hne]
    | none =>
      rw [hr] at hraddr
      have hfirst : pre = [] := by
        have hrep := hhead ▸ hsplit ▸ hok.rep
        cases pre with
        | nil => rfl
        | cons b pre =>
          have hb : some head = some b.addr := (rep_cons.mp hrep).1
          exact absurd ((Option.some.inj hb).symm.trans hraddr.symm) (hne b mem_cons_self)
      rw [searchOrder_none, hsplit, hfirst, append_nil]
      rfl
  have hrep : Rep h.mem (some rb.addr) (rb :: post) none := by
    obtain ⟨q, -, hq⟩ := rep_append.mp (hsplit ▸ hok.rep)
    exact (rep_cons.mp hq).1 ▸ hq
  have hcheck : ∀ b ∈ pre ++ rb :: post, kernelHeapCheckBlock h.mem b.addr = .ok () := fun b hb => hok.check (hsplit ▸ hb)
  have hlen := hok.length
  rw [hsplit, length_append] at hlen
  have hlast : (rb :: post).getLast? = some t := by
    have htl := congrArg List.getLast? hsplit
    rw [List.getLast?_append_cons] at htl
    simpa using htl.symm
  have htake : ∀ b : Block, pure (takeBlock { h with heapList := some head, rover := some rb.addr } (align requested) b.addr,
      u32 (b.addr + headerSize)) = (.ok (takeBlock h (align requested) b.addr, u32 (b.addr + headerSize)) : Result _) := by
    intro b
    unfold takeBlock
    rw [hhead]
    rfl
  unfold kernelMalloc firstFit
  rw [hhead, horder, List.find?_append]
  dsimp only
  rw [← hraddr, scanToTail_eq _ hrep (fun b hb => hcheck b (mem_append_right _ hb)) (by simp only [length_cons] at *; omega),
    ok_bind]
  cases hfound : (rb :: post).find? (·.fits (align requested)) with
  | some b => exact htake b
  | none =>
    rw [Option.elim_none, hlast, Option.map_some, Option.none_or]
    dsimp only
    have hrep0 := hok.rep
    rw [hhead, hsplit] at hrep0
    rw [scanToRover_eq _ hrep0 hne (fun b hb => hcheck b (mem_append_left _ hb)) (by omega), ok_bind]
    cases hfound : pre.find? (·.fits (align requested)) with
    | some b => exact htake b
    | none =>
      rw [hroved, ← hraddr]
      rfl

/-! ## Allocation -/

theorem le_align {n : Nat} (h : n ≤ heapSize) : n ≤ align n ∧ align n ≤ heapSize := by
  have hs : heapSize = 268435456 := rfl
  have ha : blockAlign = 8 := rfl
  simp only [align]
  rw [u32_of_lt (by omega), ha]
  omega

/-- What an allocation that returns `p` does to the blocks. -/
structure Allocated (h : HeapState) (bs : List Block) (requested : Nat) (h' : HeapState) (p : Nat)
    (bs' : List Block) : Prop where
  ok : MixedOk h' bs'
  mode : h'.debugMode = h.debugMode
  block : ∃ b ∈ bs', b.free = false ∧ b.payload = p ∧ requested ≤ b.size
  kept : ∀ c ∈ bs, c.free = false → c ∈ bs' ∧ c.payload ≠ p
  guards : ∀ c ∈ bs', c.guard = h.debugMode ∨ ∃ b ∈ bs, b.guard = c.guard

/-- In debug mode the block that is taken has a guard, or too little is left over for a block with one. -/
def CutOk (h : HeapState) (bs : List Block) (want : Nat) : Prop :=
  h.debugMode = true → ∀ b, firstFit bs h.rover want = some b → b.guard = false →
    b.size < want + (headerSize + heapGuardSize + blockAlign)

/-- One block of the list is replaced by some with the same guard. -/
theorem Guarded.replace {l r new : List Block} {b : Block} (h : Guarded (l ++ b :: r)) (hnew : ∀ c ∈ new, c.guard = b.guard) :
    Guarded (l ++ new ++ r) := by
  obtain ⟨hl, hbr, hlr⟩ := pairwise_append.mp h
  obtain ⟨hb, hr⟩ := pairwise_cons.mp hbr
  have hnn : Guarded new := pairwise_of_forall_mem_list fun c hc d hd hg => (hnew d hd).trans ((hnew c hc).symm.trans hg)
  have hln : ∀ a ∈ l, ∀ c ∈ new, a.guard = true → c.guard = true :=
    fun a ha c hc hg => (hnew c hc).trans (hlr a ha b mem_cons_self hg)
  refine pairwise_append.mpr ⟨pairwise_append.mpr ⟨hl, hnn, hln⟩, hr, fun a ha d hd hg => ?_⟩
  rcases mem_append.mp ha with ha | ha
  · exact hlr a ha d (mem_cons_of_mem _ hd) hg
  · exact hb d hd ((hnew a ha).symm.trans hg)

/-- What a block that is taken leaves in its place. -/
structure Cut (b : Block) (want : Nat) (new : List Block) : Prop where
  head : ∃ b' rest, new = b' :: rest ∧ b'.addr = b.addr ∧ b'.free = false ∧ want ≤ b'.size
  guard : ∀ c ∈ new, c.guard = b.guard
  layout : Layout b.addr new b.stop

/-- A block is split with its own guard size, or it is taken whole. -/
theorem takeBlock_cut {h : HeapState} {l r : List Block} {b : Block} {want : Nat} (hok : MixedOk h (l ++ b :: r))
    (hcut : h.debugMode = true → b.guard = false → b.size < want + (headerSize + heapGuardSize + blockAlign))
    (hw : want ≤ b.size) : ∃ new, Cut b want new ∧ Rep (takeBlock h want b.addr).mem h.heapList (l ++ new ++ r) none := by
  have hrep : Rep h.mem h.heapList (l ++ [b] ++ r) none := by simpa using hok.rep
  by_cases hg : b.guard = h.debugMode
  · exact ⟨b.carve want, ⟨carve_head b want hw, fun c => carve_guard, carve_layout b want hw⟩,
      takeBlock_rep hrep hok.layout hok.top hg hw⟩
  have hdebug : h.debugMode = true ∧ b.guard = false := by
    cases hd : h.debugMode with
    | false => exact absurd (hok.mode hd b (by simp)) (hd ▸ hg)
    | true => exact ⟨rfl, by simpa [hd] using hg⟩
  have hfit : ¬headerSize + kernelHeapGuardSize h + blockAlign ≤ b.size - want := by
    have hsmall := hcut hdebug.1 hdebug.2
    unfold kernelHeapGuardSize guardBytes
    rw [hdebug.1, if_pos rfl]
    omega
  exact ⟨[{ b with free := false }], ⟨⟨_, [], rfl, rfl, rfl, hw⟩, by simp, Nat.le_refl _, Nat.le_refl _⟩,
    takeWhole_rep hrep hok.layout hfit⟩

/-- A free block of the list is taken, whole or in part. -/
theorem takeBlock_allocated {h : HeapState} {bs : List Block} {requested : Nat} {b : Block}
    (hok : MixedOk h bs) (hn : requested ≤ heapSize) (hb : b ∈ bs) (hf : b.free = true) (hw : align requested ≤ b.size)
    (hcut : h.debugMode = true → b.guard = false → b.size < align requested + (headerSize + heapGuardSize + blockAlign)) :
    ∃ bs', Allocated h bs requested (takeBlock h (align requested) b.addr) (u32 (b.addr + headerSize)) bs' := by
  obtain ⟨l, r, rfl⟩ := append_of_mem hb
  obtain ⟨new, hnew, hrep⟩ := takeBlock_cut hok hcut hw
  obtain ⟨hl, hr⟩ := layout_append_cons.mp hok.layout
  obtain ⟨b', rest, rfl, ha, hf', hs⟩ := hnew.head
  have hmem := hok.layout.mem hb
  have hend : heapEnd < 2 ^ 32 := by decide
  have htop := hok.top
  have hstop := b.addr_lt_stop
  have hu : u32 (b.addr + headerSize) = b.payload := u32_of_lt (by omega)
  have hb' : b' ∈ l ++ (b' :: rest) ++ r := by simp
  have hguard : ∀ c ∈ l ++ (b' :: rest) ++ r, ∃ d ∈ l ++ b :: r, d.guard = c.guard := by
    intro c hc
    rcases mem_append.mp hc with hc | hc
    · rcases mem_append.mp hc with hc | hc
      · exact ⟨c, mem_append_left _ hc, rfl⟩
      · exact ⟨b, hb, (hnew.guard c hc).symm⟩
    · exact ⟨c, mem_append_right _ (mem_cons_of_mem _ hc), rfl⟩
  refine ⟨l ++ (b' :: rest) ++ r, ⟨hrep, ?_, hok.top, hok.guarded.replace hnew.guard, fun hd c hc => ?_, fun x hx => ?_, fun he => ?_⟩,
    rfl, ⟨b', hb', hf', ?_, Nat.le_trans (le_align hn).1 hs⟩, fun c hc hcf => ?_, fun c hc => .inr (hguard c hc)⟩
  · rw [append_assoc]
    exact layout_append.mpr ⟨_, hl, layout_append.mpr ⟨_, hnew.layout, hr⟩⟩
  · obtain ⟨d, hd', hg⟩ := hguard c hc
    exact hg ▸ hok.mode hd d hd'
  · refine takeBlock_rover hrep.links ?_ hx
    rw [← ha]
    exact mem_map_of_mem hb'
  · rw [he] at hb'
    cases hb'
  · rw [hu, Block.payload, ha]
    rfl
  · have hne : c ≠ b := by
      rintro rfl
      rw [hf] at hcf
      cases hcf
    refine ⟨?_, fun he => hne (hok.inj hc hb (he.trans hu))⟩
    rcases mem_append.mp hc with hc | hc
    · exact mem_append_left _ (mem_append_left _ hc)
    · exact mem_append_right _ ((mem_cons.mp hc).resolve_left hne)

/-- A new block behind all others has the guard of the mode. -/
theorem MixedOk.snoc {h h' : HeapState} {bs : List Block} {b : Block} (hok : MixedOk h bs)
    (hrep : Rep h'.mem h'.heapList (bs ++ [b]) none) (hbase : h.currentHeap ≤ b.addr) (hcur : h'.currentHeap = b.stop)
    (hstop : b.stop ≤ heapEnd) (hg : b.guard = h.debugMode) (hmode : h'.debugMode = h.debugMode)
    (hrov : ∀ x, h'.rover = some x → x ∈ (bs ++ [b]).map Block.addr) : MixedOk h' (bs ++ [b]) where
  rep := hrep
  layout := hcur ▸ layout_append.mpr ⟨_, hok.layout, hbase, Nat.le_refl _⟩
  top := hcur ▸ hstop
  guarded := by
    refine pairwise_append.mpr ⟨hok.guarded, pairwise_singleton .., fun a ha c hc hag => ?_⟩
    obtain rfl := mem_singleton.mp hc
    rw [hg]
    by_contra hd
    rw [hok.mode (by simpa using hd) a ha] at hag
    cases hag
  mode hd c hc := by
    rw [hmode] at hd
    rcases mem_append.mp hc with hc | hc
    · exact hok.mode hd c hc
    · obtain rfl := mem_singleton.mp hc
      exact hg.trans hd
  rover := hrov
  unused he := by simp at he

theorem firstBlock_allocated {h h' : HeapState} {requested p : Nat} (hok : MixedOk h [])
    (hn : requested ≤ heapSize) (hr : firstBlock h (align requested) = .ok (h', p)) :
    ∃ bs', Allocated h [] requested h' p bs' := by
  obtain ⟨hrep, hcur, hstop, hp, hrov, hmode⟩ := firstBlock_rep (le_align hn).2 (hok.unused rfl) hr
  refine ⟨_, hok.snoc (b := ⟨h.currentHeap, align requested, false, h.debugMode⟩) hrep (Nat.le_refl _) hcur hstop rfl hmode ?_,
    hmode, ⟨_, by simp, rfl, hp.symm, (le_align hn).1⟩, nofun, fun c hc => .inl ?_⟩
  · intro x hx
    rw [hrov] at hx
    simpa using (Option.some.inj hx).symm
  · obtain rfl := mem_singleton.mp hc
    rfl

theorem appendBlock_allocated {h h' : HeapState} {l : List Block} {t : Block} {requested p : Nat}
    (hok : MixedOk h (l ++ [t])) (hn : requested ≤ heapSize)
    (hr : appendBlock h (align requested) t.addr = .ok (h', p)) :
    ∃ bs', Allocated h (l ++ [t]) requested h' p bs' := by
  have hrep0 : Rep h.mem h.heapList (l ++ [t] ++ []) none := by simpa using hok.rep
  obtain ⟨b, hbs, hbf, hbg, hp, hbase, hcur, hstop, hrep, hlist, hrov, hmode⟩ :=
    appendBlock_rep hrep0 hok.layout hok.top (le_align hn).2 hr
  have hassoc : l ++ [t, b] ++ [] = (l ++ [t]) ++ [b] := by simp
  rw [hassoc] at hrep
  refine ⟨(l ++ [t]) ++ [b], hok.snoc (hlist ▸ hrep) hbase hcur hstop hbg hmode ?_, hmode,
    ⟨b, by simp, hbf, hp.symm, hbs ▸ (le_align hn).1⟩, fun c hc _ => ⟨mem_append_left _ hc, ?_⟩, fun c hc => ?_⟩
  · intro x hx
    rw [map_append]
    exact mem_append_left _ (hok.rover x (hrov ▸ hx))
  · have h1 := (hok.layout.mem hc).2
    have h2 := c.addr_lt_stop
    have hh : headerSize = 16 := rfl
    rw [hp]
    simp only [Block.payload]
    omega
  · rcases mem_append.mp hc with hc | hc
    · exact .inr ⟨c, hc, rfl⟩
    · obtain rfl := mem_singleton.mp hc
      exact .inl hbg

theorem MixedOk.roved {h : HeapState} {bs : List Block} (hok : MixedOk h bs) : MixedOk h.roved bs := by
  refine ⟨hok.rep, hok.layout, hok.top, hok.guarded, hok.mode, fun x hx => ?_, hok.unused⟩
  unfold HeapState.roved at hx
  cases hr : h.rover with
  | some y =>
    rw [hr] at hx
    obtain rfl := Option.some.inj hx
    exact hok.rover y hr
  | none =>
    rw [hr] at hx
    have hlist : h.heapList = some x := hx
    have hlinks := hok.rep.links
    rw [hlist] at hlinks
    exact IsChain.head_mem hlinks

/-- An empty heap has no list yet. -/
theorem kernelMalloc_first {h : HeapState} (hok : MixedOk h []) (requested : Nat) :
    kernelMalloc h requested = firstBlock h (align requested) := by
  unfold kernelMalloc
  rw [rep_nil.mp hok.rep]

/-- `kernel_malloc` on a sound heap: it runs out of memory, or it returns a block of its own of sufficient
size and leaves the heap sound. -/
theorem kernelMalloc_allocated {h : HeapState} {bs : List Block} {requested : Nat} (hok : MixedOk h bs)
    (hn : requested ≤ heapSize) (hcut : CutOk h bs (align requested)) :
    kernelMalloc h requested = .error (.panic "out of kernel heap memory") ∨
      ∃ h' p bs', kernelMalloc h requested = .ok (h', p) ∧ Allocated h bs requested h' p bs' := by
  rcases eq_nil_or_concat bs with rfl | ⟨l, t, rfl⟩
  · rw [kernelMalloc_first hok]
    cases hr : firstBlock h (align requested) with
    | error e => exact .inl (congrArg _ (firstBlock_error hr))
    | ok r =>
      obtain ⟨bs', hm⟩ := firstBlock_allocated hok hn hr
      exact .inr ⟨r.1, r.2, bs', rfl, hm⟩
  · rw [concat_eq_append] at *
    rw [kernelMalloc_eq hok]
    cases hfit : firstFit (l ++ [t]) h.rover (align requested) with
    | some b =>
      obtain ⟨hb, hf, hw⟩ := firstFit_some hfit
      obtain ⟨bs', hm⟩ := takeBlock_allocated hok hn hb hf hw fun hd => hcut hd b hfit
      exact .inr ⟨_, _, bs', rfl, hm⟩
    | none =>
      dsimp only
      cases hr : appendBlock h.roved (align requested) t.addr with
      | error e => exact .inl (congrArg _ (appendBlock_error hr))
      | ok r =>
        obtain ⟨bs', hm⟩ := appendBlock_allocated hok.roved hn hr
        exact .inr ⟨r.1, r.2, bs', rfl, hm.ok, hm.mode, hm.block, hm.kept, hm.guards⟩

/-! ## Release -/

/-- From `bs` to `bs'` the block `b` takes in a run of free blocks, each starting
where the one before it ends, and the other blocks stay as they are. -/
def MergesFree (bs : List Block) (b : Block) (bs' : List Block) : Prop :=
  ∃ l merged post b', bs = l ++ b :: (merged ++ post) ∧ bs' = l ++ b' :: post ∧
    (∀ c ∈ merged, c.free = true) ∧ Adjacent (b :: merged) ∧ b'.free = true ∧
    b'.addr = b.addr ∧ b'.stop = ((b :: merged).getLast (by simp)).stop

/-- What the release of the payload of `b` does to the blocks. -/
structure Released (h : HeapState) (bs : List Block) (b : Block) (h' : HeapState)
    (bs' : List Block) : Prop where
  ok : MixedOk h' bs'
  mode : h'.debugMode = h.debugMode
  top : h'.currentHeap = h.currentHeap
  merges : MergesFree bs b bs'
  guards : ∀ c ∈ bs', ∃ d ∈ bs, d.guard = c.guard

theorem layout_after_last {bs post : List Block} {hi : Nat} : ∀ {b : Block},
    Layout b.stop (bs ++ post) hi → Layout ((b :: bs).getLast (by simp)).stop post hi := by
  induction bs with
  | nil => intro b h; exact h
  | cons c bs ih =>
    intro b h
    rw [getLast_cons_cons]
    exact ih h.2

/-- Setting the free flag of one block. -/
theorem setFree_rep {m : Mem} {p : Option Nat} {l r : List Block} {b : Block} {f : Bool} {lo hi : Nat}
    (hrep : Rep m p (l ++ [b] ++ r) none) (hlay : Layout lo (l ++ b :: r) hi) :
    Rep (setFree m b.addr f) p (l ++ [{ b with free := f }] ++ r) none := by
  obtain ⟨hl, hr⟩ := layout_append_cons.mp hlay
  have hh : headerSize = 16 := rfl
  have hstop := b.addr_lt_stop
  have hag : ∀ lo hi, hi ≤ b.addr + 8 ∨ b.addr + 9 ≤ lo → AgreeOn m (setFree m b.addr f) lo hi :=
    fun lo hi h => store8_agree (by omega)
  refine hrep.splice hl hr (hag _ _ (by omega)) (hag _ _ (by omega)) fun s t hold => ?_
  obtain ⟨hp, hst, ht⟩ := rep_cons.mp hold
  refine rep_cons.mpr ⟨hp, ⟨?_, ?_, free_setFree, ?_, fun hg => ?_⟩, ?_⟩
  · exact ((hag b.addr (b.addr + 4) (by omega)).load32 (Nat.le_refl _) (Nat.le_refl _)).trans
      hst.magic
  · exact ((hag (b.addr + 4) (b.addr + 8) (by omega)).load32 (Nat.le_refl _) (Nat.le_refl _)).trans
      hst.size
  · refine Eq.trans ?_ hst.guard
    simp only [guard]
    rw [hag (b.addr + 9) (b.addr + 10) (by omega) _ (by omega) (by omega)]
  · refine Eq.trans ?_ (hst.word hg)
    have hge : b.addr + 16 ≤ b.payload + b.size := by simp only [Block.payload]; omega
    exact (hag (b.payload + b.size) (b.payload + b.size + 4) (by omega)).load32 (Nat.le_refl _)
      (Nat.le_refl _)
  · show Rep _ (next _ b.addr) _ _
    rw [next_congr' (hag _ _ (by omega))]
    exact rep_nil.mpr (rep_nil.mp ht)

/-- `kernel_free` of a block in use merges only blocks that are free and
physically adjacent. It panics in one case: an empty payload at the very end of
the heap, which is what `kernel_malloc(0)` returns when a header just fits. -/
theorem kernelFree_released {h : HeapState} {bs : List Block} {b : Block} (hok : MixedOk h bs)
    (hb : b ∈ bs) (hf : b.free = false) :
    (b.payload = heapEnd ∧ ∃ msg, kernelFree h b.payload = .error (.panic msg)) ∨
    ∃ h' bs', kernelFree h b.payload = .ok h' ∧ Released h bs b h' bs' := by
  rcases Nat.lt_or_ge b.payload heapEnd with hend | hend
  swap
  · have hle := Nat.le_trans (Nat.le_trans b.payload_le_stop (hok.layout.mem hb).2) hok.top
    have heq : b.payload = heapEnd := Nat.le_antisymm hle hend
    refine .inl ⟨heq, "kernel_free: pointer out of heap range", ?_⟩
    unfold kernelFree
    rw [heq, if_neg (by decide), if_pos (.inr (Nat.le_refl _))]
    rfl
  right
  obtain ⟨l, r, rfl⟩ := append_of_mem hb
  have hs0 : heapStart = 3238002688 := rfl
  have hh : headerSize = 16 := rfl
  have hin := hok.layout.mem hb
  have hpay : b.payload = b.addr + headerSize := rfl
  have hcheck := checkBlock_ok hok.rep hok.layout hok.top hb
  have hrep0 : Rep h.mem h.heapList (l ++ [b] ++ r) none := by simpa using hok.rep
  have hrep1 := setFree_rep (f := true) hrep0 hok.layout
  have hlen : r.length < heapFuel := by
    have := length_le_heapFuel hok.layout hok.top
    simp only [length_append, length_cons] at this
    omega
  have hguards : ({ b with free := true } :: r).Pairwise fun c d => c.guard = true → d.guard = true := by
    obtain ⟨hbr, hr⟩ := pairwise_cons.mp (pairwise_append.mp hok.guarded).2.1
    exact pairwise_cons.mpr ⟨hbr, hr⟩
  have hlay1 : Layout heapStart (l ++ { b with free := true } :: r) h.currentHeap := by
    obtain ⟨hl, hr⟩ := layout_append_cons.mp hok.layout
    exact layout_append_cons.mpr ⟨hl, hr⟩
  obtain ⟨m', rover', b', merged, post, hrun, hco, hrov⟩ :=
    coalesce_spec h.rover hrep1 hlay1 hok.top hguards rfl hlen
  have hparts := hco.parts
  subst hparts
  have hguard : ∀ c ∈ l ++ b' :: post, ∃ d ∈ l ++ b :: (merged ++ post), d.guard = c.guard := by
    intro c hc
    rcases mem_append.mp hc with hc | hc
    · exact ⟨c, mem_append_left _ hc, rfl⟩
    · rcases mem_cons.mp hc with rfl | hc
      · exact ⟨b, hb, hco.guard.symm⟩
      · exact ⟨c, by simp [hc], rfl⟩
  refine ⟨{ h with mem := m', rover := rover' }, l ++ b' :: post, ?_,
    ⟨?_, ?_, hok.top, ?_, fun hd c hc => ?_, ?_, by simp⟩,
    rfl, rfl, ⟨l, merged, post, b', rfl, rfl, hco.free, ?_, hco.isFree, hco.addr, ?_⟩, hguard⟩
  · -- every check of the call passes
    have hnull : b.payload ≠ 0 := by omega
    have hrange : ¬(b.payload < heapStart + headerSize ∨ heapEnd ≤ b.payload) := by omega
    have hblock : b.payload - headerSize = b.addr := by omega
    unfold kernelFree
    rw [if_neg hnull, if_neg hrange]
    simp only [hblock, hcheck, (hok.rep.stored b hb).free, hf, hrun, ok_bind]
    rfl
  · have := hco.rep
    rwa [append_assoc] at this
  · -- the merged block fills the range of its parts
    obtain ⟨hl, hr⟩ := layout_append_cons.mp hok.layout
    refine layout_append_cons.mpr ⟨hco.addr ▸ hl, ?_⟩
    rw [hco.stop]
    exact layout_after_last hr
  · have hsub : (l ++ b :: post).Sublist (l ++ b :: (merged ++ post)) :=
      ((sublist_append_right merged post).cons_cons b).append_left l
    have hrepl := @Guarded.replace _ _ [b'] _ (hok.guarded.sublist hsub) (by simpa using hco.guard)
    simpa using hrepl
  · obtain ⟨d, hd', hg⟩ := hguard c hc
    exact hg ▸ hok.mode hd d hd'
  · refine hrov fun x hx => ?_
    have := hok.rover x hx
    simpa using this
  · have := hco.adjacent
    cases merged with
    | nil => simp [Adjacent]
    | cons c cs =>
      obtain ⟨h1, h2⟩ := isChain_cons_cons.mp this
      exact isChain_cons_cons.mpr ⟨h1, h2⟩
  · rw [hco.stop]
    cases merged with
    | nil => rfl
    | cons c cs => rfl

theorem Released.kept {h h' : HeapState} {bs bs' : List Block} {b c : Block}
    (hf : Released h bs b h' bs') (hc : c ∈ bs) (hne : c ≠ b) (hcf : c.free = false) : c ∈ bs' := by
  obtain ⟨l, merged, post, b', rfl, rfl, hm, _⟩ := hf.merges
  rcases mem_append.mp hc with hc | hc
  · exact mem_append_left _ hc
  · rcases mem_cons.mp hc with hc | hc
    · exact absurd hc hne
    · rcases mem_append.mp hc with hc | hc
      · rw [hm c hc] at hcf; cases hcf
      · simp [hc]

/-! ## The callers -/

/-- The heap, and what the callers hold of it: the pointers returned and not
yet freed, each with the size that was asked for. -/
structure System where
  heap : HeapState
  live : List (Nat × Nat)

/-- The bytes a caller may use behind the pointer `p`. -/
def payloadSize (m : Mem) (p : Nat) : Nat := size m (p - headerSize)

/-- Every live pointer is the payload of a block in use, and no block is live
twice. -/
structure MixedInv (s : System) (bs : List Block) : Prop where
  heap : MixedOk s.heap bs
  live : ∀ x ∈ s.live, ∃ b ∈ bs, b.free = false ∧ b.payload = x.1 ∧ x.2 ≤ b.size
  distinct : (s.live.map Prod.fst).Nodup

theorem MixedInv.block {s : System} {bs : List Block} {p : Nat} (h : MixedInv s bs)
    (hp : p ∈ s.live.map Prod.fst) : ∃ b ∈ bs, b.free = false ∧ b.payload = p := by
  obtain ⟨x, hx, rfl⟩ := mem_map.mp hp
  obtain ⟨b, hb, hf, hpay, _⟩ := h.live x hx
  exact ⟨b, hb, hf, hpay⟩

/-- The size in the header in front of a live pointer is the size of its block. -/
theorem MixedInv.payloadSize {s : System} {bs : List Block} {b : Block} (h : MixedInv s bs) (hb : b ∈ bs) :
    payloadSize s.heap.mem b.payload = b.size := by
  unfold Heap.payloadSize Block.payload
  rw [Nat.add_sub_cancel]
  exact (h.heap.rep.stored b hb).size

theorem MixedInv.malloc {s : System} {bs : List Block} {requested p : Nat} {h : HeapState}
    (hi : MixedInv s bs) (hn : requested ≤ heapSize) (hcut : CutOk s.heap bs (align requested))
    (hr : kernelMalloc s.heap requested = .ok (h, p)) :
    ∃ bs', MixedInv ⟨h, (p, requested) :: s.live⟩ bs' ∧ Allocated s.heap bs requested h p bs' := by
  rcases kernelMalloc_allocated hi.heap hn hcut with he | ⟨h', p', bs', he, hm⟩
  · rw [he] at hr; cases hr
  rw [he] at hr
  cases hr
  refine ⟨bs', ⟨hm.ok, fun x hx => ?_, nodup_cons.mpr ⟨fun hp => ?_, hi.distinct⟩⟩, hm⟩
  · rcases mem_cons.mp hx with rfl | hx
    · exact hm.block
    · obtain ⟨b, hb, hf, hpay, hsz⟩ := hi.live x hx
      exact ⟨b, (hm.kept b hb hf).1, hf, hpay, hsz⟩
  · obtain ⟨b, hb, hf, hpay⟩ := hi.block hp
    exact (hm.kept b hb hf).2 hpay

theorem MixedInv.free {s : System} {bs : List Block} {p : Nat} {h : HeapState} (hi : MixedInv s bs)
    (hp : p ∈ s.live.map Prod.fst) (hr : kernelFree s.heap p = .ok h) :
    ∃ b ∈ bs, b.payload = p ∧ ∃ bs', MixedInv ⟨h, s.live.filter fun x => x.1 != p⟩ bs' ∧ Released s.heap bs b h bs' := by
  obtain ⟨b, hb, hf, rfl⟩ := hi.block hp
  rcases kernelFree_released hi.heap hb hf with ⟨_, _, he⟩ | ⟨h', bs', he, hfr⟩
  · rw [he] at hr; cases hr
  rw [he] at hr
  cases hr
  refine ⟨b, hb, rfl, bs', ⟨hfr.ok, fun x hx => ?_, ?_⟩, hfr⟩
  · obtain ⟨hx, hne⟩ := mem_filter.mp hx
    obtain ⟨c, hc, hcf, hpay, hsz⟩ := hi.live x hx
    refine ⟨c, hfr.kept hc ?_ hcf, hcf, hpay, hsz⟩
    rintro rfl
    simp [hpay] at hne
  · exact hi.distinct.sublist (filter_sublist.map _)

theorem MixedInv.write {s : System} {bs : List Block} {p a : Nat} {v : UInt8} (hi : MixedInv s bs)
    (hp : p ∈ s.live.map Prod.fst) (h0 : p ≤ a) (h1 : a < p + Heap.payloadSize s.heap.mem p) :
    MixedInv { s with heap := { s.heap with mem := store8 s.heap.mem a v } } bs := by
  obtain ⟨b, hb, hf, rfl⟩ := hi.block hp
  rw [hi.payloadSize hb] at h1
  obtain ⟨l, r, rfl⟩ := append_of_mem hb
  obtain ⟨hl, hr⟩ := layout_append_cons.mp hi.heap.layout
  have hpay : b.payload = b.addr + headerSize := rfl
  have hstop : b.stop = b.payload + b.size + guardBytes b.guard := rfl
  have hag : ∀ lo hi, hi ≤ b.payload ∨ b.payload + b.size ≤ lo →
      AgreeOn s.heap.mem (store8 s.heap.mem a v) lo hi := fun lo hi h => store8_agree (by omega)
  have hrep0 : Rep s.heap.mem s.heap.heapList (l ++ [b] ++ r) none := by simpa using hi.heap.rep
  have hrep : Rep (store8 s.heap.mem a v) s.heap.heapList (l ++ [b] ++ r) none := by
    refine hrep0.splice hl hr (hag _ _ (by omega)) (hag _ _ (by omega)) fun s t hold => ?_
    obtain ⟨hs, hst, ht⟩ := rep_cons.mp hold
    refine rep_cons.mpr ⟨hs, hst.congr (hag _ _ (by have : headerSize = 16 := rfl; omega))
      (hag _ _ (by omega)), ?_⟩
    rw [next_congr (hag _ _ (by omega))]
    exact rep_nil.mpr (rep_nil.mp ht)
  rw [append_assoc] at hrep
  exact ⟨⟨hrep, hi.heap.layout, hi.heap.top, hi.heap.guarded, hi.heap.mode, hi.heap.rover, hi.heap.unused⟩,
    hi.live, hi.distinct⟩

end Serotonin.Heap
