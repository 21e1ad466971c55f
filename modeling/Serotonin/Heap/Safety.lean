import Serotonin.Heap.Guards
import Serotonin.Lib.Run

/-! The allocator together with its callers, and what holds in every state they
reach: the block list is a chain in address order without overlap, the rover
stays on it, and every live payload is a block of its own. -/

namespace Serotonin.Heap
open ByteMem Chain

/-! ## The allocator's invariant -/

/-- Memory and the static variables describe the blocks `bs`. -/
structure HeapOk (h : HeapState) (bs : List Block) : Prop where
  rep : Rep h.mem h.heapList bs none
  layout : Layout heapStart bs h.currentHeap
  top : h.currentHeap ≤ heapEnd
  guards : ∀ b ∈ bs, b.guard = h.debugMode
  rover : ∀ x, h.rover = some x → x ∈ bs.map Block.addr
  unused : bs = [] → h.currentHeap = heapStart

/-- With one mode for all blocks, the heap is sound and no cut goes wrong. -/
theorem HeapOk.mixed {h : HeapState} {bs : List Block} (hok : HeapOk h bs) : MixedOk h bs where
  rep := hok.rep
  layout := hok.layout
  top := hok.top
  guarded := List.pairwise_of_forall_mem_list fun a ha b hb hg => (hok.guards b hb).trans ((hok.guards a ha).symm.trans hg)
  mode hd b hb := (hok.guards b hb).trans hd
  rover := hok.rover
  unused := hok.unused

theorem HeapOk.cutOk {h : HeapState} {bs : List Block} (hok : HeapOk h bs) (want : Nat) : CutOk h bs want := by
  intro hd b hfit hg
  have hb := hok.guards b (firstFit_some hfit).1
  rw [hd, hg] at hb
  cases hb

theorem MixedOk.heapOk {h : HeapState} {bs : List Block} (hok : MixedOk h bs) (hg : ∀ b ∈ bs, b.guard = h.debugMode) :
    HeapOk h bs := ⟨hok.rep, hok.layout, hok.top, hg, hok.rover, hok.unused⟩

/-- The heap at boot: no list yet, and everything above `heap_start` unused. -/
structure Fresh (h : HeapState) : Prop where
  list : h.heapList = none
  rover : h.rover = none
  start : h.currentHeap = heapStart

theorem Fresh.ok {h : HeapState} (hf : Fresh h) : HeapOk h [] := by
  refine ⟨rep_nil.mpr hf.list, ?_, ?_, by simp, ?_, fun _ => hf.start⟩
  · rw [hf.start]; exact Nat.le_refl _
  · rw [hf.start]; decide
  · intro x hx; rw [hf.rover] at hx; cases hx

/-- What a call of `kernelMalloc` that returns `p` does to the blocks. -/
structure Malloced (h : HeapState) (bs : List Block) (requested : Nat) (h' : HeapState) (p : Nat)
    (bs' : List Block) : Prop where
  ok : HeapOk h' bs'
  mode : h'.debugMode = h.debugMode
  block : ∃ b ∈ bs', b.free = false ∧ b.payload = p ∧ requested ≤ b.size
  kept : ∀ c ∈ bs, c.free = false → c ∈ bs' ∧ c.payload ≠ p

theorem Allocated.guards_eq {h h' : HeapState} {bs bs' : List Block} {requested p : Nat}
    (hm : Allocated h bs requested h' p bs') (hg : ∀ b ∈ bs, b.guard = h.debugMode) : ∀ c ∈ bs', c.guard = h'.debugMode := by
  intro c hc
  rw [hm.mode]
  rcases hm.guards c hc with heq | ⟨b, hb, heq⟩
  · exact heq
  · exact heq ▸ hg b hb

theorem Released.guards_eq {h h' : HeapState} {bs bs' : List Block} {b : Block}
    (hm : Released h bs b h' bs') (hg : ∀ b ∈ bs, b.guard = h.debugMode) : ∀ c ∈ bs', c.guard = h'.debugMode := by
  intro c hc
  obtain ⟨d, hd, heq⟩ := hm.guards c hc
  rw [hm.mode, ← heq]
  exact hg d hd

theorem kernelMalloc_spec {h : HeapState} {bs : List Block} {requested : Nat} (hok : HeapOk h bs)
    (hn : requested ≤ heapSize) :
    kernelMalloc h requested = .error (.panic "out of kernel heap memory") ∨
    ∃ h' p bs', kernelMalloc h requested = .ok (h', p) ∧ Malloced h bs requested h' p bs' := by
  refine (kernelMalloc_allocated hok.mixed hn (hok.cutOk _)).imp_right ?_
  rintro ⟨h', p, bs', hr, hm⟩
  exact ⟨h', p, bs', hr, hm.ok.heapOk (hm.guards_eq hok.guards), hm.mode, hm.block, hm.kept⟩

/-- What a call of `kernelFree` on the payload of `b` does to the blocks. -/
structure Freed (h : HeapState) (bs : List Block) (b : Block) (h' : HeapState)
    (bs' : List Block) : Prop where
  ok : HeapOk h' bs'
  mode : h'.debugMode = h.debugMode
  merges : MergesFree bs b bs'

theorem kernelFree_spec {h : HeapState} {bs : List Block} {b : Block} (hok : HeapOk h bs)
    (hb : b ∈ bs) (hf : b.free = false) :
    (b.payload = heapEnd ∧ ∃ msg, kernelFree h b.payload = .error (.panic msg)) ∨
    ∃ h' bs', kernelFree h b.payload = .ok h' ∧ Freed h bs b h' bs' := by
  refine (kernelFree_released hok.mixed hb hf).imp_right ?_
  rintro ⟨h', bs', hr, hm⟩
  exact ⟨h', bs', hr, hm.ok.heapOk (hm.guards_eq hok.guards), hm.mode, hm.merges⟩

/-! ## The allocator and its callers -/

/-- What can happen: an allocation, the release of a live pointer, and a caller
writing a byte of a live payload. A call that panics has no successor. -/
inductive Step : System → System → Prop
  | malloc {s : System} {requested p : Nat} {h : HeapState} :
      requested ≤ heapSize → kernelMalloc s.heap requested = .ok (h, p) →
      Step s ⟨h, (p, requested) :: s.live⟩
  | free {s : System} {p : Nat} {h : HeapState} :
      p ∈ s.live.map Prod.fst → kernelFree s.heap p = .ok h →
      Step s ⟨h, s.live.filter fun x => x.1 != p⟩
  | write {s : System} {p a : Nat} {v : UInt8} :
      p ∈ s.live.map Prod.fst → p ≤ a → a < p + payloadSize s.heap.mem p →
      Step s { s with heap := { s.heap with mem := store8 s.heap.mem a v } }

def Init (s : System) : Prop := Fresh s.heap ∧ s.live = []

abbrev Reachable (s : System) : Prop := Run.Reachable Init Step s

/-- Every live pointer is the payload of a block in use, and no block is live
twice. -/
structure Inv (s : System) (bs : List Block) : Prop where
  heap : HeapOk s.heap bs
  live : ∀ x ∈ s.live, ∃ b ∈ bs, b.free = false ∧ b.payload = x.1 ∧ x.2 ≤ b.size
  distinct : (s.live.map Prod.fst).Nodup

theorem Inv.init {s : System} (h : Init s) : Inv s [] := by
  refine ⟨h.1.ok, ?_, ?_⟩
  · rw [h.2]; simp
  · rw [h.2]; exact List.nodup_nil

theorem Inv.mixed {s : System} {bs : List Block} (h : Inv s bs) : MixedInv s bs := ⟨h.heap.mixed, h.live, h.distinct⟩

theorem Inv.malloc {s : System} {bs : List Block} {requested p : Nat} {h : HeapState}
    (hi : Inv s bs) (hn : requested ≤ heapSize) (hr : kernelMalloc s.heap requested = .ok (h, p)) :
    ∃ bs', Inv ⟨h, (p, requested) :: s.live⟩ bs' := by
  obtain ⟨bs', hinv, hm⟩ := hi.mixed.malloc hn (hi.heap.cutOk _) hr
  exact ⟨bs', hm.ok.heapOk (hm.guards_eq hi.heap.guards), hinv.live, hinv.distinct⟩

theorem Inv.free {s : System} {bs : List Block} {p : Nat} {h : HeapState} (hi : Inv s bs)
    (hp : p ∈ s.live.map Prod.fst) (hr : kernelFree s.heap p = .ok h) :
    ∃ bs', Inv ⟨h, s.live.filter fun x => x.1 != p⟩ bs' := by
  obtain ⟨b, hb, -, bs', hinv, hm⟩ := hi.mixed.free hp hr
  exact ⟨bs', hm.ok.heapOk (hm.guards_eq hi.heap.guards), hinv.live, hinv.distinct⟩

theorem Inv.write {s : System} {bs : List Block} {p a : Nat} {v : UInt8} (hi : Inv s bs)
    (hp : p ∈ s.live.map Prod.fst) (h0 : p ≤ a) (h1 : a < p + Heap.payloadSize s.heap.mem p) :
    Inv { s with heap := { s.heap with mem := store8 s.heap.mem a v } } bs := by
  have hinv := hi.mixed.write (v := v) hp h0 h1
  exact ⟨hinv.heap.heapOk hi.heap.guards, hinv.live, hinv.distinct⟩

theorem Reachable.inv {s : System} (h : Reachable s) : ∃ bs, Inv s bs := by
  refine Run.Reachable.invariant (fun s => ∃ bs, Inv s bs) (fun s hs => ⟨[], .init hs⟩) ?_ h
  rintro s t ⟨bs, hi⟩ hst
  cases hst with
  | malloc hn hr => exact hi.malloc hn hr
  | free hp hr => exact hi.free hp hr
  | write hp h0 h1 => exact ⟨bs, hi.write hp h0 h1⟩

/-- The block list that the allocator's pointers and headers spell out. -/
structure Listed (h : HeapState) (bs : List Block) : Prop where
  chain : IsChain (next h.mem) h.heapList (bs.map Block.addr)
  stored : ∀ b ∈ bs, Stored h.mem b

/-- What callers may rely on in a state with the blocks `bs`. -/
structure Safe (s : System) (bs : List Block) : Prop where
  listed : Listed s.heap bs
  acyclic : (bs.map Block.addr).Nodup
  increasing : (bs.map Block.addr).Pairwise (· < ·)
  disjoint : bs.Pairwise fun a b => a.stop ≤ b.addr
  inside : ∀ b ∈ bs, heapStart ≤ b.addr ∧ b.stop ≤ s.heap.currentHeap
  rover : s.heap.rover = none ∨ ∃ b ∈ bs, s.heap.rover = some b.addr
  live : ∀ x ∈ s.live, x.2 ≤ payloadSize s.heap.mem x.1 ∧
    ∃ b ∈ bs, b.free = false ∧ b.payload = x.1 ∧ b.size = payloadSize s.heap.mem x.1
  apart : s.live.Pairwise fun x y => x.1 + payloadSize s.heap.mem x.1 ≤ y.1 ∨
    y.1 + payloadSize s.heap.mem y.1 ≤ x.1

/-- Two blocks of a layout keep their payloads apart. -/
theorem Layout.payloads {bs : List Block} {b c : Block} {lo hi : Nat} (h : Layout lo bs hi)
    (hb : b ∈ bs) (hc : c ∈ bs) (hne : b ≠ c) :
    b.payload + b.size ≤ c.payload ∨ c.payload + c.size ≤ b.payload := by
  have hle : ∀ x y : Block, x.stop ≤ y.addr → x.payload + x.size ≤ y.payload := fun x y hxy => by
    simp only [Block.stop, Block.payload] at hxy ⊢
    omega
  have hsym : Std.Symm fun x y : Block => x.payload + x.size ≤ y.payload ∨ y.payload + y.size ≤ x.payload :=
    ⟨fun _ _ hxy => hxy.symm⟩
  have hpw : bs.Pairwise fun x y : Block =>
      x.payload + x.size ≤ y.payload ∨ y.payload + y.size ≤ x.payload :=
    h.pairwise.imp fun {x y} hxy => Or.inl (hle x y hxy)
  exact hpw.forall hb hc hne

theorem Inv.safe {s : System} {bs : List Block} (h : Inv s bs) : Safe s bs := by
  have hlay := h.heap.layout
  refine ⟨⟨h.heap.rep.links, h.heap.rep.stored⟩, h.heap.mixed.nodup, ?_, hlay.pairwise,
    fun b hb => hlay.mem hb, ?_, fun x hx => ?_, ?_⟩
  · refine List.pairwise_map.mpr (hlay.pairwise.imp fun {a b} hab => ?_)
    have := a.addr_lt_stop
    have hh : headerSize = 16 := rfl
    omega
  · cases hr : s.heap.rover with
    | none => exact .inl rfl
    | some x =>
      obtain ⟨b, hb, rfl⟩ := List.mem_map.mp (h.heap.rover x hr)
      exact .inr ⟨b, hb, rfl⟩
  · obtain ⟨b, hb, hf, hpay, hsz⟩ := h.live x hx
    have hps := h.mixed.payloadSize hb
    rw [hpay] at hps
    exact ⟨hps ▸ hsz, b, hb, hf, hpay, hps.symm⟩
  · refine (List.pairwise_map.mp h.distinct).imp_of_mem fun {x y} hx hy hne => ?_
    obtain ⟨b, hb, _, hbp, _⟩ := h.live x hx
    obtain ⟨c, hc, _, hcp, _⟩ := h.live y hy
    have hbc : b ≠ c := by rintro rfl; exact hne (hbp.symm.trans hcp)
    rw [← hbp, ← hcp, h.mixed.payloadSize hb, h.mixed.payloadSize hc]
    exact hlay.payloads hb hc hbc

/-- Heap safety over whole runs. In every reachable state the block list is a
finite chain in address order, without overlap and inside the heap, the rover is
on it, and the live payloads are blocks of their own; a release from such a state
merges free neighbours only. No call loops forever. -/
theorem kernelHeap_safe {s : System} (h : Reachable s) :
    (∃ bs, Safe s bs ∧ ∀ p ∈ s.live.map Prod.fst, ∀ h', kernelFree s.heap p = .ok h' →
      ∃ b ∈ bs, b.payload = p ∧ ∃ bs', Listed h' bs' ∧ MergesFree bs b bs') ∧
    (∀ requested, requested ≤ heapSize → kernelMalloc s.heap requested ≠ .error .hang) ∧
    ∀ p ∈ s.live.map Prod.fst, kernelFree s.heap p ≠ .error .hang := by
  obtain ⟨bs, hi⟩ := h.inv
  refine ⟨⟨bs, hi.safe, fun p hp h' hr => ?_⟩, fun n hn he => ?_, fun p hp he => ?_⟩
  · obtain ⟨b, hb, hf, rfl⟩ := hi.mixed.block hp
    rcases kernelFree_spec hi.heap hb hf with ⟨_, _, hr'⟩ | ⟨h'', bs', hr', hfr⟩
    · rw [hr'] at hr; cases hr
    · rw [hr'] at hr
      cases hr
      exact ⟨b, hb, rfl, bs', ⟨hfr.ok.rep.links, hfr.ok.rep.stored⟩, hfr.merges⟩
  · rcases kernelMalloc_spec hi.heap hn with hr | ⟨_, _, _, hr, _⟩ <;> rw [hr] at he <;> cases he
  · obtain ⟨b, hb, hf, rfl⟩ := hi.mixed.block hp
    rcases kernelFree_spec hi.heap hb hf with ⟨_, _, hr⟩ | ⟨_, _, hr, _⟩ <;> rw [hr] at he <;> cases he

/-- A heap that no call has touched. -/
def bootHeap (debugMode : Bool) : HeapState := ⟨fun _ => 0, none, none, heapStart, debugMode⟩

theorem kernelHeap_safe_boot :
    ∃ h p, kernelMalloc (bootHeap true) 24 = .ok (h, p) ∧ ∃ bs, Safe ⟨h, [(p, 24)]⟩ bs := by
  refine ⟨_, _, rfl, ?_⟩
  obtain ⟨⟨bs, hs, _⟩, _⟩ := kernelHeap_safe
    (.step (.start (s := ⟨bootHeap true, []⟩) ⟨⟨rfl, rfl, rfl⟩, rfl⟩)
      (.malloc (show 24 ≤ heapSize by decide) rfl))
  exact ⟨bs, hs⟩

end Serotonin.Heap
