import Serotonin.Heap.Safety

/-! The heap while the `debug` option of the command line is read: blocks from before it have no guard, and
the allocator lays out the later ones with room for one. -/

namespace Serotonin.Heap
open ByteMem Chain

/-- A call, a store of a caller into its own payload, or the switch to debug mode. -/
inductive Act
  | malloc (requested : UInt32)
  | free (p : Nat)
  | write (p a : Nat) (v : UInt8)
  | debug

/-- Nothing follows a panic, a pointer that is not live or a store outside of its payload. -/
def act (s : System) : Act → Option System
  | .malloc requested =>
    (kernelMalloc s.heap requested.toNat).toOption.map fun r => ⟨r.1, (r.2, requested.toNat) :: s.live⟩
  | .free p =>
    if p ∈ s.live.map Prod.fst then (kernelFree s.heap p).toOption.map fun h => ⟨h, s.live.filter fun x => x.1 != p⟩
    else none
  | .write p a v =>
    if p ∈ s.live.map Prod.fst ∧ p ≤ a ∧ a < p + payloadSize s.heap.mem p then
      some { s with heap := { s.heap with mem := store8 s.heap.mem a v } }
    else none
  | .debug => some { s with heap := { s.heap with debugMode := true } }

/-- The size is one that the heap could have, and in debug mode no block without a guard is split for it. -/
def Act.Clear (s : System) : Act → Prop
  | .malloc requested => requested.toNat ≤ heapSize ∧ ∀ bs, Listed s.heap bs → CutOk s.heap bs (align requested.toNat)
  | _ => True

def ClearStep (s t : System) : Prop := ∃ a : Act, a.Clear s ∧ act s a = some t

theorem MixedInv.init {s : System} (h : Init s) : MixedInv s [] := (Inv.init h).mixed

theorem MixedInv.debug {s : System} {bs : List Block} (hi : MixedInv s bs) :
    MixedInv { s with heap := { s.heap with debugMode := true } } bs :=
  ⟨⟨hi.heap.rep, hi.heap.layout, hi.heap.top, hi.heap.guarded, nofun, hi.heap.rover, hi.heap.unused⟩, hi.live, hi.distinct⟩

theorem ok_of_toOption {α : Type} {x : Result α} {a : α} (h : x.toOption = some a) : x = .ok a := by
  cases x with
  | error e => cases h
  | ok b => exact congrArg _ (Option.some.inj h)

theorem MixedInv.step {s t : System} {bs : List Block} (hi : MixedInv s bs) (h : ClearStep s t) : ∃ bs', MixedInv t bs' := by
  obtain ⟨a, hclear, h⟩ := h
  cases a with
  | malloc requested =>
    obtain ⟨⟨h', p⟩, hr, rfl⟩ := Option.map_eq_some_iff.mp h
    have hcut := hclear.2 bs ⟨hi.heap.rep.links, hi.heap.rep.stored⟩
    obtain ⟨bs', hinv, -⟩ := hi.malloc hclear.1 hcut (ok_of_toOption hr)
    exact ⟨bs', hinv⟩
  | free p =>
    obtain ⟨hp, h⟩ := Option.ite_none_right_eq_some.mp h
    obtain ⟨h', hr, rfl⟩ := Option.map_eq_some_iff.mp h
    obtain ⟨-, -, -, bs', hinv, -⟩ := hi.free hp (ok_of_toOption hr)
    exact ⟨bs', hinv⟩
  | write p a v =>
    obtain ⟨⟨hp, h0, h1⟩, h⟩ := Option.ite_none_right_eq_some.mp h
    obtain rfl := Option.some.inj h
    exact ⟨bs, hi.write hp h0 h1⟩
  | debug =>
    obtain rfl := Option.some.inj h
    exact ⟨bs, hi.debug⟩

theorem MixedInv.reachable {s : System} (h : Run.Reachable Init ClearStep s) : ∃ bs, MixedInv s bs :=
  h.invariant (fun s => ∃ bs, MixedInv s bs) (fun _ hs => ⟨[], .init hs⟩) fun _ _ ⟨_, hi⟩ => hi.step

/-- The headers and the guard words of the listed blocks are in place, every live pointer is a block of
the list, and no check panics. -/
structure Unharmed (s : System) (bs : List Block) : Prop where
  listed : Listed s.heap bs
  disjoint : bs.Pairwise fun a b => a.stop ≤ b.addr
  inside : ∀ b ∈ bs, heapStart ≤ b.addr ∧ b.stop ≤ s.heap.currentHeap
  live : ∀ x ∈ s.live, ∃ b ∈ bs, b.free = false ∧ b.payload = x.1 ∧ x.2 ≤ b.size
  checked : ∀ b ∈ bs, kernelHeapCheckBlock s.heap.mem b.addr = .ok ()
  malloc : ∀ requested e, kernelMalloc s.heap requested = .error e → e = .panic "out of kernel heap memory"
  free : ∀ p ∈ s.live.map Prod.fst, ∀ e, kernelFree s.heap p = .error e → e = .panic "kernel_free: pointer out of heap range"

theorem kernelMalloc_error {h : HeapState} {bs : List Block} (hok : MixedOk h bs) {requested : Nat} {e : Stop}
    (hr : kernelMalloc h requested = .error e) : e = .panic "out of kernel heap memory" := by
  rcases List.eq_nil_or_concat bs with rfl | ⟨l, t, rfl⟩
  · rw [kernelMalloc_first hok] at hr
    exact firstBlock_error hr
  · rw [List.concat_eq_append] at hok
    rw [kernelMalloc_eq hok] at hr
    cases hfit : firstFit (l ++ [t]) h.rover (align requested) with
    | some b =>
      rw [hfit] at hr
      cases hr
    | none =>
      rw [hfit] at hr
      exact appendBlock_error hr

theorem kernelFree_error {h : HeapState} {bs : List Block} (hok : MixedOk h bs) {b : Block} (hb : b ∈ bs)
    (hf : b.free = false) {e : Stop} (hr : kernelFree h b.payload = .error e) :
    e = .panic "kernel_free: pointer out of heap range" := by
  rcases kernelFree_released hok hb hf with ⟨hend, -⟩ | ⟨h', bs', hr', -⟩
  · unfold kernelFree at hr
    rw [hend, if_neg (by decide), if_pos (.inr (Nat.le_refl _))] at hr
    exact (Except.error.inj hr).symm
  · rw [hr'] at hr
    cases hr

theorem MixedInv.unharmed {s : System} {bs : List Block} (hi : MixedInv s bs) : Unharmed s bs where
  listed := ⟨hi.heap.rep.links, hi.heap.rep.stored⟩
  disjoint := hi.heap.layout.pairwise
  inside _ hb := hi.heap.layout.mem hb
  live := hi.live
  checked _ hb := hi.heap.check hb
  malloc _ _ := kernelMalloc_error hi.heap
  free p hp e he := by
    obtain ⟨b, hb, hf, rfl⟩ := hi.block hp
    exact kernelFree_error hi.heap hb hf he

/-- In every run in which no block without a guard is split in debug mode, headers and guards stay in
place across the switch and no check panics. -/
theorem debug_switch_unharmed {s : System} (h : Run.Reachable Init ClearStep s) : ∃ bs, Unharmed s bs :=
  (MixedInv.reachable h).imp fun _ => MixedInv.unharmed

theorem debug_switch_unharmed_boot : ∃ s bs, act ⟨bootHeap false, []⟩ (.malloc 24) = some s ∧
    Unharmed { s with heap := { s.heap with debugMode := true } } bs := by
  have hsome : (act ⟨bootHeap false, []⟩ (.malloc 24)).isSome = true := by decide +kernel
  obtain ⟨s, hs⟩ := Option.isSome_iff_exists.mp hsome
  have hreach : Run.Reachable Init ClearStep s :=
    .step (.start ⟨⟨rfl, rfl, rfl⟩, rfl⟩) ⟨.malloc 24, ⟨by decide, fun _ _ hd => Bool.noConfusion hd⟩, hs⟩
  obtain ⟨bs, hu⟩ := debug_switch_unharmed (hreach.step ⟨.debug, trivial, rfl⟩)
  exact ⟨s, bs, hs, hu⟩

/-- Two blocks without guards. The first is freed, and in debug mode split for a smaller size. -/
def splitRun : List Act := [.malloc 64, .malloc 8, .free (heapStart + 16), .debug, .malloc 8]

/-- The guard of the rest is stored over the header of the second block. -/
theorem not_debug_switch_unharmed :
    ¬∀ s, Run.Reachable Init (fun s t => ∃ a, act s a = some t) s → ∃ bs, Unharmed s bs := by
  intro h
  have hrun : (Run.exec act ⟨bootHeap false, []⟩ splitRun).map
      (fun s => (magic s.heap.mem (heapStart + 80), s.live.map Prod.fst)) =
        some (heapGuard, [heapStart + 16, heapStart + 96]) := by decide +kernel
  obtain ⟨s, hs, hends⟩ := Option.map_eq_some_iff.mp hrun
  obtain ⟨hmagic, hlive⟩ := Prod.mk.inj hends
  have hreach : Run.Reachable Init (fun s t => ∃ a, act s a = some t) s :=
    .exec (fun _ a _ ht => ⟨a, ht⟩) (.start ⟨⟨rfl, rfl, rfl⟩, rfl⟩) hs
  obtain ⟨bs, hu⟩ := h s hreach
  have hmem : heapStart + 96 ∈ s.live.map Prod.fst := by simp [hlive]
  obtain ⟨x, hx, hx1⟩ := List.mem_map.mp hmem
  obtain ⟨b, hb, -, hpay, -⟩ := hu.live x hx
  have haddr : b.addr = heapStart + 80 := Nat.add_right_cancel (hpay.trans hx1 : b.addr + 16 = heapStart + 80 + 16)
  have hheader := (hu.listed.stored b hb).magic
  rw [haddr, hmagic] at hheader
  exact absurd hheader (by decide)

end Serotonin.Heap
