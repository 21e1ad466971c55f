import Serotonin.PtyTable.Model

/-! The counts of a terminal and the handles open on its sides. Closing a slave always drops
a count, but opening it by its name adds none; as long as no slave is opened by name the
counts are right, and a slot is given back exactly when nothing is open on it. -/

namespace Serotonin.PtyTable

open Function List
open Files (Tid HandleId fdMax)
open Handles (initPid slots mem_slots slots_nodup refs_slots_cons)
open RefCount

/-- How many descriptors lead to the handle. -/
def System.holders (s : System) (h : HandleId) : Nat := refs (slots s.tids) s.fdTable h

def System.sideOf (s : System) (h : HandleId) : Option (Nat × Side) := (s.handle h).side

/-- How many handles are open on the side. -/
def System.openers (s : System) (q : Nat) (side : Side) : Nat := refs s.handles s.sideOf (q, side)

/-- The kernel's own reference to a terminal that it keeps. -/
def Pty.own (p : Pty) : Side → Nat
  | .slave => if p.kernelVty then 1 else 0
  | .master => 0

/-- A taken slot has the counts `c`, and something refers to it; nothing refers to a free
slot. -/
structure PtyOk (p : Pty) (c : Side → Nat) : Prop where
  counts : p.allocated → ∀ side, p.refcount side = p.own side + c side
  taken : p.allocated → p.kernelVty = false → ∃ side, 0 < c side
  free : p.allocated = false → p.kernelVty = false ∧ ∀ side, c side = 0

/-- `pend` are the sides that a call in progress refers to without a handle. -/
structure Inv (s : System) (pend : List (Nat × Side)) : Prop where
  tids : s.tids.Nodup
  handles : s.handles.Nodup
  count : ∀ h ∈ s.handles, (s.handle h).refcount = s.holders h
  held : ∀ h, h ∈ s.handles ↔ 0 < s.holders h
  kernel : ∀ q, (s.pty q).kernelVty = true ↔ q < numKernelVtys
  pty : ∀ q, PtyOk (s.pty q) fun side => s.openers q side + pend.count (q, side)

variable {s s' : System} {pend : List (Nat × Side)} {t : Tid} {h : HandleId} {q fd : Nat} {x : Handle}

/-! ## Slots -/

namespace PtyOk

variable {p : Pty} {c c' : Side → Nat} {side : Side}

theorem allocated (hp : PtyOk p c) (hc : 0 < c side) : p.allocated = true := by
  by_contra ha
  have := (hp.free (by simpa using ha)).2 side
  omega

/-- Closing takes one reference away, and frees the slot with the last. -/
theorem close (hp : PtyOk p c) (hs : c side = c' side + 1) (ho : ∀ side', side' ≠ side → c side' = c' side') :
    PtyOk (p.close side) c' := by
  have ha : p.allocated = true := hp.allocated (show 0 < c side by omega)
  have hcounts := hp.counts ha
  have hslave := hcounts .slave
  have hmaster := hcounts .master
  simp only [Pty.refcount, Pty.own] at hslave hmaster
  have hdrop : ∀ side', (p.drop side).refcount side' = p.own side' + c' side' := by
    intro side'
    have hc := hcounts side'
    by_cases he : side' = side
    · subst he
      cases side' <;> simp only [Pty.refcount, Pty.drop] at hc ⊢ <;> omega
    · rw [ho side' he] at hc
      cases side <;> cases side' <;> first | exact absurd rfl he | exact hc
  have hkeep : (p.drop side).allocated = p.allocated ∧ (p.drop side).kernelVty = p.kernelVty := by
    cases side <;> exact ⟨rfl, rfl⟩
  have hown : ∀ side', (p.drop side).own side' = p.own side' := by
    intro side'
    cases side' <;> simp only [Pty.own, hkeep.2]
  have hds := hdrop .slave
  have hdm := hdrop .master
  simp only [Pty.refcount, Pty.own] at hds hdm
  show PtyOk (if _ ∧ _ then (p.drop side).free else p.drop side) c'
  split
  · next hzero =>
    -- Both counts are zero, so the kernel does not hold it and no handle does.
    have hk : p.kernelVty = false := by
      by_contra hk
      simp only [Bool.not_eq_false] at hk
      simp only [hk, if_true] at hds
      omega
    have hfree : (p.drop side).free = { p.drop side with allocated := false, kernelVty := false } := by
      simp [Pty.free, hkeep.1, hkeep.2, ha, hk]
    rw [hfree]
    refine ⟨fun hf => absurd hf Bool.false_ne_true, fun hf => absurd hf Bool.false_ne_true, fun _ => ⟨rfl, fun side' => ?_⟩⟩
    cases side' <;> omega
  · next hzero =>
    refine ⟨fun _ side' => (hdrop side').trans (by rw [hown]), fun _ hk => ?_, fun hf => ?_⟩
    · rw [hkeep.2] at hk
      simp only [hk, Bool.false_eq_true, if_false] at hds
      by_contra hnone
      have hn : ∀ side', c' side' = 0 := fun side' => Nat.eq_zero_of_not_pos fun hpos => hnone ⟨side', hpos⟩
      have := hn .slave
      have := hn .master
      exact hzero ⟨by omega, by omega⟩
    · rw [hkeep.1, ha] at hf
      exact absurd hf.symm Bool.false_ne_true

end PtyOk

theorem Pty.close_kernelVty (p : Pty) (side : Side) : (p.close side).kernelVty = p.kernelVty := by
  have hkeep : (p.drop side).kernelVty = p.kernelVty := by cases side <;> rfl
  show (if _ ∧ _ then (p.drop side).free else p.drop side).kernelVty = _
  split
  · unfold Pty.free
    split
    · exact hkeep
    · split
      · exact hkeep
      · next hk => exact (Bool.eq_false_iff.mpr hk).symm.trans hkeep
  · exact hkeep

namespace Inv

theorem ret (hi : Inv s pend) (t : Tid) (v : Int) : Inv (s.ret t v) pend :=
  ⟨hi.tids, hi.handles, hi.count, hi.held, hi.kernel, hi.pty⟩

/-- One slot changes, with what a call in progress refers to. -/
theorem setPty (hi : Inv s pend) {p : Pty} {pend' : List (Nat × Side)} (hk : p.kernelVty = (s.pty q).kernelVty)
    (hp : ∀ q', q' ≠ q → ∀ side, pend.count (q', side) = pend'.count (q', side))
    (hok : PtyOk p fun side => s.openers q side + pend'.count (q, side)) : Inv (s.setPty q p) pend' := by
  refine { hi with kernel := fun q' => ?_, pty := fun q' => ?_ }
  · by_cases hq : q' = q
    · subst hq
      simpa [System.setPty, hk] using hi.kernel q'
    · simpa [System.setPty, hq] using hi.kernel q'
  · show PtyOk (update s.pty q p q') fun side => s.openers q' side + pend'.count (q', side)
    by_cases hq : q' = q
    · subst hq
      simpa using hok
    · rw [update_of_ne hq]
      simpa only [hp q' hq] using hi.pty q'

theorem vfsClose {n : Option Node} (hi : Inv s ((n.bind Node.side).toList ++ pend)) : Inv (vfsClose s n) pend := by
  unfold PtyTable.vfsClose
  cases hn : n.bind Node.side with
  | none => simpa [hn] using hi
  | some p =>
    obtain ⟨q, side⟩ := p
    rw [hn] at hi
    have hcons : ∀ r : Nat × Side, ((some (q, side)).toList ++ pend).count r = pend.count r + if (q, side) = r then 1 else 0 :=
      fun r => by
        show ((q, side) :: pend).count r = _
        rw [count_cons]
        simp only [beq_iff_eq]
    refine hi.setPty (Pty.close_kernelVty _ _) (fun q' hq side' => ?_) ?_
    · rw [hcons, if_neg fun e => hq (congrArg Prod.fst e).symm, Nat.add_zero]
    · refine (hi.pty q).close ?_ fun side' hs => ?_
      · rw [hcons, if_pos rfl, ← Nat.add_assoc]
      · rw [hcons, if_neg fun e => hs (congrArg Prod.snd e).symm, Nat.add_zero]

/-! ## Descriptors -/

theorem mem_handles (hi : Inv s pend) (ht : t ∈ s.tids) (hfd : fd < fdMax) (hs : s.fdTable (t, fd) = some h) :
    h ∈ s.handles := (hi.held h).mpr (refs_pos.mpr ⟨(t, fd), mem_slots.mpr ⟨ht, hfd⟩, hs⟩)

/-- One descriptor changes: as many more lead to each handle as it leads to now, as many
fewer as it led to. -/
theorem holders_setFd (hi : Inv s pend) (ht : t ∈ s.tids) (hfd : fd < fdMax) (o : Option HandleId) (k : HandleId) :
    (s.setFd t fd o).holders k + (if s.fdTable (t, fd) = some k then 1 else 0) =
      s.holders k + if o = some k then 1 else 0 :=
  refs_update (slots_nodup hi.tids) (mem_slots.mpr ⟨ht, hfd⟩) o k

end Inv

theorem allocFd_eq {p : Nat × System} (he : allocFd s t h x = some p) :
    p.1 < fdMax ∧ s.fdTable (t, p.1) = none ∧
      p.2 = { (s.setFd t p.1 (some h)).setHandle h { x with refcount := x.refcount + 1 } with
        handles := h :: s.handles } := by
  unfold allocFd at he
  cases hfind : (List.range fdMax).find? fun i => (s.fdTable (t, i)).isNone with
  | none => simp [hfind] at he
  | some i =>
    rw [hfind] at he
    obtain rfl := Option.some.inj he
    exact ⟨mem_range.mp (mem_of_find?_eq_some hfind), by simpa using List.find?_some hfind, rfl⟩

namespace Inv

/-- The handles that are there stay as they are when a new one is filled in. -/
theorem sideOf_other (s : System) (x : Handle) {hs : List HandleId} (hk : h ∉ hs) :
    ∀ k ∈ hs, (s.setHandle h x).sideOf k = s.sideOf k :=
  fun k hm => by
    have hne : k ≠ h := fun e => hk (e ▸ hm)
    simp [System.sideOf, System.setHandle, hne]

theorem allocFd {p : Nat × System} (hi : Inv s (x.side.toList ++ pend)) (ht : t ∈ s.tids) (hh : h ∉ s.handles)
    (hx : x.refcount = 0) (he : allocFd s t h x = some p) : Inv p.2 pend := by
  obtain ⟨fd, s'⟩ := p
  obtain ⟨hfd, hfree, hs⟩ := allocFd_eq he
  simp only at hfd hfree hs
  subst hs
  have hzero : s.holders h = 0 := Nat.eq_zero_of_not_pos fun hc => hh ((hi.held h).mpr hc)
  have hhold : ∀ k, (s.setFd t fd (some h)).holders k = s.holders k + if h = k then 1 else 0 := by
    intro k
    simpa [hfree] using hi.holders_setFd ht hfd (some h) k
  refine ⟨hi.tids, nodup_cons.mpr ⟨hh, hi.handles⟩, fun k hk => ?_, fun k => ?_, hi.kernel, fun q => ?_⟩
  · show (update s.handle h _ k).refcount = (s.setFd t fd (some h)).holders k
    rw [hhold]
    by_cases hkh : k = h
    · subst hkh
      simp [hx, hzero]
    · rw [update_of_ne hkh, if_neg (Ne.symm hkh), Nat.add_zero]
      exact hi.count k ((mem_cons.mp hk).resolve_left hkh)
  · show k ∈ h :: s.handles ↔ 0 < (s.setFd t fd (some h)).holders k
    rw [hhold, mem_cons, hi.held k]
    by_cases hkh : k = h
    · simp [hkh]
    · simp [hkh, Ne.symm hkh]
  · have hopen : ∀ side, refs (h :: s.handles) (s.setHandle h { x with refcount := x.refcount + 1 }).sideOf (q, side) =
        s.openers q side + if x.side = some (q, side) then 1 else 0 := by
      intro side
      rw [refs_cons, refs_congr (sideOf_other s _ hh)]
      congr 2
      simp [System.sideOf, System.setHandle, Handle.side]
    have hcount : ∀ side, (x.side.toList ++ pend).count (q, side) =
        (if x.side = some (q, side) then 1 else 0) + pend.count (q, side) := by
      intro side
      rw [count_append]
      cases x.side with
      | none => rfl
      | some r => simp [count_singleton]
    have hp := hi.pty q
    simp only [hcount, ← Nat.add_assoc, ← hopen] at hp
    exact hp

/-- One more descriptor for a handle that is there. -/
theorem share (hi : Inv s pend) (ht : t ∈ s.tids) (hfd : fd < fdMax) (hfree : s.fdTable (t, fd) = none)
    (hh : h ∈ s.handles) : Inv (share s t fd h) pend := by
  have hhold : ∀ k, (s.setFd t fd (some h)).holders k = s.holders k + if h = k then 1 else 0 := by
    intro k
    simpa [hfree] using hi.holders_setFd ht hfd (some h) k
  refine ⟨hi.tids, hi.handles, fun k hk => ?_, fun k => ?_, hi.kernel, fun q => ?_⟩
  · show (update s.handle h _ k).refcount = (s.setFd t fd (some h)).holders k
    rw [hhold]
    by_cases hkh : k = h
    · subst hkh
      rw [update_self, if_pos rfl]
      exact congrArg (· + 1) (hi.count k hk)
    · rw [update_of_ne hkh, if_neg (Ne.symm hkh), Nat.add_zero]
      exact hi.count k hk
  · show k ∈ s.handles ↔ 0 < (s.setFd t fd (some h)).holders k
    rw [hhold]
    by_cases hkh : k = h
    · subst hkh
      simp [hh]
    · rw [if_neg (Ne.symm hkh), Nat.add_zero]
      exact hi.held k
  · have hsame : ∀ k ∈ s.handles, (PtyTable.share s t fd h).sideOf k = s.sideOf k := by
      intro k _
      by_cases hkh : k = h
      · subst hkh
        simp [System.sideOf, PtyTable.share, System.setHandle, System.setFd, Handle.side]
      · simp [System.sideOf, PtyTable.share, System.setHandle, System.setFd, hkh]
    have hopen : ∀ side, (PtyTable.share s t fd h).openers q side = s.openers q side := fun side =>
      refs_congr hsame (q, side)
    simp only [hopen]
    exact hi.pty q

end Inv

/-! ## Closing -/

theorem vfsClose_fields (s : System) (n : Option Node) :
    (vfsClose s n).tids = s.tids ∧ (vfsClose s n).fdTable = s.fdTable := by
  unfold vfsClose
  cases n.bind Node.side <;> exact ⟨rfl, rfl⟩

theorem vfsClose_openers (s : System) (n : Option Node) (q : Nat) (side : Side) :
    (vfsClose s n).openers q side = s.openers q side := by
  unfold vfsClose
  cases n.bind Node.side <;> rfl

/-- The last descriptor of a handle: the handle is freed, and its side is closed. -/
theorem closeFd_last (hfd : fd < fdMax) (hs : s.fdTable (t, fd) = some h) (hone : (s.handle h).refcount - 1 = 0) :
    closeFd s t fd = vfsClose { (s.setHandle h { s.handle h with refcount := (s.handle h).refcount - 1 }).setFd t fd none with
      handles := s.handles.erase h } (s.handle h).node := by
  unfold closeFd
  rw [if_neg (Nat.not_le.mpr hfd), hs]
  simp only
  rw [if_pos hone]
  unfold vfsClose
  cases (s.handle h).node.bind Node.side <;> rfl

/-- A descriptor that was closed: only it leads elsewhere, and no task comes or goes. -/
structure Closed (t : Tid) (fd : Nat) (s s' : System) : Prop where
  tids : s'.tids = s.tids
  fdTable : fd < fdMax → s'.fdTable = update s.fdTable (t, fd) none

theorem closeFd_closed (s : System) (t : Tid) (fd : Nat) : Closed t fd s (closeFd s t fd) := by
  unfold closeFd
  split
  · next hge => exact ⟨rfl, fun hlt => absurd hlt (Nat.not_lt.mpr hge)⟩
  · cases hs : s.fdTable (t, fd) with
    | none =>
      have hself := update_eq_self (t, fd) s.fdTable
      rw [hs] at hself
      exact ⟨rfl, fun _ => hself.symm⟩
    | some h =>
      simp only
      split
      · obtain ⟨htids, htable⟩ := vfsClose_fields
          (s.setHandle h { s.handle h with refcount := (s.handle h).refcount - 1 }) (s.handle h).node
        exact ⟨htids, fun _ => congrArg (fun f : Tid × Nat → Option HandleId => update f (t, fd) none) htable⟩
      · exact ⟨rfl, fun _ => rfl⟩

namespace Inv

/-- A handle whose last descriptor goes is freed; its side remains to be closed. -/
theorem freeHandle (hi : Inv s pend) (ht : t ∈ s.tids) (hfd : fd < fdMax) (hs : s.fdTable (t, fd) = some h)
    (hone : (s.handle h).refcount = 1) (y : Handle) :
    Inv { (s.setHandle h y).setFd t fd none with handles := s.handles.erase h } ((s.handle h).side.toList ++ pend) := by
  have hmem := hi.mem_handles ht hfd hs
  have hhold : ∀ k, (s.setFd t fd none).holders k + (if h = k then 1 else 0) = s.holders k := by
    intro k
    simpa [hs] using hi.holders_setFd ht hfd none k
  have hzero : (s.setFd t fd none).holders h = 0 := by
    have := hhold h
    rw [if_pos rfl, ← hi.count h hmem, hone] at this
    omega
  have hne : ∀ k, k ≠ h → (s.setFd t fd none).holders k = s.holders k := fun k hk => by
    simpa [Ne.symm hk] using hhold k
  refine ⟨hi.tids, hi.handles.erase h, fun k hk => ?_, fun k => ?_, hi.kernel, fun q => ?_⟩
  · obtain ⟨hkh, hk⟩ := hi.handles.mem_erase_iff.mp hk
    show (update s.handle h y k).refcount = (s.setFd t fd none).holders k
    rw [update_of_ne hkh, hne k hkh]
    exact hi.count k hk
  · show k ∈ s.handles.erase h ↔ 0 < (s.setFd t fd none).holders k
    rw [hi.handles.mem_erase_iff]
    by_cases hkh : k = h
    · subst hkh
      simp [hzero]
    · rw [hne k hkh, hi.held k]
      simp [hkh]
  · have hopen : ∀ side, refs (s.handles.erase h) (s.setHandle h y).sideOf (q, side) +
        (if (s.handle h).side = some (q, side) then 1 else 0) = s.openers q side := by
      intro side
      have hsplit := refs_erase hmem s.sideOf (q, side)
      rw [refs_congr (sideOf_other s y fun hm => (hi.handles.mem_erase_iff.mp hm).1 rfl)]
      exact hsplit.symm
    have hcount : ∀ side, ((s.handle h).side.toList ++ pend).count (q, side) =
        (if (s.handle h).side = some (q, side) then 1 else 0) + pend.count (q, side) := by
      intro side
      rw [count_append]
      cases (s.handle h).side with
      | none => rfl
      | some r => simp [count_singleton]
    have hp := hi.pty q
    simp only [← hopen, Nat.add_assoc, ← hcount] at hp
    exact hp

/-- A handle that other descriptors lead to stays. -/
theorem dropHandle (hi : Inv s pend) (ht : t ∈ s.tids) (hfd : fd < fdMax) (hs : s.fdTable (t, fd) = some h)
    (hmore : (s.handle h).refcount ≠ 1) :
    Inv ((s.setHandle h { s.handle h with refcount := (s.handle h).refcount - 1 }).setFd t fd none) pend := by
  have hmem := hi.mem_handles ht hfd hs
  have hhold : ∀ k, (s.setFd t fd none).holders k + (if h = k then 1 else 0) = s.holders k := by
    intro k
    simpa [hs] using hi.holders_setFd ht hfd none k
  have hh := hhold h
  rw [if_pos rfl, ← hi.count h hmem] at hh
  refine ⟨hi.tids, hi.handles, fun k hk => ?_, fun k => ?_, hi.kernel, fun q => ?_⟩
  · show (update s.handle h _ k).refcount = (s.setFd t fd none).holders k
    by_cases hkh : k = h
    · subst hkh
      rw [update_self, ← hh]
      rfl
    · rw [update_of_ne hkh, hi.count k hk, ← hhold k, if_neg (Ne.symm hkh), Nat.add_zero]
  · show k ∈ s.handles ↔ 0 < (s.setFd t fd none).holders k
    by_cases hkh : k = h
    · subst hkh
      simp only [hmem, true_iff]
      omega
    · rw [hi.held k, ← hhold k, if_neg (Ne.symm hkh), Nat.add_zero]
  · have hsame : ∀ y : Handle, y.side = (s.handle h).side → ∀ k ∈ s.handles, (s.setHandle h y).sideOf k = s.sideOf k := by
      intro y hy k _
      by_cases hkh : k = h
      · subst hkh
        simpa [System.sideOf, System.setHandle] using hy
      · simp [System.sideOf, System.setHandle, hkh]
    have hopen : ∀ side, refs s.handles
        (s.setHandle h { s.handle h with refcount := (s.handle h).refcount - 1 }).sideOf (q, side) = s.openers q side :=
      fun side => refs_congr (hsame { s.handle h with refcount := (s.handle h).refcount - 1 } rfl) (q, side)
    have hp := hi.pty q
    simp only [← hopen] at hp
    exact hp

theorem closeFd (hi : Inv s pend) (ht : t ∈ s.tids) (fd : Nat) : Inv (closeFd s t fd) pend := by
  by_cases hfd : fd < fdMax
  · cases hs : s.fdTable (t, fd) with
    | none =>
      unfold PtyTable.closeFd
      rw [if_neg (Nat.not_le.mpr hfd), hs]
      exact hi
    | some h =>
      have hmem := hi.mem_handles ht hfd hs
      have hpos : 0 < (s.handle h).refcount := by
        rw [hi.count h hmem]
        exact (hi.held h).mp hmem
      by_cases hone : (s.handle h).refcount - 1 = 0
      · rw [closeFd_last hfd hs hone]
        exact (hi.freeHandle ht hfd hs (by omega) _).vfsClose
      · have hdrop := hi.dropHandle ht hfd hs (by omega)
        unfold PtyTable.closeFd
        rw [if_neg (Nat.not_le.mpr hfd), hs]
        simp only
        rw [if_neg hone]
        exact hdrop
  · unfold PtyTable.closeFd
    rw [if_pos (Nat.not_lt.mp hfd)]
    exact hi

end Inv

/-! ## Taking and giving back a slot -/

theorem ptyAlloc_eq {r : AllocInput} {p : Nat × System} (he : ptyAlloc s r = some p) :
    numKernelVtys ≤ p.1 ∧ p.1 < ptyMax ∧ (s.pty p.1).allocated = false ∧ ∃ f, p.2 = { s.setPty p.1
      { allocated := true
        kernelVty := false
        slaveNode := if r.slaveNode then some (.slave p.1) else none
        masterNode := if r.masterNode then some (.master p.1) else none
        slaveRefcount := 1
        masterRefcount := 1 } with registered := f } := by
  unfold ptyAlloc at he
  cases hfind : (List.range' numKernelVtys (ptyMax - numKernelVtys)).find? fun q => !(s.pty q).allocated with
  | none => simp [hfind] at he
  | some q =>
    rw [hfind] at he
    obtain rfl := Option.some.inj he
    have hmem := mem_of_find?_eq_some hfind
    rw [List.mem_range'_1] at hmem
    have hmax : numKernelVtys + (ptyMax - numKernelVtys) = ptyMax := rfl
    exact ⟨hmem.1, hmax ▸ hmem.2, by simpa using List.find?_some hfind, _, rfl⟩

namespace Inv

/-- Nothing is open on a slot that is taken. -/
theorem ptyAlloc {r : AllocInput} {p : Nat × System} (hi : Inv s []) (he : ptyAlloc s r = some p) :
    Inv p.2 [(p.1, .master), (p.1, .slave)] ∧ (∀ side, p.2.openers p.1 side = 0) := by
  obtain ⟨q, s'⟩ := p
  obtain ⟨hge, -, hfree, f, hs⟩ := ptyAlloc_eq he
  simp only at hge hfree hs
  subst hs
  obtain ⟨hk, hzero⟩ := (hi.pty q).free hfree
  have hopen : ∀ side, s.openers q side = 0 := fun side => by simpa using hzero side
  refine ⟨?_, hopen⟩
  have hset : Inv (s.setPty q _) [(q, .master), (q, .slave)] := hi.setPty (q := q)
    (p := ⟨true, false, if r.slaveNode then some (.slave q) else none, if r.masterNode then some (.master q) else none, 1, 1⟩)
    hk.symm (fun q' hq side => ?_) ⟨fun _ side => ?_, fun _ _ => ⟨.slave, ?_⟩, fun hf => absurd hf.symm Bool.false_ne_true⟩
  · exact ⟨hset.tids, hset.handles, hset.count, hset.held, hset.kernel, hset.pty⟩
  · simp [Ne.symm hq]
  · rw [hopen]
    cases side <;> simp [Pty.refcount, Pty.own]
  · simp

/-- `pty_free` outside a close: only the call refers to the slot. -/
theorem ptyFree (hi : Inv s pend) (hq : numKernelVtys ≤ q) (ho : ∀ side, s.openers q side = 0)
    (hp : ∀ p ∈ pend, p.1 = q) : Inv (ptyFree s q) [] := by
  have hk : (s.pty q).kernelVty = false := Bool.eq_false_iff.mpr fun hk => by
    have := (hi.kernel q).mp hk
    omega
  have hzero : ∀ side, s.openers q side + ([] : List (Nat × Side)).count (q, side) = 0 := fun side => by
    rw [ho, count_nil]
  have hfree : (s.pty q).free.allocated = false ∧ (s.pty q).free.kernelVty = false := by
    unfold Pty.free
    split
    · exact ⟨‹_›, hk⟩
    · simp [hk]
  refine hi.setPty (hfree.2.trans hk.symm) (fun q' hne side => ?_) ⟨fun ha => ?_, fun ha => ?_, fun _ => ⟨hfree.2, hzero⟩⟩
  · rw [count_nil, count_eq_zero]
    exact fun hm => hne (hp _ hm)
  · rw [hfree.1] at ha
    exact absurd ha Bool.false_ne_true
  · rw [hfree.1] at ha
    exact absurd ha Bool.false_ne_true

end Inv

/-- A new handle that is closed at once leaves the others as they were. -/
theorem openers_allocFd_closeFd (hh : h ∉ s.handles) (hx : x.refcount = 0) (he : allocFd s t h x = some (fd, s'))
    (q : Nat) (side : Side) : (closeFd s' t fd).openers q side = s.openers q side := by
  obtain ⟨hfd, -, hs⟩ := allocFd_eq he
  simp only at hfd hs
  subst hs
  have htable : update s.fdTable (t, fd) (some h) (t, fd) = some h := update_self ..
  have hone : (update s.handle h { x with refcount := x.refcount + 1 } h).refcount - 1 = 0 := by
    rw [update_self]
    exact hx
  rw [closeFd_last hfd htable hone, vfsClose_openers]
  show refs ((h :: s.handles).erase h) _ _ = _
  rw [erase_cons_head]
  refine refs_congr (fun k hk => ?_) _
  have hne : k ≠ h := fun e => hh (e ▸ hk)
  show (update (update s.handle h _) h _ k).side = (s.handle k).side
  rw [update_of_ne hne, update_of_ne hne]

/-! ## Calls -/

namespace Inv

theorem sysPtyOpen {r : PtyOpenInput} (hi : Inv s []) (ht : t ∈ s.tids) (hslave : r.alloc.slaveNode)
    (hmaster : r.alloc.masterNode) (hf : ∀ p ∈ r.malloc, p.1 ∉ s.handles ∧ p.2 ∉ s.handles ∧ p.1 ≠ p.2) :
    Inv (sysPtyOpen s t r) [] := by
  unfold PtyTable.sysPtyOpen
  split
  · exact hi.ret t _
  · cases ha : PtyTable.ptyAlloc s r.alloc with
    | none => exact hi.ret t _
    | some p =>
      obtain ⟨hi₁, hopen⟩ := hi.ptyAlloc ha
      obtain ⟨q, s₁⟩ := p
      obtain ⟨hge, -, -, f, hs₁⟩ := ptyAlloc_eq ha
      simp only at hi₁ hopen hge hs₁ ⊢
      have hnodes : (s₁.pty q).masterNode = some (.master q) ∧ (s₁.pty q).slaveNode = some (.slave q) := by
        simp [hs₁, System.setPty, hslave, hmaster]
      have htids : s₁.tids = s.tids := by rw [hs₁]; rfl
      have hhandles : s₁.handles = s.handles := by rw [hs₁]; rfl
      have hfree := (hi₁.ptyFree hge hopen (by simp)).ret t
      cases hm : r.malloc with
      | none => exact hfree _
      | some p =>
        obtain ⟨m, l⟩ := p
        obtain ⟨hm', hl', hml⟩ : m ∉ s.handles ∧ l ∉ s.handles ∧ m ≠ l := hf (m, l) hm
        simp only
        rw [hnodes.1]
        cases ham : PtyTable.allocFd s₁ t m ⟨some (.master q), Files.oRdwr, 0⟩ with
        | none => exact hfree _
        | some p =>
          obtain ⟨masterFd, s₂⟩ := p
          have hi₂ : Inv s₂ [(q, .slave)] := Inv.allocFd (x := ⟨some (.master q), Files.oRdwr, 0⟩) hi₁ (htids ▸ ht) (hhandles ▸ hm') rfl ham
          have hs₂ := (allocFd_eq ham).2.2
          simp only at hs₂ ⊢
          have hpty : s₂.pty = s₁.pty := by rw [hs₂]; rfl
          have ht₂ : t ∈ s₂.tids := by
            rw [hs₂]
            exact htids ▸ ht
          have hl₂ : l ∉ s₂.handles := by
            rw [hs₂]
            exact fun hmem => (mem_cons.mp hmem).elim (Ne.symm hml) (hhandles ▸ hl')
          rw [hpty, hnodes.2]
          cases hal : PtyTable.allocFd s₂ t l ⟨some (.slave q), Files.oRdwr, 0⟩ with
          | none =>
            -- The master's handle is gone again, so only the call refers to the slot.
            have hzero : ∀ side, (PtyTable.closeFd s₂ t masterFd).openers q side = 0 := fun side => by
              rw [openers_allocFd_closeFd (hhandles ▸ hm') rfl ham, hopen side]
            exact ((hi₂.closeFd ht₂ masterFd).ptyFree hge hzero (by simp)).ret t _
          | some p =>
            obtain ⟨slaveFd, s₃⟩ := p
            have hi₃ : Inv s₃ [] := Inv.allocFd (x := ⟨some (.slave q), Files.oRdwr, 0⟩) hi₂ ht₂ hl₂ rfl hal
            have ht₃ : t ∈ s₃.tids := by
              have hs₃ := (allocFd_eq hal).2.2
              simp only at hs₃
              rw [hs₃]
              exact ht₂
            simp only
            split
            · exact hi₃.ret t _
            · have hc := closeFd_closed s₃ t masterFd
              exact ((hi₃.closeFd ht₃ masterFd).closeFd (hc.tids ▸ ht₃) slaveFd).ret t _

theorem sysOpenOther {flags : BitVec 32} (hi : Inv s []) (ht : t ∈ s.tids) (hh : h ∉ s.handles) :
    Inv (sysOpenOther s t flags h) [] := by
  unfold PtyTable.sysOpenOther
  cases ha : PtyTable.allocFd s t h ⟨some .other, flags, 0⟩ with
  | none => exact hi.ret t _
  | some p => exact (Inv.allocFd (x := ⟨some .other, flags, 0⟩) hi ht hh rfl ha).ret t _

theorem sysClose {fd : Int} (hi : Inv s []) (ht : t ∈ s.tids) (wordBefore : Bool) :
    Inv (sysClose s t fd wordBefore) [] := by
  unfold PtyTable.sysClose
  split
  · split
    · exact hi
    · exact hi.ret t _
  · split
    · exact hi.ret t _
    · exact hi.closeFd ht _

theorem sysDup {oldfd newfd : Int} (hi : Inv s []) (ht : t ∈ s.tids) : Inv (sysDup s t oldfd newfd) [] := by
  unfold PtyTable.sysDup
  split
  · exact hi.ret t _
  · next hold =>
    have hold' : oldfd.toNat < fdMax := by omega
    cases hs : s.fdTable (t, oldfd.toNat) with
    | none => exact hi.ret t _
    | some h =>
      simp only
      split
      · cases hfind : (List.range fdMax).find? fun i => (s.fdTable (t, i)).isNone with
        | none => exact hi.ret t _
        | some i =>
          have hlt := mem_range.mp (mem_of_find?_eq_some hfind)
          have hfree : s.fdTable (t, i) = none := by simpa using List.find?_some hfind
          exact (hi.share ht hlt hfree (hi.mem_handles ht hold' hs)).ret t _
      · split
        · exact hi.ret t _
        · split
          · exact hi.ret t _
          · next hneg hmax hne =>
            have hnew : newfd.toNat < fdMax := by omega
            have hc := closeFd_closed s t newfd.toNat
            have hi₁ := hi.closeFd ht newfd.toNat
            have ht₁ : t ∈ (PtyTable.closeFd s t newfd.toNat).tids := hc.tids ▸ ht
            have hdiff : ((t, oldfd.toNat) : Tid × Nat) ≠ (t, newfd.toNat) := fun e => by
              have : oldfd.toNat = newfd.toNat := congrArg Prod.snd e
              omega
            have hold₁ : (PtyTable.closeFd s t newfd.toNat).fdTable (t, oldfd.toNat) = some h := by
              rw [hc.fdTable hnew, update_of_ne hdiff, hs]
            have hnew₁ : (PtyTable.closeFd s t newfd.toNat).fdTable (t, newfd.toNat) = none := by
              rw [hc.fdTable hnew, update_self]
            exact (hi₁.share ht₁ hnew hnew₁ (hi₁.mem_handles ht₁ hold' hold₁)).ret t _

/-! ## Fork and exit -/

/-- A task without descriptors. -/
theorem spawn {child : Tid} (hi : Inv s []) (hchild : child ∉ s.tids) :
    Inv { s with tids := child :: s.tids, fdTable := fun p => if p.1 = child then none else s.fdTable p } [] := by
  have hcount : ∀ k, refs (slots (child :: s.tids)) (fun p => if p.1 = child then none else s.fdTable p) k = s.holders k := by
    intro k
    rw [refs_slots_cons, refs_eq_zero.mpr, Nat.zero_add]
    · exact refs_congr (fun p hp => if_neg fun e : p.1 = child => hchild (e ▸ (mem_slots.mp hp).1)) k
    · intro fd _
      simp
  refine ⟨nodup_cons.mpr ⟨hchild, hi.tids⟩, hi.handles, fun k hk => ?_, fun k => ?_, hi.kernel, hi.pty⟩
  · exact (hi.count k hk).trans (hcount k).symm
  · exact (hi.held k).trans (by rw [← hcount k]; rfl)

/-- The loop over the parent's table, with the descriptors of the child still free. -/
theorem shareAll {parent child : Tid} : ∀ (fds : List Nat) (s : System), Inv s [] →
    parent ∈ s.tids → child ∈ s.tids → fds.Nodup → (∀ fd ∈ fds, fd < fdMax ∧ s.fdTable (child, fd) = none) →
      Inv (fds.foldl (fun s fd => match s.fdTable (parent, fd) with
        | none => s
        | some h => PtyTable.share s child fd h) s) [] := by
  intro fds
  induction fds with
  | nil => intro s hi _ _ _ _; exact hi
  | cons fd fds ih =>
    intro s hi hp hc hn hfree
    obtain ⟨hfd, hn⟩ := nodup_cons.mp hn
    have hrest : ∀ fd' ∈ fds, fd' < fdMax ∧ s.fdTable (child, fd') = none := fun fd' h => hfree fd' (mem_cons_of_mem _ h)
    obtain ⟨hlt, hnone⟩ := hfree fd mem_cons_self
    rw [foldl_cons]
    cases hs : s.fdTable (parent, fd) with
    | none => exact ih s hi hp hc hn hrest
    | some h =>
      refine ih _ (hi.share hc hlt hnone (hi.mem_handles hp hlt hs)) hp hc hn fun fd' hm => ⟨(hrest fd' hm).1, ?_⟩
      have hother : ((child, fd') : Tid × Nat) ≠ (child, fd) := fun e => by
        have he : fd' = fd := congrArg Prod.snd e
        exact hfd (he ▸ hm)
      exact (update_of_ne hother _ _).trans (hrest fd' hm).2

theorem taskFork {child : Tid} (hi : Inv s []) (ht : t ∈ s.tids) (hchild : child ∉ s.tids) :
    Inv (taskFork s t child) [] :=
  shareAll _ _ (hi.spawn hchild) (mem_cons_of_mem _ ht) mem_cons_self
    nodup_range fun _ hfd => ⟨mem_range.mp hfd, if_pos rfl⟩

/-- The loop over the table of a task that ends. -/
theorem closeAll : ∀ (fds : List Nat) (s : System), Inv s [] → t ∈ s.tids →
    Inv (fds.foldl (fun s fd => PtyTable.closeFd s t fd) s) [] ∧
      (fds.foldl (fun s fd => PtyTable.closeFd s t fd) s).tids = s.tids ∧
        ∀ fd < fdMax, fd ∈ fds ∨ s.fdTable (t, fd) = none →
          (fds.foldl (fun s fd => PtyTable.closeFd s t fd) s).fdTable (t, fd) = none := by
  intro fds
  induction fds with
  | nil => exact fun s hi _ => ⟨hi, rfl, fun fd _ h => h.resolve_left not_mem_nil⟩
  | cons fd fds ih =>
    intro s hi ht
    have hc := closeFd_closed s t fd
    obtain ⟨hi', htids, hnone⟩ := ih _ (hi.closeFd ht fd) (hc.tids ▸ ht)
    refine ⟨hi', htids.trans hc.tids, fun fd' hlt h => hnone fd' hlt ?_⟩
    by_cases he : fd' = fd
    · subst he
      exact .inr (by rw [hc.fdTable hlt, update_self])
    · rcases h with h | h
      · exact .inl ((mem_cons.mp h).resolve_left he)
      · right
        by_cases hfd : fd < fdMax
        · have hdiff : ((t, fd') : Tid × Nat) ≠ (t, fd) := fun e => he (congrArg Prod.snd e)
          rw [hc.fdTable hfd, update_of_ne hdiff, h]
        · rw [show PtyTable.closeFd s t fd = s from if_pos (Nat.not_lt.mp hfd), h]

theorem taskExit (hi : Inv s []) (ht : t ∈ s.tids) : Inv (taskExit s t) [] := by
  obtain ⟨hi', htids, hnone⟩ := closeAll (List.range fdMax) s hi ht
  unfold PtyTable.taskExit
  generalize (List.range fdMax).foldl (fun s fd => PtyTable.closeFd s t fd) s = s' at hi' htids hnone
  have hcount : ∀ k, s'.holders k = refs (slots (s'.tids.erase t)) s'.fdTable k := fun k => by
    have hperm : (slots s'.tids).Perm (slots (t :: s'.tids.erase t)) :=
      (perm_cons_erase (htids ▸ ht)).product_right _
    rw [System.holders, refs_perm hperm, refs_slots_cons, refs_eq_zero.mpr, Nat.zero_add]
    intro fd hfd
    rw [hnone fd (mem_range.mp hfd) (.inl hfd)]
    exact (Option.some_ne_none k).symm
  refine ⟨hi'.tids.erase t, hi'.handles, fun k hk => (hi'.count k hk).trans (hcount k), fun k => ?_, hi'.kernel, hi'.pty⟩
  exact (hi'.held k).trans (by rw [hcount k]; rfl)

/-! ## Runs -/

theorem boot (hb : Boot s) : Inv s [] := by
  have hzero : ∀ k, s.holders k = 0 := fun k => refs_eq_zero.mpr fun p _ => by
    rw [hb.fdTable p]
    exact (Option.some_ne_none k).symm
  have hopen : ∀ q side, s.openers q side = 0 := fun q side => by rw [System.openers, hb.handles, refs_nil]
  refine ⟨hb.tids, hb.handles ▸ nodup_nil, fun k hk => ?_, fun k => ?_, fun q => ?_, fun q => ?_⟩
  · rw [hb.handles] at hk
    exact absurd hk not_mem_nil
  · simp [hb.handles, hzero k]
  · rcases Nat.lt_or_ge q numKernelVtys with hq | hq
    · simp [hq, (hb.kernel q hq).2.1]
    · simp [Nat.not_lt.mpr hq, (hb.user q hq).2]
  · rcases Nat.lt_or_ge q numKernelVtys with hq | hq
    · obtain ⟨ha, hk, hs, hm⟩ := hb.kernel q hq
      refine ⟨fun _ side => ?_, fun _ hf => absurd (hk.symm.trans hf) Bool.noConfusion,
        fun hf => absurd (ha.symm.trans hf) Bool.noConfusion⟩
      cases side <;> simp [Pty.refcount, Pty.own, hk, hs, hm, hopen]
    · obtain ⟨ha, hk⟩ := hb.user q hq
      refine ⟨fun hf => absurd (ha.symm.trans hf) Bool.noConfusion, fun hf => absurd (ha.symm.trans hf) Bool.noConfusion,
        fun _ => ⟨hk, fun side => ?_⟩⟩
      simp [hopen]

end Inv

/-- No slave is opened by its name, and `pty_alloc` gets the memory for its nodes. -/
def Op.Counted : Op → Prop
  | .ptyOpen _ r => r.alloc.slaveNode ∧ r.alloc.masterNode
  | .openSlave .. => False
  | .openOther .. | .close .. | .dup .. | .fork .. | .exit .. => True

def CountedRun : System → Prop := Run.Reachable Boot fun s s' => ∃ op, op.Counted ∧ Step op s s'

/-- What the counts are for. The kernel's reference to its own terminals is never dropped. -/
structure Right (s : System) : Prop where
  live : ∀ h, h ∈ s.handles ↔ ∃ t ∈ s.tids, ∃ fd < fdMax, s.fdTable (t, fd) = some h
  counts : ∀ q, (s.pty q).allocated → ∀ side, (s.pty q).refcount side = (s.pty q).own side + s.openers q side
  freed : ∀ q, numKernelVtys ≤ q → ((s.pty q).allocated ↔ ∃ side, 0 < s.openers q side)
  reused : ∀ r q s', ptyAlloc s r = some (q, s') → ∀ h ∈ s.handles, ∀ side, (s.handle h).side ≠ some (q, side)

theorem Inv.right (hi : Inv s []) : Right s where
  live h := by
    rw [hi.held h, System.holders, refs_pos]
    constructor
    · rintro ⟨⟨t, fd⟩, hm, hs⟩
      exact ⟨t, (mem_slots.mp hm).1, fd, (mem_slots.mp hm).2, hs⟩
    · rintro ⟨t, ht, fd, hfd, hs⟩
      exact ⟨(t, fd), mem_slots.mpr ⟨ht, hfd⟩, hs⟩
  counts q ha side := by simpa using (hi.pty q).counts ha side
  freed q hq := by
    have hp := hi.pty q
    have hk : (s.pty q).kernelVty = false := Bool.eq_false_iff.mpr fun hk => by
      have := (hi.kernel q).mp hk
      omega
    simp only [count_nil, Nat.add_zero] at hp
    exact ⟨fun ha => hp.taken ha hk, fun ⟨_, hside⟩ => hp.allocated hside⟩
  reused r q s' he h hh side hs := by
    obtain ⟨-, -, hfree, -⟩ := ptyAlloc_eq he
    have hnone : s.openers q side = 0 := by simpa using ((hi.pty q).free hfree).2 side
    exact refs_eq_zero.mp hnone h hh hs

theorem counted_step {op : Op} (hi : Inv s []) (hc : op.Counted) (hs : Step op s s') : Inv s' [] := by
  obtain ⟨ht, hf, rfl⟩ := hs
  cases op with
  | ptyOpen t r => exact hi.sysPtyOpen ht hc.1 hc.2 hf
  | openSlave t q r => exact hc.elim
  | openOther t flags h => exact hi.sysOpenOther ht hf
  | close t fd b => exact hi.sysClose ht b
  | dup t oldfd newfd => exact hi.sysDup ht
  | fork t child => exact hi.taskFork ht hf
  | exit t => exact hi.taskExit ht

/-- While no slave is opened by name, the counts are the numbers of open handles, and a slot is
free exactly when nothing is open on it. -/
theorem lifetime_right (h : CountedRun s) : Right s :=
  (h.invariant (fun s => Inv s []) (fun _ hb => .boot hb) fun _ _ hi ⟨_, hc, hs⟩ => counted_step hi hc hs).right

/-! ## A slave that is opened by its name -/

/-- One task and the terminals of the kernel. -/
def bootSystem : System where
  tids := [initPid]
  fdTable _ := none
  handle _ := { node := none, flags := 0, refcount := 0 }
  handles := []
  pty q := if q < numKernelVtys then ⟨true, true, some (.slave q), none, 1, 0⟩ else ⟨false, false, none, none, 0, 0⟩
  registered q := q < numKernelVtys
  eax _ := 0

theorem bootSystem_boot : Boot bootSystem where
  tids := nodup_singleton _
  fdTable _ := rfl
  handles := rfl
  kernel q hq := by simp [bootSystem, hq]
  user q hq := by simp [bootSystem, Nat.not_lt.mpr hq]

/-- A pair with handles at the two addresses. -/
def openPair (m l : HandleId) : Op :=
  .ptyOpen initPid { addrOk := true, alloc := ⟨true, true, true⟩, malloc := some (m, l), copyOk := true }

/-- The slave's node belongs to the superuser, as the task does. -/
def openFour (h : HandleId) : Op :=
  .openSlave initPid numKernelVtys
    { flags := Files.oRdwr
      cred := ⟨0, 0, 0, 0, []⟩
      node := { size := 0, flags := Files.vfsFlagFile, uid := 0, gid := 0, mode := 0x2190 }
      malloc := some h }

theorem openPair_fits {m l : HandleId} (h : m ∉ s.handles ∧ l ∉ s.handles ∧ m ≠ l) : (openPair m l).Fits s :=
  fun _ hp => Option.mem_some_iff.mp hp ▸ h

theorem openFour_fits (hq : s.registered numKernelVtys) (hh : h ∉ s.handles) : (openFour h).Fits s :=
  ⟨hq, fun _ hk => Option.mem_some_iff.mp hk ▸ hh⟩

theorem lifetime_right_pair : Right ((Op.close initPid 1 false).run ((openPair 1 2).run bootSystem)) :=
  lifetime_right (((Run.Reachable.start bootSystem_boot).step
    ⟨openPair 1 2, ⟨rfl, rfl⟩, by decide, openPair_fits (by decide), rfl⟩).step
    ⟨.close initPid 1 false, trivial, by decide, trivial, rfl⟩)

/-- A slave that is opened by its name and closed again, then the master closed: the other
slave is still open, and its slot goes to the next pair. -/
theorem not_lifetime_right : ¬ ∀ s, Reachable s → Right s := by
  intro hall
  have hr := hall _ ((((((Run.Reachable.start bootSystem_boot).step
    ⟨openPair 1 2, by decide, openPair_fits (by decide), rfl⟩).step
    ⟨openFour 3, by decide, openFour_fits (by decide) (by decide), rfl⟩).step
    ⟨.close initPid 2 false, by decide, trivial, rfl⟩).step
    ⟨.close initPid 0 false, by decide, trivial, rfl⟩).step
    ⟨openPair 4 5, by decide, openPair_fits (by decide), rfl⟩)
  have hc := hr.counts numKernelVtys (by decide) .slave
  exact absurd hc (by decide)

end Serotonin.PtyTable
