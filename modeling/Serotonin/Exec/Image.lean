import Serotonin.Exec.Segments

/-! When the loader is safe. A file is loaded as it says where its segments lie in the user's
range and in pages of their own, where it has their bytes, and where there are frames for them;
any other file makes the kernel panic or write where it should not. -/

namespace Serotonin.Exec

open List
open ByteMem (Mem u32 load16 load32)
open Syscall (userSpaceStart userSpaceEnd pageSize)
open Phdr (pages segEnd segBase)

/-! ## What is asked of a segment -/

/-- Where the program header asks for nothing, or for pages of the user that hold all its bytes. -/
def Placed (h : Phdr) : Prop :=
  (h.memsz = 0 ∧ h.filesz = 0 ∧ h.vaddr % pageSize = 0) ∨
    (userSpaceStart ≤ h.segBase ∧ h.segBase < h.segEnd ∧ h.segEnd ≤ userSpaceEnd + 1 ∧
      h.vaddr + h.filesz ≤ h.segEnd ∧ h.vaddr + h.memsz ≤ h.segEnd)

/-- The bytes that the segment takes from the file are there. -/
def Stored (file : List UInt8) (h : Phdr) : Prop := h.filesz = 0 ∨ h.offset + h.filesz ≤ file.length

/-- The byte that the segment has at `j`: of the file, then zeros. -/
def segByte (file : List UInt8) (h : Phdr) (j : Nat) : Option UInt8 :=
  if j < h.filesz then file[h.offset + j]? else some 0

/-- The segment's bytes are in its pages. -/
def Content (file : List UInt8) (h : Phdr) (mem : Mem) : Prop :=
  ∀ j, j < max h.filesz h.memsz → (h.vaddr + j) / pageSize ∈ h.pages ∧ segByte file h j = some (mem (h.vaddr + j))

/-- The pages that the loader mapped or stored to. -/
def Event.pages : Event → List Nat
  | .map p => [p]
  | .zero addr len => touched addr len
  | .file _ addr len => touched addr len
  | .code addr len => touched addr len
  | .args addr len => touched addr len

/-- Bytes of the file go to pages of their segment only. -/
def Event.InSegment : Event → Prop
  | .file h addr len => ∀ p ∈ touched addr len, p ∈ h.pages
  | _ => True

def Event.Good (e : Event) : Prop := (∀ p ∈ e.pages, InUser p) ∧ e.InSegment

theorem mem_pages {h : Phdr} {p : Nat} : p ∈ h.pages ↔ h.segBase ≤ p * pageSize ∧ p * pageSize < h.segEnd := by
  unfold pages
  rw [List.mem_range'_1]
  have hb : h.segBase = h.vaddr / pageSize * pageSize := rfl
  have he : h.segEnd = u32 (h.vaddr + h.memsz + pageSize - 1) / pageSize * pageSize := rfl
  unfold pageSize at *
  omega

theorem segEnd_lt (h : Phdr) : h.segEnd < 2 ^ 32 := by
  unfold segEnd u32 pageSize
  omega

theorem Placed.inUser {h : Phdr} (hp : Placed h) {p : Nat} (hmem : p ∈ h.pages) : InUser p := by
  rw [mem_pages] at hmem
  have hlt := h.vaddr_lt
  rcases hp with ⟨hm, -, hv⟩ | ⟨h1, h2, h3, -⟩
  · unfold segBase segEnd u32 pageSize at *
    omega
  · unfold InUser userSpaceStart userSpaceEnd pageSize at *
    omega

theorem Placed.mem_pages {h : Phdr} (hp : Placed h) {j : Nat} (hj : j < max h.filesz h.memsz) :
    (h.vaddr + j) / pageSize ∈ h.pages := by
  rw [Exec.mem_pages]
  rcases hp with ⟨hm, hf, -⟩ | ⟨-, -, -, h1, h2⟩
  · omega
  · unfold segBase segEnd pageSize at *
    omega

/-- The addresses of a placed segment are 32 bits wide. -/
theorem Placed.addr_lt {h : Phdr} (hp : Placed h) {j : Nat} (hj : j < max h.filesz h.memsz) : h.vaddr + j < 2 ^ 32 := by
  have hend := segEnd_lt h
  rcases hp with ⟨hm, hf, -⟩ | ⟨-, -, -, h1, h2⟩
  · omega
  · omega

/-! ## A segment is filled -/

theorem overlay_inside {file : List UInt8} {off len i : Nat} {buf : Mem} (hi : i < len) (h : off + i < file.length) :
    file[off + i]? = some (overlay (vfsRead file off len) buf i) := by
  unfold overlay vfsRead
  rw [getD_eq_getElem?_getD, List.getElem?_take_of_lt hi, List.getElem?_drop, List.getElem?_eq_getElem h]
  rfl

/-- Where a store of the file's bytes lies in the pages of its segment. -/
theorem touched_pages {h : Phdr} (hp : Placed h) {done len : Nat} (hle : done + len ≤ h.filesz) :
    ∀ p ∈ touched (u32 (h.vaddr + done)) len, p ∈ h.pages := by
  intro p hmem
  obtain ⟨i, hi, rfl⟩ := mem_touched.mp hmem
  have hj : done + i < max h.filesz h.memsz := by omega
  have hlt := hp.addr_lt hj
  have he : u32 (u32 (h.vaddr + done) + i) = h.vaddr + (done + i) := by
    unfold u32
    omega
  rw [he]
  exact hp.mem_pages hj

/-- Memory changes in the pages `ws` only, and what was done is as it should be. -/
structure Keeps (s s' : Build) (ws : List Nat) : Prop where
  mem : ∀ a, a < 2 ^ 32 → a / pageSize ∉ ws → s'.space.mem a = s.space.mem a
  log : ∀ e ∈ s'.log, e ∈ s.log ∨ e.Good

theorem Keeps.refl (s : Build) (ws : List Nat) : Keeps s s ws := ⟨fun _ _ _ => rfl, fun _ h => .inl h⟩

theorem Keeps.trans {s s' s'' : Build} {ws : List Nat} (h : Keeps s s' ws) (h' : Keeps s' s'' ws) : Keeps s s'' ws where
  mem a ha hout := (h'.mem a ha hout).trans (h.mem a ha hout)
  log e he := (h'.log e he).elim (h.log e) .inr

theorem Keeps.mono {s s' : Build} {ws ws' : List Nat} (h : Keeps s s' ws) (hsub : ∀ p ∈ ws, p ∈ ws') : Keeps s s' ws' where
  mem a ha hout := h.mem a ha fun hmem => hout (hsub _ hmem)
  log := h.log

theorem mapList_keeps {s s' : Build} {ps ws : List Nat} (h : s.mapList ps = .ok s') (hps : ∀ p ∈ ps, InUser p) :
    Keeps s s' ws := by
  obtain ⟨-, hmem, hlog⟩ := mapList_ran h
  refine ⟨fun _ _ _ => by rw [hmem], fun e he => ?_⟩
  rw [hlog, mem_append, mem_map] at he
  rcases he with he | ⟨p, hp, rfl⟩
  · exact .inl he
  · exact .inr ⟨fun q hq => mem_singleton.mp hq ▸ hps p hp, trivial⟩

theorem store_keeps {s s' : Build} {e : Event} {addr len : Nat} {bytes : Mem} (h : s.store e addr len bytes = .ok s')
    (haddr : addr < 2 ^ 32) (he : e.Good) : Keeps s s' (touched addr len) := by
  obtain ⟨-, hmem, -, hlog, -⟩ := store_ran h
  refine ⟨fun a ha hout => ?_, fun e' hmem' => ?_⟩
  · rw [hmem]
    exact storeMem_of_not_mem ha haddr hout
  · rcases hlog with hl | hl
    · exact .inl (hl ▸ hmem')
    · rw [hl, mem_append, mem_singleton] at hmem'
      exact hmem'.imp_right fun heq : e' = e => heq ▸ he

/-- The chunks give the segment its bytes of the file, and store nowhere else. -/
theorem copyChunks_returns {file : List UInt8} {size : Nat} {h : Phdr} (hsize : 0 < size) (hp : Placed h)
    (hstored : Stored file h) (hfile : file.length < 2 ^ 32) (n : Nat) :
    ∀ done s chunk, done ≤ h.filesz → h.filesz ≤ done + n → (∀ p ∈ h.pages, s.space.page p = true) →
      Returns (copyChunks file size h n done s chunk) fun r =>
        (∀ j, done ≤ j → j < h.filesz → file[h.offset + j]? = some (r.1.space.mem (h.vaddr + j))) ∧
        (∀ a, a < 2 ^ 32 → (a < h.vaddr + done ∨ h.vaddr + h.filesz ≤ a) → r.1.space.mem a = s.space.mem a) ∧
        Ran s r.1 [] ∧ Keeps s r.1 h.pages := by
  induction n with
  | zero =>
    intro done s chunk h1 h2 _
    exact .ok ⟨fun j hj hj' => by omega, fun _ _ _ => rfl, .refl s, .refl s _⟩
  | succ n ih =>
    intro done s chunk h1 h2 hpages
    by_cases hdone : done < h.filesz
    swap
    · rw [copyChunks, if_neg hdone]
      exact .ok ⟨fun j hj hj' => by omega, fun _ _ _ => rfl, .refl s, .refl s _⟩
    have hlen : h.offset + h.filesz ≤ file.length := hstored.resolve_left (by omega)
    have hoff : u32 (h.offset + done) = h.offset + done := ByteMem.u32_of_lt (by omega)
    have hvaddr : u32 (h.vaddr + done) = h.vaddr + done := ByteMem.u32_of_lt (hp.addr_lt (by omega))
    have hlast := hp.addr_lt (j := h.filesz - 1) (by omega)
    rw [copyChunks, if_pos hdone]
    generalize hr : min (h.filesz - done) size = rlen
    have htouched : ∀ p ∈ touched (u32 (h.vaddr + done)) rlen, p ∈ h.pages := touched_pages hp (by omega)
    rw [hvaddr] at htouched
    simp only [hoff, hvaddr]
    obtain ⟨s1, hs1⟩ : ∃ s1, s.store (.file h (h.vaddr + done) rlen) (h.vaddr + done) rlen
        (overlay (vfsRead file (h.offset + done) rlen) chunk) = .ok s1 :=
      store_returns fun p hmem => hpages p (htouched p hmem)
    obtain ⟨r1, m1, -⟩ := store_ran hs1
    have k1 := store_keeps hs1 (by omega) ⟨fun p hmem => hp.inUser (htouched p hmem), htouched⟩
    have hpages1 : ∀ p ∈ h.pages, s1.space.page p = true := fun p hmem => (r1.grows.page p).mpr (.inr (hpages p hmem))
    rw [hs1]
    refine (ih (done + rlen) s1 _ (by omega) (by omega) hpages1).mono ?_
    rintro ⟨s2, chunk2⟩ ⟨hbytes, hframe, r2, k2⟩
    refine ⟨fun j hj hj' => ?_, fun a ha hout => ?_, r1.trans r2, (k1.mono htouched).trans k2⟩
    · by_cases hlate : done + rlen ≤ j
      · exact hbytes j hlate hj'
      · obtain ⟨i, rfl⟩ := Nat.exists_eq_add_of_le hj
        rw [hframe _ (by omega) (by omega), m1, ← Nat.add_assoc, ← Nat.add_assoc, storeMem_inside (by omega) (by omega) (by omega)]
        exact overlay_inside (by omega) (by omega)
    · rw [hframe a ha (by omega), m1]
      exact storeMem_outside ha (by omega) (by omega)

theorem Placed.len {h : Phdr} (hp : Placed h) :
    u32 (h.segEnd + 2 ^ 32 - h.segBase) = h.segEnd - h.segBase ∧ h.segBase + (h.segEnd - h.segBase) < 2 ^ 32 := by
  have hlt := segEnd_lt h
  have hv := h.vaddr_lt
  rcases hp with ⟨hm, -, hal⟩ | ⟨h1, h2, h3, -⟩
  · unfold segBase segEnd u32 pageSize at *
    omega
  · unfold u32
    omega

theorem touched_zero {h : Phdr} (hp : Placed h) : ∀ p ∈ touched h.segBase (h.segEnd - h.segBase), p ∈ h.pages := by
  intro p hmem
  have hend := hp.len.2
  obtain ⟨i, hi, rfl⟩ := mem_touched.mp hmem
  rw [ByteMem.u32_of_lt (by omega), mem_pages]
  unfold segBase segEnd pageSize at *
  omega

/-- The whole segment: its bytes are there, and no other page changes. -/
theorem loadSegment_returns {file : List UInt8} {size : Nat} {h : Phdr} {s : Build} (chunk : Mem) (hsize : 0 < size)
    (hp : Placed h) (hstored : Stored file h) (hfile : file.length < 2 ^ 32) (hroom : Room s h.pages) :
    Returns (loadSegment file size h s chunk) fun r =>
      Content file h r.1.space.mem ∧ Ran s r.1 h.pages ∧ Keeps s r.1 h.pages := by
  obtain ⟨s1, hs1⟩ := mapList_returns hroom
  obtain ⟨r1, m1, -⟩ := mapList_ran hs1
  have k1 : Keeps s s1 h.pages := mapList_keeps hs1 fun p hmem => hp.inUser hmem
  have hpages : ∀ p ∈ h.pages, s1.space.page p = true := fun p hmem => (r1.grows.page p).mpr (.inl hmem)
  have htouched := touched_zero hp
  obtain ⟨s2, hs2⟩ : ∃ s2, s1.store (.zero h.segBase (h.segEnd - h.segBase)) h.segBase (h.segEnd - h.segBase) (fun _ => 0) =
      .ok s2 := store_returns fun p hmem => hpages p (htouched p hmem)
  obtain ⟨r2, m2, -⟩ := store_ran hs2
  have hend := hp.len.2
  have k2 := (store_keeps hs2 (by omega) ⟨fun p hmem => hp.inUser (htouched p hmem), trivial⟩).mono htouched
  have hpages2 : ∀ p ∈ h.pages, s2.space.page p = true := fun p hmem => (r2.grows.page p).mpr (.inr (hpages p hmem))
  have hcopy := copyChunks_returns hsize hp hstored hfile h.filesz 0 s2 chunk (Nat.zero_le _) (by omega) hpages2
  unfold loadSegment Build.memset
  rw [hp.len.1, hs1]
  refine Returns.bind ⟨s1, rfl, rfl⟩ fun _ he => he ▸ Returns.bind ⟨s2, hs2, rfl⟩ fun _ he => he ▸ hcopy.mono ?_
  rintro ⟨s3, chunk3⟩ ⟨hbytes, hframe, r3, k3⟩
  refine ⟨fun j hj => ⟨hp.mem_pages hj, ?_⟩, (r1.trans (r2.trans r3)).cast (by simp), k1.trans (k2.trans k3)⟩
  unfold segByte
  by_cases hfilesz : j < h.filesz
  · rw [if_pos hfilesz, hbytes j (Nat.zero_le j) hfilesz]
  · have hpage := hp.mem_pages hj
    rw [mem_pages] at hpage
    have hlt := hp.addr_lt hj
    obtain ⟨i, hi⟩ := Nat.exists_eq_add_of_le (show h.segBase ≤ h.vaddr + j by unfold pageSize at hpage; omega)
    have hin : i < h.segEnd - h.segBase := by
      unfold segBase segEnd pageSize at *
      omega
    rw [if_neg hfilesz, hframe _ hlt (by omega), m2, hi, storeMem_inside (by omega) hin (by omega)]

/-- No page belongs to two segments, so each keeps its bytes while the others are loaded. -/
theorem loadSegments_returns {file : List UInt8} {size : Nat} (hsize : 0 < size) (hfile : file.length < 2 ^ 32) (hs : List Phdr) :
    ∀ s chunk, (∀ h ∈ hs, Placed h ∧ Stored file h) → Room s (hs.flatMap pages) →
      Returns (loadSegments file size hs s chunk) fun s' =>
        (∀ h ∈ hs, Content file h s'.space.mem) ∧ Ran s s' (hs.flatMap pages) ∧ Keeps s s' (hs.flatMap pages) := by
  induction hs with
  | nil =>
    intro s chunk _ _
    exact .ok ⟨by simp, .refl s, .refl s _⟩
  | cons h hs ih =>
    intro s chunk hall hroom
    rw [flatMap_cons] at hroom ⊢
    have hh := hall h mem_cons_self
    rw [loadSegments]
    refine Returns.bind (loadSegment_returns chunk hsize hh.1 hh.2 hfile hroom.left) ?_
    rintro ⟨s1, chunk1⟩ ⟨hcontent, r1, k1⟩
    refine (ih s1 chunk1 (fun g hg => hall g (mem_cons_of_mem _ hg)) (hroom.right r1.grows)).mono ?_
    rintro s2 ⟨hcontents, r2, k2⟩
    refine ⟨fun g hg => ?_, r1.trans r2, (k1.mono fun p hp => mem_append_left _ hp).trans
      (k2.mono fun p hp => mem_append_right _ hp)⟩
    rcases mem_cons.mp hg with rfl | hg
    · intro j hj
      obtain ⟨hpage, hbyte⟩ := hcontent j hj
      refine ⟨hpage, ?_⟩
      rw [k2.mem _ (hh.1.addr_lt hj) fun hmem => disjoint_of_nodup_append hroom.nodup hpage hmem]
      exact hbyte
    · exact hcontents g hg

/-! ## What a load that came to its end needed -/

theorem copyChunks_ran {file : List UInt8} {size : Nat} {h : Phdr} (n : Nat) :
    ∀ done s chunk, ∀ {r : Build × Mem}, copyChunks file size h n done s chunk = .ok r → Ran s r.1 [] := by
  induction n with
  | zero =>
    intro done s chunk r hok
    obtain rfl := Except.ok.inj hok
    exact .refl s
  | succ n ih =>
    intro done s chunk r hok
    rw [copyChunks] at hok
    split at hok
    · obtain ⟨s1, h1, hok⟩ := bind_ok hok
      exact (store_ran h1).1.trans (ih _ _ _ hok)
    · obtain rfl := Except.ok.inj hok
      exact .refl s

theorem loadSegment_ran {file : List UInt8} {size : Nat} {h : Phdr} {s s' : Build} {chunk chunk' : Mem}
    (hok : loadSegment file size h s chunk = .ok (s', chunk')) :
    Ran s s' h.pages ∧ (h.segEnd ≠ h.segBase → .zero h.segBase (u32 (h.segEnd + 2 ^ 32 - h.segBase)) ∈ s'.log) := by
  obtain ⟨s1, h1, hok⟩ := bind_ok hok
  obtain ⟨s2, h2, hok⟩ := bind_ok hok
  obtain ⟨r2, -, -, -, hmem⟩ := store_ran h2
  have r3 := copyChunks_ran _ _ _ _ hok
  refine ⟨((mapList_ran h1).1.trans (r2.trans r3)).cast (by simp), fun hne => r3.log.subset (hmem ?_)⟩
  have hend := segEnd_lt h
  have hv := h.vaddr_lt
  unfold segBase u32 pageSize at *
  omega

theorem loadSegments_ran {file : List UInt8} {size : Nat} (hs : List Phdr) :
    ∀ s s' chunk, loadSegments file size hs s chunk = .ok s' → Ran s s' (hs.flatMap pages) ∧
      ∀ h ∈ hs, h.segEnd ≠ h.segBase → .zero h.segBase (u32 (h.segEnd + 2 ^ 32 - h.segBase)) ∈ s'.log := by
  induction hs with
  | nil =>
    intro s s' chunk hok
    obtain rfl := Except.ok.inj hok
    exact ⟨.refl s, by simp⟩
  | cons h hs ih =>
    intro s s' chunk hok
    obtain ⟨⟨s1, chunk1⟩, h1, hok⟩ := bind_ok hok
    obtain ⟨r1, hzero⟩ := loadSegment_ran h1
    obtain ⟨r2, hzeros⟩ := ih _ _ _ hok
    refine ⟨flatMap_cons ▸ r1.trans r2, fun g hg hne => ?_⟩
    rcases mem_cons.mp hg with rfl | hg
    · exact r2.log.subset (hzero hne)
    · exact hzeros g hg hne

/-! ## The stack -/

theorem stackPointer_lt (r : Request) : stackPointer r < 2 ^ 32 := by
  have := ByteMem.u32_lt (stackTop + 2 * 2 ^ 32 - stringsSz r - ptrsSz r)
  unfold stackPointer
  omega

theorem argBytes_length_pos (r : Request) : 0 < (argBytes r).length := by
  simp [argBytes, le32]

/-- The pages of the stack, and of the code that ends a signal handler. -/
def ownPages : List Nat := stackPages ++ [signalTrampolineAddr / pageSize]

theorem inUser_ownPages {p : Nat} (hp : p ∈ ownPages) : InUser p := by
  unfold ownPages stackPages at hp
  rw [mem_append, List.mem_range'_1, mem_singleton] at hp
  unfold InUser userStackTop userStackSize signalTrampolineAddr userSpaceStart userSpaceEnd pageSize at *
  omega

theorem touched_stack : ∀ p ∈ touched userStackTop userStackSize, p ∈ stackPages := by
  intro p hp
  obtain ⟨i, hi, rfl⟩ := mem_touched.mp hp
  unfold stackPages
  rw [List.mem_range'_1]
  unfold u32 userStackTop userStackSize pageSize at *
  omega

theorem touched_trampoline : ∀ p ∈ touched signalTrampolineAddr signalTrampoline.length, p = signalTrampolineAddr / pageSize := by
  intro p hp
  obtain ⟨i, hi, rfl⟩ := mem_touched.mp hp
  have hlen : signalTrampoline.length = 7 := rfl
  unfold u32 signalTrampolineAddr pageSize at *
  omega

/-- The stack is there when the arguments are stored, and nothing else changes. -/
theorem setUpStack_returns {r : Request} {s : Build} (hroom : Room s ownPages)
    (hargs : ∀ p ∈ touched (stackPointer r) (argBytes r).length, (p ∈ ownPages ∨ s.space.page p = true) ∧ InUser p) :
    Returns (setUpStack r s) fun s' => Ran s s' ownPages ∧ (∀ e ∈ s'.log, e ∈ s.log ∨ e.Good) ∧
      ∀ a, a < 2 ^ 32 → a / pageSize ∉ ownPages → s'.space.mem a =
        storeMem s.space.mem (stackPointer r) (argBytes r).length (fun i => (argBytes r).getD i 0) a := by
  have husr : ∀ p ∈ stackPages, InUser p := fun p hp => inUser_ownPages (mem_append_left _ hp)
  have hsub : ∀ p ∈ stackPages, p ∈ ownPages := fun p hp => mem_append_left _ hp
  obtain ⟨s1, hs1⟩ := mapList_returns hroom.left
  have r1 := (mapList_ran hs1).1
  have k1 : Keeps s s1 ownPages := mapList_keeps hs1 husr
  obtain ⟨s2, hs2⟩ : ∃ s2, s1.store (.zero userStackTop userStackSize) userStackTop userStackSize (fun _ => 0) = .ok s2 :=
    store_returns fun p hp => (r1.grows.page p).mpr (.inl (touched_stack p hp))
  have r2 := (store_ran hs2).1
  have k2 := (store_keeps hs2 (by decide) ⟨fun p hp => husr p (touched_stack p hp), trivial⟩).mono fun p hp =>
    hsub p (touched_stack p hp)
  have r12 := (r1.trans r2).cast (append_nil _)
  have htramp : Room s2 [signalTrampolineAddr / pageSize] := hroom.right r12.grows
  obtain ⟨s3, hs3⟩ := mapPage_returns htramp
  have hs3' : s2.mapList [signalTrampolineAddr / pageSize] = .ok s3 := by
    rw [Build.mapList, hs3]
    rfl
  have r3 := (mapList_ran hs3').1
  have k3 : Keeps s2 s3 ownPages := mapList_keeps hs3' fun p hp => inUser_ownPages (mem_append_right _ hp)
  obtain ⟨s4, hs4⟩ : ∃ s4, s3.store (.code signalTrampolineAddr signalTrampoline.length) signalTrampolineAddr
      signalTrampoline.length (fun i => signalTrampoline.getD i 0) = .ok s4 := store_returns fun p hp => (r3.grows.page p).mpr (.inl (mem_singleton.mpr (touched_trampoline p hp)))
  have r4 := (store_ran hs4).1
  have htr : ∀ p ∈ touched signalTrampolineAddr signalTrampoline.length, p ∈ ownPages := fun p hp =>
    mem_append_right _ (mem_singleton.mpr (touched_trampoline p hp))
  have k4 := (store_keeps hs4 (by decide) ⟨fun p hp => inUser_ownPages (htr p hp), trivial⟩).mono htr
  have r14 := ((r12.trans r3).trans r4).cast (append_nil _)
  have k14 := ((k1.trans k2).trans k3).trans k4
  obtain ⟨s5, hs5⟩ : ∃ s5, s4.store (.args (stackPointer r) (argBytes r).length) (stackPointer r) (argBytes r).length
      (fun i => (argBytes r).getD i 0) = .ok s5 := store_returns fun p hp => (r14.grows.page p).mpr (hargs p hp).1
  obtain ⟨r5, m5, -⟩ := store_ran hs5
  have k5 := store_keeps hs5 (stackPointer_lt r) ⟨fun p hp => (hargs p hp).2, trivial⟩
  have hok : setUpStack r s = .ok s5 := by
    unfold setUpStack Build.memset
    rw [hs1]
    show s1.store _ _ _ _ >>= _ = _
    rw [hs2]
    show s2.mapPage _ >>= _ = _
    rw [hs3]
    show s3.store _ _ _ _ >>= _ = _
    rw [hs4]
    exact hs5
  refine ⟨s5, hok, (r14.trans r5).cast (append_nil _), fun e he => (k5.log e he).elim (k14.log e) .inr, fun a ha hout => ?_⟩
  rw [m5]
  unfold storeMem
  rw [k14.mem a ha hout]

/-- Where the stack is set up, its pages are there, and the arguments with them. -/
theorem setUpStack_ran {r : Request} {s s' : Build} (hok : setUpStack r s = .ok s') :
    Ran s s' ownPages ∧ .args (stackPointer r) (argBytes r).length ∈ s'.log ∧
      (∀ p ∈ touched (stackPointer r) (argBytes r).length, s'.space.page p = true) ∧
      ∃ mem, s'.space.mem = storeMem mem (stackPointer r) (argBytes r).length fun i => (argBytes r).getD i 0 := by
  obtain ⟨s1, h1, hok⟩ := bind_ok hok
  obtain ⟨s2, h2, hok⟩ := bind_ok hok
  obtain ⟨s3, h3, hok⟩ := bind_ok hok
  obtain ⟨s4, h4, h5⟩ := bind_ok hok
  obtain ⟨r5, m5, hpages, -, hlog⟩ := store_ran h5
  have r14 := (((mapList_ran h1).1.trans (store_ran h2).1).trans (mapPage_ran h3).1).trans (store_ran h4).1
  refine ⟨(r14.trans r5).cast (by simp [ownPages]), hlog (argBytes_length_pos r), fun p hp => ?_, _, m5⟩
  exact (r5.grows.page p).mpr (.inr (hpages p hp))

/-! ## The whole call -/

/-- The file and its program headers, where the call comes as far as the new address space. -/
def Request.image (r : Request) : Option (ElfFile × List Phdr) := do
  let file ← r.file
  guard (ehdrSize ≤ file.bytes.length ∧ r.ehdrRead = true ∧ (readEhdr file.bytes).valid = true)
  let phdr ← r.phdrBuf
  guard (r.phdrRead = true)
  some (file, loadable file.bytes phdr)

/-- All pages that the new program gets. -/
def allPages (hs : List Phdr) : List Nat := hs.flatMap pages ++ ownPages

/-- The arguments are stored in the new program's pages, and change no byte of a segment. They
do both where they fit in the stack. -/
def ArgsPlaced (r : Request) (file : List UInt8) (hs : List Phdr) : Prop :=
  (∀ p ∈ touched (stackPointer r) (argBytes r).length, p ∈ allPages hs) ∧
    ∀ h ∈ hs, ∀ j, j < max h.filesz h.memsz → ∀ i, i < (argBytes r).length →
      u32 (stackPointer r + i) = h.vaddr + j → segByte file h j = some ((argBytes r).getD i 0)

/-- What the file and the arguments need. -/
structure Fits (r : Request) (file : List UInt8) (hs : List Phdr) (frames : Nat) : Prop where
  segments : ∀ h ∈ hs, Placed h ∧ Stored file h
  nodup : (allPages hs).Nodup
  frames : 1 + (allPages hs).length + ((allPages hs).map (· / 1024)).toFinset.card ≤ frames
  args : ArgsPlaced r file hs

/-- The call comes back; with 1 nothing has changed, and else every page that was mapped or stored
to is in the user's range, bytes of the file went to pages of their segment, and every segment
has its bytes. -/
def Safe (r : Request) (k : Kernel) : Prop :=
  ∃ ret k', kernelLoadElf r k = .ok (ret, k') ∧ ((ret = 1 ∧ k' = k) ∨
    (ret = 0 ∧ (∀ e ∈ k'.log, e.Good) ∧
      (∀ a, a < 2 ^ 32 → ¬InUser (a / pageSize) → k'.pcb.addressSpace.space.mem a = r.mem a) ∧
      ∀ file hs, r.image = some (file, hs) → ∀ h ∈ hs, Content file.bytes h k'.pcb.addressSpace.space.mem))

theorem frames_emptySpace (k : Kernel) (mem : Mem) : (k.emptySpace mem).frames = 1 := by
  unfold Space.frames
  rw [filter_eq_nil_iff.mpr, filter_eq_nil_iff.mpr]
  · rfl
  · intro t ht
    rw [List.mem_range'_1] at ht
    unfold Kernel.emptySpace kernelPdeBase at *
    simp only [Bool.or_eq_true, beq_iff_eq, Bool.and_eq_true, decide_eq_true_eq]
    omega
  · intro p hp
    rw [List.mem_range'_1] at hp
    unfold Space.ownPage Kernel.emptySpace kernelPdeBase at *
    simp only [Bool.or_eq_true, beq_iff_eq, Bool.and_eq_true, decide_eq_true_eq]
    omega

theorem free_alloc (k : Kernel) (b : Buf) : (k.alloc b).free b = k := by
  unfold Kernel.free Kernel.alloc
  rw [erase_cons_head]

theorem destroy_create {k : Kernel} {pdir : Nat} {mem : Mem} (h : 0 < k.frames) :
    ({ (k.alloc .phdr).alloc .addressSpace with frames := k.frames - 1 }.destroyAddressSpace
      ⟨pdir, (k.alloc .phdr).emptySpace mem⟩).free .phdr = k := by
  have hframes : k.frames - 1 + ((k.alloc .phdr).emptySpace mem).frames = k.frames := by
    rw [frames_emptySpace]
    omega
  unfold Kernel.destroyAddressSpace
  rw [hframes]
  unfold Kernel.free Kernel.alloc
  rw [erase_cons_head, erase_cons_head]

theorem start_free {k : Kernel} {r : Request} {entry : Nat} {as : AddressSpace} {b : Build} (n : Nat) :
    (((({ (k.alloc .phdr).alloc .addressSpace with frames := n }).alloc .chunk).free .chunk).free .phdr).start r entry as b =
      (k.alloc .addressSpace).start r entry as b := by
  rw [free_alloc]
  unfold Kernel.start Kernel.free Kernel.alloc
  rw [erase_cons_tail (by decide), erase_cons_head]

/-- The checks, as the conditions of `image` say them. -/
theorem image_eq (r : Request) : r.image = match r.file, r.phdrBuf with
    | some file, some phdr =>
      if (file.bytes.length < ehdrSize ∨ r.ehdrRead = false) ∨ (readEhdr file.bytes).valid = false ∨ r.phdrRead = false then none
      else some (file, loadable file.bytes phdr)
    | _, _ => none := by
  unfold Request.image
  cases r.file with
  | none => rfl
  | some file =>
    cases r.phdrBuf with
    | none => by_cases h : ehdrSize ≤ file.bytes.length ∧ r.ehdrRead = true ∧ (readEhdr file.bytes).valid = true <;> simp [h, guard]
    | some phdr =>
      rcases Nat.lt_or_ge file.bytes.length ehdrSize with h1 | h1
      · simp [guard, h1, Nat.not_le.mpr h1]
      · have h2 := Nat.not_lt.mpr h1
        cases r.ehdrRead <;> cases hv : (readEhdr file.bytes).valid <;> cases r.phdrRead <;> simp [guard, h1, h2, hv]

theorem kernelLoadElf_none {r : Request} {k : Kernel} (h : r.image = none) : kernelLoadElf r k = .ok (1, k) := by
  rw [image_eq] at h
  unfold kernelLoadElf
  cases hfile : r.file with
  | none => rfl
  | some file =>
    rw [hfile] at h
    by_cases h1 : file.bytes.length < ehdrSize ∨ r.ehdrRead = false
    · exact if_pos h1
    · refine (if_neg h1).trans ?_
      by_cases h2 : (readEhdr file.bytes).valid = false
      · exact if_pos h2
      · refine (if_neg h2).trans ?_
        cases hphdr : r.phdrBuf with
        | none => rfl
        | some phdr =>
          rw [hphdr] at h
          by_cases h3 : r.phdrRead = false
          · exact (if_pos h3).trans (by rw [free_alloc])
          · exact absurd h (by simp [h1, h2, h3])

/-- The call past its checks. -/
theorem kernelLoadElf_some {r : Request} {k : Kernel} {file : ElfFile} {hs : List Phdr} (h : r.image = some (file, hs)) :
    kernelLoadElf r k =
      if k.frames = 0 then .error .panic
      else match r.chunk with
      | none => .ok (1, k)
      | some (size, chunk) =>
        match loadImage r file.bytes hs size chunk (k.emptySpace r.mem) (k.frames - 1) with
        | .error e => .error e
        | .ok b => .ok (0, (k.alloc .addressSpace).start r (readEhdr file.bytes).entry ⟨r.pdir, k.emptySpace r.mem⟩ b) := by
  rw [image_eq] at h
  cases hfile : r.file with
  | none => rw [hfile] at h; cases h
  | some file' =>
    cases hphdr : r.phdrBuf with
    | none => rw [hfile, hphdr] at h; cases h
    | some phdr =>
      rw [hfile, hphdr] at h
      by_cases hc : (file'.bytes.length < ehdrSize ∨ r.ehdrRead = false) ∨ (readEhdr file'.bytes).valid = false ∨ r.phdrRead = false
      · exact absurd h (by simp [hc])
      · obtain ⟨h1, h2, h3⟩ := by simpa only [not_or] using hc
        simp only [if_neg hc, Option.some.injEq, Prod.mk.injEq] at h
        obtain ⟨rfl, rfl⟩ := h
        unfold kernelLoadElf
        rw [hfile]
        refine (if_neg (by simpa using h1)).trans ((if_neg h2).trans ?_)
        rw [hphdr]
        refine (if_neg h3).trans ?_
        unfold Kernel.createAddressSpace
        by_cases hf : k.frames = 0
        · rw [if_pos hf, if_pos (show (k.alloc .phdr).frames = 0 from hf)]
          rfl
        · rw [if_neg hf, if_neg (show (k.alloc .phdr).frames ≠ 0 from hf)]
          cases r.chunk with
          | none =>
            exact congrArg (fun k' => Except.ok (1, k')) (destroy_create (Nat.pos_of_ne_zero hf))
          | some c =>
            obtain ⟨size, chunk⟩ := c
            show (loadImage r file'.bytes (loadable file'.bytes phdr) size chunk (k.emptySpace r.mem) (k.frames - 1) >>= _) =
              match loadImage r file'.bytes (loadable file'.bytes phdr) size chunk (k.emptySpace r.mem) (k.frames - 1) with
              | .error e => _
              | .ok b => _
            cases loadImage r file'.bytes (loadable file'.bytes phdr) size chunk (k.emptySpace r.mem) (k.frames - 1) with
            | error e => rfl
            | ok b => exact congrArg (fun k' => Except.ok (0, k')) (start_free (k.frames - 1))

theorem InUser.div {p : Nat} (h : InUser p) : p / 1024 ≠ 0 ∧ p / 1024 < kernelPdeBase := by
  unfold InUser userSpaceStart userSpaceEnd pageSize kernelPdeBase at *
  omega

theorem emptySpace_page {k : Kernel} {mem : Mem} {p : Nat} (h : InUser p) : (k.emptySpace mem).page p = false := by
  obtain ⟨h0, h1⟩ := h.div
  simp [Kernel.emptySpace, h0, Nat.not_le.mpr h1]

theorem emptySpace_table {k : Kernel} {mem : Mem} {p : Nat} (h : InUser p) : (k.emptySpace mem).table (p / 1024) = false := by
  obtain ⟨h0, h1⟩ := h.div
  simp [Kernel.emptySpace, h0, Nat.not_le.mpr h1]

/-- All tables of the user's pages are new. -/
theorem cost_emptySpace {k : Kernel} {mem : Mem} {ps : List Nat} (h : ∀ p ∈ ps, InUser p) :
    cost (k.emptySpace mem) ps = ps.length + (ps.map (· / 1024)).toFinset.card := by
  unfold cost newTables
  rw [Finset.filter_true_of_mem]
  intro t ht
  obtain ⟨p, hp, rfl⟩ := mem_map.mp (mem_toFinset.mp ht)
  exact emptySpace_table (h p hp)

theorem inUser_allPages {hs : List Phdr} (h : ∀ g ∈ hs, Placed g) : ∀ p ∈ allPages hs, InUser p := by
  intro p hp
  rcases mem_append.mp hp with hp | hp
  · obtain ⟨g, hg, hp⟩ := mem_flatMap.mp hp
    exact (h g hg).inUser hp
  · exact inUser_ownPages hp

theorem chunk_pos {r : Request} {size : Nat} {chunk : Mem} (h : r.chunk = some (size, chunk)) : 0 < size := by
  unfold Request.chunk at h
  cases hbuf : r.chunkBuf with
  | some m =>
    simp only [hbuf, Option.some.injEq, Prod.mk.injEq] at h
    exact h.1 ▸ (by decide)
  | none =>
    simp only [hbuf, Option.map_eq_some_iff, Prod.mk.injEq] at h
    obtain ⟨m, -, rfl, -⟩ := h
    decide

/-- A load that fits comes to its end, and is safe. -/
theorem Fits.load {r : Request} {k : Kernel} {file : ElfFile} {hs : List Phdr} {size : Nat}
    (hfits : Fits r file.bytes hs k.frames) (hsize : 0 < size) (chunk : Mem) :
    Returns (loadImage r file.bytes hs size chunk (k.emptySpace r.mem) (k.frames - 1)) fun b =>
      (∀ e ∈ b.log, e.Good) ∧ (∀ a, a < 2 ^ 32 → ¬InUser (a / pageSize) → b.space.mem a = r.mem a) ∧
        ∀ h ∈ hs, Content file.bytes h b.space.mem := by
  have huser := inUser_allPages fun h hh => (hfits.segments h hh).1
  have hroom : Room ⟨k.emptySpace r.mem, k.frames - 1, []⟩ (allPages hs) := by
    refine ⟨hfits.nodup, fun p hp => emptySpace_page (huser p hp), ?_⟩
    have hframes := hfits.frames
    show cost (k.emptySpace r.mem) (allPages hs) ≤ k.frames - 1
    rw [cost_emptySpace huser]
    omega
  refine Returns.bind (loadSegments_returns hsize file.size_lt hs _ chunk hfits.segments hroom.left) ?_
  rintro s1 ⟨hcontent, r1, k1⟩
  have hargs : ∀ p ∈ touched (stackPointer r) (argBytes r).length, (p ∈ ownPages ∨ s1.space.page p = true) ∧ InUser p := by
    intro p hp
    have hall := hfits.args.1 p hp
    refine ⟨?_, huser p hall⟩
    exact (mem_append.mp hall).symm.imp_right fun h => (r1.grows.page p).mpr (.inl h)
  refine (setUpStack_returns (hroom.right r1.grows) hargs).mono ?_
  rintro s2 ⟨-, hlog, hmem⟩
  refine ⟨fun e he => ?_, fun a ha hout => ?_, fun h hh j hj => ?_⟩
  · rcases hlog e he with he | he
    · exact (k1.log e he).resolve_left (not_mem_nil)
    · exact he
  · have hown : a / pageSize ∉ ownPages := fun h => hout (inUser_ownPages h)
    have htouched : a / pageSize ∉ touched (stackPointer r) (argBytes r).length := fun h => hout (hargs _ h).2
    have hsegs : a / pageSize ∉ hs.flatMap pages := fun h => hout (huser _ (mem_append_left _ h))
    rw [hmem a ha hown, storeMem_of_not_mem ha (stackPointer_lt r) htouched, k1.mem a ha hsegs]
    rfl
  · obtain ⟨hpage, hbyte⟩ := hcontent h hh j hj
    have ha := (hfits.segments h hh).1.addr_lt hj
    have hown : (h.vaddr + j) / pageSize ∉ ownPages := fun hmem' =>
      disjoint_of_nodup_append hfits.nodup (mem_flatMap.mpr ⟨h, hh, hpage⟩) hmem'
    refine ⟨hpage, ?_⟩
    rw [hmem _ ha hown]
    unfold storeMem
    split
    · rename_i hi
      refine hfits.args.2 h hh j hj _ hi ?_
      have hsp := stackPointer_lt r
      unfold u32
      omega
    · exact hbyte

/-- What a segment needs is read off what its load did. -/
theorem placed_of_content {file : List UInt8} {h : Phdr} {mem : Mem} (hcontent : Content file h mem)
    (hzero : h.segEnd ≠ h.segBase → (Event.zero h.segBase (u32 (h.segEnd + 2 ^ 32 - h.segBase))).Good) :
    Placed h ∧ Stored file h := by
  have hlt := segEnd_lt h
  have hv := h.vaddr_lt
  have hpages : ∀ j, j < max h.filesz h.memsz → h.segBase ≤ (h.vaddr + j) / pageSize * pageSize ∧
      (h.vaddr + j) / pageSize * pageSize < h.segEnd := fun j hj => mem_pages.mp (hcontent j hj).1
  refine ⟨?_, ?_⟩
  · by_cases hne : h.segEnd = h.segBase
    · have hmax : max h.filesz h.memsz = 0 := by
        by_contra hpos
        have := hpages 0 (by omega)
        omega
      refine .inl ⟨by omega, by omega, ?_⟩
      unfold segBase segEnd u32 pageSize at *
      omega
    · have hgood := (hzero hne).1
      have hbase : InUser (h.segBase / pageSize) := by
        refine hgood _ (mem_touched.mpr ⟨0, ?_, ?_⟩)
        · unfold segBase u32 pageSize at *
          omega
        · unfold segBase u32 pageSize at *
          omega
      have hlast : h.segBase < h.segEnd := by
        by_contra hwrap
        have hin : InUser ((2 ^ 32 - 1) / pageSize) := by
          refine hgood _ (mem_touched.mpr ⟨2 ^ 32 - 1 - h.segBase, ?_, ?_⟩)
          · unfold segBase u32 pageSize at *
            omega
          · unfold segBase u32 pageSize at *
            omega
        exact absurd hin (by unfold InUser userSpaceEnd pageSize; omega)
      have hend : InUser ((h.segEnd - 1) / pageSize) := by
        refine hgood _ (mem_touched.mpr ⟨h.segEnd - 1 - h.segBase, ?_, ?_⟩)
        · unfold u32
          omega
        · congr 1
          unfold u32
          omega
      have hfilesz : h.filesz = 0 ∨ h.vaddr + h.filesz ≤ h.segEnd := by
        by_contra hno
        have := hpages (h.filesz - 1) (by omega)
        unfold segBase segEnd pageSize at *
        omega
      have hmemsz : h.memsz = 0 ∨ h.vaddr + h.memsz ≤ h.segEnd := by
        by_contra hno
        have := hpages (h.memsz - 1) (by omega)
        unfold segBase segEnd pageSize at *
        omega
      have hvend : h.vaddr ≤ h.segEnd := by
        unfold segBase segEnd pageSize at *
        omega
      unfold InUser at hbase hend
      refine .inr ⟨?_, hlast, ?_, by omega, by omega⟩
      · unfold segBase userSpaceStart pageSize at *
        omega
      · unfold segEnd userSpaceEnd pageSize at *
        omega
  · by_cases h0 : h.filesz = 0
    · exact .inl h0
    · have hbyte := (hcontent (h.filesz - 1) (by omega)).2
      unfold segByte at hbyte
      rw [if_pos (by omega)] at hbyte
      have := (List.getElem?_eq_some_iff.mp hbyte).1
      exact .inr (by omega)

/-- A load that came to its end found all its pages new, and frames for them. -/
theorem loadImage_ran {r : Request} {file : List UInt8} {hs : List Phdr} {size : Nat} {chunk : Mem} {sp : Space} {n : Nat}
    {b : Build} (hok : loadImage r file hs size chunk sp n = .ok b) :
    Ran ⟨sp, n, []⟩ b (allPages hs) ∧
      (∀ h ∈ hs, h.segEnd ≠ h.segBase → .zero h.segBase (u32 (h.segEnd + 2 ^ 32 - h.segBase)) ∈ b.log) ∧
      .args (stackPointer r) (argBytes r).length ∈ b.log ∧
      (∀ p ∈ touched (stackPointer r) (argBytes r).length, b.space.page p = true) ∧
      ∃ mem, b.space.mem = storeMem mem (stackPointer r) (argBytes r).length fun i => (argBytes r).getD i 0 := by
  obtain ⟨s1, h1, h2⟩ := bind_ok hok
  obtain ⟨r1, hzero⟩ := loadSegments_ran _ _ _ _ h1
  obtain ⟨r2, hargs, hpages, hmem⟩ := setUpStack_ran h2
  exact ⟨r1.trans r2, fun h hh hne => r2.log.subset (hzero h hh hne), hargs, hpages, hmem⟩

theorem nodup_of_ok {r : Request} {k k' : Kernel} {file : ElfFile} {hs : List Phdr} {ret : Nat}
    (himage : r.image = some (file, hs)) (hchunk : r.chunk ≠ none) (hok : kernelLoadElf r k = .ok (ret, k')) :
    (allPages hs).Nodup := by
  obtain ⟨⟨size, chunk⟩, hc⟩ := Option.ne_none_iff_exists'.mp hchunk
  rw [kernelLoadElf_some himage, hc] at hok
  split at hok
  · cases hok
  cases hload : loadImage r file.bytes hs size chunk (k.emptySpace r.mem) (k.frames - 1) with
  | error e =>
    simp only [hload] at hok
    cases hok
  | ok b => exact (loadImage_ran hload).1.room.nodup

/-- A load that is safe fits. -/
theorem fits_of_load {r : Request} {k : Kernel} {file : ElfFile} {hs : List Phdr} {size : Nat} {chunk : Mem} {b : Build}
    (hframes : 0 < k.frames)
    (hok : loadImage r file.bytes hs size chunk (k.emptySpace r.mem) (k.frames - 1) = .ok b) (hgood : ∀ e ∈ b.log, e.Good)
    (hcontent : ∀ h ∈ hs, Content file.bytes h b.space.mem) : Fits r file.bytes hs k.frames := by
  obtain ⟨ran, hzero, hargs, hpages, mem, hmem⟩ := loadImage_ran hok
  have hsegs : ∀ h ∈ hs, Placed h ∧ Stored file.bytes h := fun h hh =>
    placed_of_content (hcontent h hh) fun hne => hgood _ (hzero h hh hne)
  have huser := inUser_allPages fun h hh => (hsegs h hh).1
  refine ⟨hsegs, ran.room.nodup, ?_, fun p hp => ?_, fun h hh j hj i hi he => ?_⟩
  · have hcost : cost (k.emptySpace r.mem) (allPages hs) ≤ k.frames - 1 := ran.room.frames
    rw [cost_emptySpace huser] at hcost
    omega
  · rcases (ran.grows.page p).mp (hpages p hp) with hall | hold
    · exact hall
    · have : (k.emptySpace r.mem).page p = true := hold
      rw [emptySpace_page ((hgood _ hargs).1 p hp)] at this
      cases this
  · have ha := (hsegs h hh).1.addr_lt hj
    have hsp := stackPointer_lt r
    have hshort : (argBytes r).length < 2 ^ 32 := by
      by_contra hlong
      have hin := (hgood _ hargs).1 ((2 ^ 32 - 1) / pageSize) (mem_touched.mpr ⟨2 ^ 32 - 1 - stackPointer r, by omega, by
        congr 1
        unfold u32
        omega⟩)
      exact absurd hin (by unfold InUser userSpaceEnd pageSize; omega)
    have hback : u32 (h.vaddr + j + 2 ^ 32 - stackPointer r) = i := by
      unfold u32 at *
      omega
    have hbyte := (hcontent h hh j hj).2
    rw [hmem] at hbyte
    unfold storeMem at hbyte
    rwa [hback, if_pos hi] at hbyte

/-- Where the call is safe: it needs a frame for the page directory as soon as the file is taken,
and the file must fit when it is loaded. -/
def Loads (r : Request) (k : Kernel) : Prop :=
  ∀ file hs, r.image = some (file, hs) → 0 < k.frames ∧ (r.chunk ≠ none → Fits r file.bytes hs k.frames)

def codeAndData : List UInt8 :=
  let phdr (vaddr : Nat) : List UInt8 := [1, 0, vaddr, vaddr, 4, 4, 5, 4096].flatMap le32
  [0x7F, 0x45, 0x4C, 0x46, 1, 1, 1, 0, 0, 0, 0, 0, 0, 0, 0, 0, 2, 0, 3, 0, 1, 0, 0, 0] ++ [0x08048000, 52, 0, 0].flatMap le32 ++
    [52, 0, 32, 0, 2, 0, 0, 0, 0, 0, 0, 0] ++ phdr 0x08048000 ++ phdr 0x08048800

def segmentAt (vaddr : Nat) (h : vaddr < 2 ^ 32) : Phdr :=
  { type := 1, offset := 0, vaddr := vaddr, filesz := 4, memsz := 4, vaddr_lt := h }

theorem loadable_codeAndData :
    loadable codeAndData (fun _ => 0) = [segmentAt 0x08048000 (by decide), segmentAt 0x08048800 (by decide)] := by
  decide

def codeAndDataCall : Request :=
  { pname := [0x70], argv := [], envp := [], file := some ⟨codeAndData, by decide⟩, ehdrRead := true, phdrRead := true
    phdrBuf := some fun _ => 0, chunkBuf := some fun _ => 0, pageBuf := none, pdir := 1, mem := fun _ => 0 }

def smallKernel : Kernel :=
  let space : Space := ⟨fun _ => false, fun _ => false, fun _ => 0, fun _ h => nomatch h⟩
  let context : Context := ⟨0x23, 0x23, 0x23, 0x23, 0, 0, 0, 0, 0, 0, 0, 0, 0x202, 0x08048010, 0x1B, 0x202, 0xBF0FFF00, 0x23⟩
  { pcb := ⟨[], [0x2F], context, 0, 0, 0, 0, 0, 0, 0, ⟨0, space⟩, 0x20000000, 0x20001000, ⟨0, 0, 0, 0, []⟩, [], 0, false⟩
    cr3 := 0, frames := 10000, bufs := [], log := [], kernelPage := fun _ => false, kernelTable := fun _ => false
    kernelTable_of_page := fun _ h => nomatch h }

end Serotonin.Exec
