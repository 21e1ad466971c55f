import Serotonin.Exec.Image

/-! `sys_execve` of `syscall.c`. The registers and the break of the caller are reset before the
loader has seen the file, so a load that fails leaves a caller that cannot go on. -/

namespace Serotonin.Exec

open Files (VfsNode enametoolong enoent eacces eio permExec sIsuid sIsgid vfsCheckPermission)

def userModeSegment : Nat := 0x23
def userModeCodeSegment : Nat := 0x1B
def initEflags : Nat := 0x202
def userHeapStart : Nat := 0x20000000
def pathSize : Nat := 256

/-- `none` stands for a path that is missing or too long. -/
def buildAbsPath (cwd : List UInt8) (path : Option (List UInt8)) (outSize : Nat) : Option (List UInt8) :=
  match path with
  | none => none
  | some path =>
    if path.head? = some 0x2F then if outSize ≤ path.length then none else some path
    else
      let extra : List UInt8 := if 1 < cwd.length then [0x2F] else []
      if outSize < cwd.length + extra.length + path.length + 1 then none else some (cwd ++ extra ++ path)

/-- What `sys_execve` is called with, the node that the path leads to, and what the loader gets
from below. -/
structure Execve where
  path : Option (List UInt8)
  argv : Option (List (List UInt8))
  envp : Option (List (List UInt8))
  resolve : List UInt8 → Option (VfsNode × List UInt8)
  load : Request

/-- The call of the loader: names are cut to 255 bytes, and missing vectors are empty. -/
def Execve.request (r : Execve) (name : List UInt8) : Request :=
  { r.load with pname := name.take 255, argv := r.argv.getD [], envp := r.envp.getD [] }

def resetContext : Context :=
  { ds := userModeSegment, es := userModeSegment, fs := userModeSegment, gs := userModeSegment
    edi := 0, esi := 0, ebp := 0, espAtPushal := 0, ebx := 0, edx := 0, ecx := 0, eax := 0
    stubEflags := initEflags, eip := 0, cs := userModeCodeSegment, eflags := initEflags, espAtTrap := 0
    ss := userModeSegment }

def Pcb.reset (p : Pcb) : Pcb :=
  { p with processorContext := resetContext, brkStart := userHeapStart, brkEnd := userHeapStart }

/-- The old program's handlers mean nothing to the new one. -/
def Pcb.exec (p : Pcb) (node : VfsNode) : Pcb :=
  { p with
    cred :=
      { p.cred with
        euid := if node.mode &&& sIsuid ≠ 0 then node.uid else p.cred.euid
        egid := if node.mode &&& sIsgid ≠ 0 then node.gid else p.cred.egid }
    signalHandlers := p.signalHandlers.map fun _ => 0
    signalBitmask := 0
    inSignalHandler := false }

/-- The buffers of the call, in the order in which they are freed. -/
def Execve.bufs (r : Execve) : List Buf :=
  (List.range (r.argv.getD []).length).map .arg ++ [.argv] ++ ((List.range (r.envp.getD []).length).map .env ++ [.envp]) ++ [.path]

/-- The path, the two arrays, and the strings of each. -/
def Execve.allocs (r : Execve) : List Buf :=
  [.path, .argv, .envp] ++ (List.range (r.argv.getD []).length).map .arg ++ (List.range (r.envp.getD []).length).map .env

def Kernel.allocAll (k : Kernel) (bs : List Buf) : Kernel := bs.foldl .alloc k

def Kernel.freeAll (k : Kernel) (bs : List Buf) : Kernel := bs.foldl .free k

def Kernel.setPcb (k : Kernel) (p : Pcb) : Kernel := { k with pcb := p }

/-- With the value of `errno`, unless the new program runs. -/
def sysExecve (r : Execve) (k : Kernel) : Except Stop (Option Int × Kernel) :=
  match buildAbsPath k.pcb.cwd r.path pathSize with
  | none => .ok (some (-enametoolong), k)
  | some absPath =>
    match r.resolve absPath with
    | none => .ok (some (-enoent), (k.alloc .path).free .path)
    | some (node, name) =>
      if vfsCheckPermission node k.pcb.cred permExec ≠ 0 then .ok (some (-eacces), (k.alloc .path).free .path)
      else do
        let k := k.allocAll r.allocs
        let oldas := k.pcb.addressSpace
        let (stat, k) ← kernelLoadElf (r.request name) (k.setPcb k.pcb.reset)
        if stat = 0 then
          let k := k.destroyAddressSpace oldas
          .ok (none, (k.setPcb (k.pcb.exec node)).freeAll r.bufs)
        else .ok (some (-eio), k.freeAll r.bufs)

/-! ## The buffers -/

theorem foldl_erase_append {α : Type} [DecidableEq α] (rest : List α) {bs l : List α} (h : l.Perm bs) :
    bs.foldl List.erase (l ++ rest) = rest := by
  induction bs generalizing l with
  | nil => rw [h.eq_nil]; rfl
  | cons b bs ih =>
    have hmem : b ∈ l := h.mem_iff.mpr List.mem_cons_self
    rw [List.foldl_cons, List.erase_append_left _ hmem]
    exact ih (List.cons_perm_iff_perm_erase.mp h.symm).2.symm

@[simp] theorem allocAll_eq (k : Kernel) (bs : List Buf) : k.allocAll bs = { k with bufs := bs.reverse ++ k.bufs } := by
  induction bs generalizing k with
  | nil => rfl
  | cons b bs ih =>
    show (k.alloc b).allocAll bs = _
    rw [ih]
    simp [Kernel.alloc]

@[simp] theorem freeAll_eq (k : Kernel) (bs : List Buf) : k.freeAll bs = { k with bufs := bs.foldl List.erase k.bufs } := by
  induction bs generalizing k with
  | nil => rfl
  | cons b bs ih => exact ih (k.free b)

theorem bufs_perm (r : Execve) : r.allocs.reverse.Perm r.bufs := by
  refine (List.reverse_perm _).trans ?_
  unfold Execve.allocs Execve.bufs
  rw [List.perm_iff_count]
  intro b
  simp only [List.count_append, List.count_cons, List.count_nil]
  omega

/-- All of the call's buffers are given back, and no other. -/
theorem freeAll_allocAll (r : Execve) (k : Kernel) : (k.allocAll r.allocs).freeAll r.bufs = k := by
  rw [allocAll_eq, freeAll_eq, foldl_erase_append _ (bufs_perm r)]

theorem setPcb_freeAll (k : Kernel) (p : Pcb) (bs : List Buf) : (k.setPcb p).freeAll bs = (k.freeAll bs).setPcb p := by
  rw [freeAll_eq, freeAll_eq]
  rfl

theorem setPcb_eq_self {k : Kernel} {p : Pcb} : k.setPcb p = k ↔ p = k.pcb :=
  ⟨fun h => congrArg Kernel.pcb h, fun h => h ▸ rfl⟩

/-! ## The caller -/

/-- Does the call come as far as the reset, and with which node? -/
def Execve.target (r : Execve) (k : Kernel) : Option (VfsNode × List UInt8) := do
  let absPath ← buildAbsPath k.pcb.cwd r.path pathSize
  let (node, name) ← r.resolve absPath
  guard (vfsCheckPermission node k.pcb.cred permExec = 0)
  some (node, name)

/-- Does the loader take the file, where there is a frame for a page directory? -/
def Execve.taken (r : Execve) (k : Kernel) : Prop := r.load.image ≠ none ∧ (k.frames = 0 ∨ r.load.chunk ≠ none)

theorem sysExecve_none {r : Execve} {k : Kernel} (h : r.target k = none) : ∃ e, sysExecve r k = .ok (some e, k) := by
  unfold Execve.target at h
  unfold sysExecve
  cases hpath : buildAbsPath k.pcb.cwd r.path pathSize with
  | none => exact ⟨_, rfl⟩
  | some absPath =>
    simp only
    cases hnode : r.resolve absPath with
    | none => exact ⟨-enoent, by rw [free_alloc]⟩
    | some node =>
      obtain ⟨node, name⟩ := node
      by_cases hperm : vfsCheckPermission node k.pcb.cred permExec = 0
      · simp [hpath, hnode, hperm, guard] at h
      · exact ⟨-eacces, by simp only [if_pos hperm, free_alloc]⟩

/-- A call that comes as far as the loader. -/
theorem sysExecve_some {r : Execve} {k : Kernel} {node : VfsNode} {name : List UInt8} (h : r.target k = some (node, name)) :
    sysExecve r k = (do
      let (stat, k') ← kernelLoadElf (r.request name) ((k.allocAll r.allocs).setPcb k.pcb.reset)
      if stat = 0 then
        let k' := k'.destroyAddressSpace k.pcb.addressSpace
        .ok (none, (k'.setPcb (k'.pcb.exec node)).freeAll r.bufs)
      else .ok (some (-eio), k'.freeAll r.bufs)) := by
  unfold Execve.target at h
  unfold sysExecve
  cases hpath : buildAbsPath k.pcb.cwd r.path pathSize with
  | none => simp [hpath] at h
  | some absPath =>
    cases hnode : r.resolve absPath with
    | none => simp [hpath, hnode] at h
    | some found =>
      obtain ⟨node', name'⟩ := found
      by_cases hperm : vfsCheckPermission node' k.pcb.cred permExec = 0
      · simp only [hpath, hnode, hperm, guard, Option.bind_eq_bind, Option.bind_some, if_true] at h
        obtain ⟨rfl, rfl⟩ := Prod.mk.inj (Option.some.inj h)
        simp only [hnode, hperm, ne_eq, not_true, if_false]
        rw [allocAll_eq]
      · simp [hpath, hnode, hperm, guard] at h

theorem not_taken_load {r : Execve} {k : Kernel} (name : List UInt8) (h : ¬r.taken k) :
    kernelLoadElf (r.request name) k = .ok (1, k) := by
  cases himage : r.load.image with
  | none => exact kernelLoadElf_none (r := r.request name) himage
  | some image =>
    have hno : k.frames ≠ 0 ∧ r.load.chunk = none := by
      simpa [Execve.taken, himage] using h
    rw [kernelLoadElf_some (r := r.request name) himage, if_neg hno.1]
    have hchunk : (r.request name).chunk = none := hno.2
    rw [hchunk]

theorem taken_load {r : Execve} {k k' : Kernel} {name : List UInt8} {stat : Nat} (h : r.taken k)
    (hok : kernelLoadElf (r.request name) k = .ok (stat, k')) : stat = 0 := by
  obtain ⟨⟨file, hs⟩, himage⟩ := Option.ne_none_iff_exists'.mp h.1
  rw [kernelLoadElf_some (r := r.request name) himage] at hok
  by_cases hframes : k.frames = 0
  · rw [if_pos hframes] at hok
    cases hok
  obtain ⟨⟨size, chunk⟩, hc⟩ := Option.ne_none_iff_exists'.mp (h.2.resolve_left hframes)
  have hchunk : (r.request name).chunk = some (size, chunk) := hc
  rw [if_neg hframes, hchunk] at hok
  dsimp only at hok
  split at hok
  · cases hok
  · exact (Prod.mk.inj (Except.ok.inj hok)).1.symm

/-- A call that fails leaves the caller as it was where the error comes before the loader, where
the loader takes the file, or where the reset changes nothing. -/
theorem sysExecve_intact_iff (r : Execve) (k : Kernel) :
    (∀ e k', sysExecve r k = .ok (some e, k') → k' = k) ↔ r.target k = none ∨ r.taken k ∨ k.pcb.reset = k.pcb := by
  cases htarget : r.target k with
  | none =>
    obtain ⟨e, he⟩ := sysExecve_none htarget
    refine ⟨fun _ => .inl rfl, fun _ e' k' hok => ?_⟩
    exact (Prod.mk.inj (Except.ok.inj (he.symm.trans hok))).2.symm
  | some target =>
    obtain ⟨node, name⟩ := target
    have hcall := sysExecve_some htarget
    have htaken : r.taken ((k.allocAll r.allocs).setPcb k.pcb.reset) ↔ r.taken k := by
      rw [allocAll_eq]
      rfl
    by_cases h : r.taken k
    · refine ⟨fun _ => .inr (.inl h), fun _ e k' hok => ?_⟩
      rw [hcall] at hok
      obtain ⟨⟨stat, k1⟩, hload, hok⟩ := bind_ok hok
      obtain rfl := taken_load (htaken.mpr h) hload
      simp at hok
    · have hfail : sysExecve r k = .ok (some (-eio), k.setPcb k.pcb.reset) := by
        rw [hcall, not_taken_load name (mt htaken.mp h)]
        refine congrArg (fun k' => Except.ok (some (-eio), k')) ?_
        rw [setPcb_freeAll, freeAll_allocAll]
      refine ⟨fun hintact => .inr (.inr (setPcb_eq_self.mp (hintact _ _ hfail))), ?_⟩
      rintro (hno | hno | hreset) e k' hok
      · cases hno
      · exact absurd hno h
      · rw [← (Prod.mk.inj (Except.ok.inj (hfail.symm.trans hok))).2]
        exact setPcb_eq_self.mpr hreset

/-- A script that root calls like a program: `#!`. -/
def scriptCall : Execve :=
  { path := some [0x2F, 0x73], argv := some [[0x73]], envp := none
    resolve := fun _ => some ({ size := 2, flags := 0, uid := 0, gid := 0, mode := 0x1ED }, [0x73])
    load := { codeAndDataCall with file := some ⟨[0x23, 0x21], by decide⟩ } }

/-- The call fails, and the caller has lost its registers and its break. -/
theorem not_sysExecve_intact : ¬∀ e k', sysExecve scriptCall smallKernel = .ok (some e, k') → k' = smallKernel := by
  intro hintact
  have hfail : sysExecve scriptCall smallKernel = .ok (some (-eio), smallKernel.setPcb smallKernel.pcb.reset) := by rfl
  have hpcb := setPcb_eq_self.mp (hintact _ _ hfail)
  exact absurd (congrArg Pcb.brkEnd hpcb) (by decide)

end Serotonin.Exec
