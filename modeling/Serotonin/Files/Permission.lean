import Mathlib.Data.List.Basic
import Serotonin.Files.Model
import Serotonin.Lib.Run

/-! What a handle can be used for. `sys_open` turns the access bits into permissions, and
`sys_read` and `sys_write` test the same bits again, each with tests of its own. -/

namespace Serotonin.Files

open Function List
open Option (map_eq_some_iff bind_eq_some_iff bind_some)

/-! ## Handles keep their flags -/

/-- No handle gets other flags, and each new access through one of them passed its test. -/
structure Keeps (s s' : FileState) : Prop where
  next : s.nextHandle ≤ s'.nextHandle
  flags : ∀ h < s.nextHandle, ∀ x', s'.handle h = some x' → ∃ x, s.handle h = some x ∧ x.flags = x'.flags
  log : ∃ new, s'.log = new ++ s.log ∧ ∀ h < s.nextHandle,
    (.read h ∈ new → ∃ x, s.handle h = some x ∧ x.flags &&& 3 ≠ oWronly) ∧
      (.write h ∈ new → ∃ x, s.handle h = some x ∧ x.flags &&& 3 ≠ oRdonly)

theorem Keeps.of_quiet {s s' : FileState} (hn : s.nextHandle ≤ s'.nextHandle)
    (hf : ∀ h < s.nextHandle, ∀ x', s'.handle h = some x' → ∃ x, s.handle h = some x ∧ x.flags = x'.flags)
    (hl : s'.log = s.log) : Keeps s s' := by
  refine ⟨hn, hf, [], hl, fun h _ => ⟨fun hm => ?_, fun hm => ?_⟩⟩
  · cases hm
  · cases hm

/-- Neither the handles nor the log are touched. -/
theorem Keeps.of_same {s s' : FileState} (hh : s'.handle = s.handle) (hn : s'.nextHandle = s.nextHandle)
    (hl : s'.log = s.log) : Keeps s s' :=
  .of_quiet (Nat.le_of_eq hn.symm) (fun _ _ x hx => ⟨x, hh ▸ hx, rfl⟩) hl

theorem Keeps.refl (s : FileState) : Keeps s s := .of_same rfl rfl rfl

theorem Keeps.trans {s t u : FileState} (h : Keeps s t) (h' : Keeps t u) : Keeps s u := by
  have hback : ∀ k < s.nextHandle, ∀ y, t.handle k = some y → ∃ x, s.handle k = some x ∧ x.flags = y.flags :=
    h.flags
  refine ⟨Nat.le_trans h.next h'.next, fun k hk z hz => ?_, ?_⟩
  · obtain ⟨y, hy, he⟩ := h'.flags k (Nat.lt_of_lt_of_le hk h.next) z hz
    obtain ⟨x, hx, he'⟩ := hback k hk y hy
    exact ⟨x, hx, he'.trans he⟩
  · obtain ⟨new, hnew, hacc⟩ := h.log
    obtain ⟨new', hnew', hacc'⟩ := h'.log
    refine ⟨new' ++ new, ?_, fun k hk => ⟨fun hm => ?_, fun hm => ?_⟩⟩
    · rw [hnew', hnew, append_assoc]
    · rcases mem_append.mp hm with hm | hm
      · obtain ⟨y, hy, hne⟩ := (hacc' k (Nat.lt_of_lt_of_le hk h.next)).1 hm
        obtain ⟨x, hx, he⟩ := hback k hk y hy
        exact ⟨x, hx, he ▸ hne⟩
      · exact (hacc k hk).1 hm
    · rcases mem_append.mp hm with hm | hm
      · obtain ⟨y, hy, hne⟩ := (hacc' k (Nat.lt_of_lt_of_le hk h.next)).2 hm
        obtain ⟨x, hx, he⟩ := hback k hk y hy
        exact ⟨x, hx, he ▸ hne⟩
      · exact (hacc k hk).2 hm

theorem Keeps.foldl {α : Type} {f : FileState → α → FileState} (hf : ∀ s a, Keeps s (f s a)) :
    ∀ (l : List α) (s : FileState), Keeps s (l.foldl f s)
  | [], s => .refl s
  | a :: l, s => (hf s a).trans (Keeps.foldl hf l (f s a))

theorem keeps_modifyHandle (s : FileState) (h : HandleId) {f : FileHandle → FileHandle}
    (hf : ∀ x, (f x).flags = x.flags) : Keeps s (s.modifyHandle h f) := by
  refine .of_quiet (Nat.le_refl _) (fun k _ x hx => ?_) rfl
  unfold FileState.modifyHandle at hx
  dsimp only at hx
  by_cases hk : k = h
  · subst hk
    rw [update_self] at hx
    obtain ⟨y, hy, rfl⟩ := map_eq_some_iff.mp hx
    exact ⟨y, hy, (hf y).symm⟩
  · rw [update_of_ne hk] at hx
    exact ⟨x, hx, rfl⟩

theorem keeps_newHandle (s : FileState) (x : FileHandle) :
    Keeps s { s with handle := update s.handle s.nextHandle (some x), nextHandle := s.nextHandle + 1 } := by
  refine .of_quiet (Nat.le_succ _) (fun k hk y hy => ⟨y, ?_, rfl⟩) rfl
  dsimp only at hy
  rwa [update_of_ne (Nat.ne_of_lt hk)] at hy

theorem keeps_allocFd {s s' : FileState} {t : Tid} {h : HandleId} {fd : Nat}
    (ha : allocFd s t h = some (fd, s')) : Keeps s s' := by
  obtain ⟨i, -, hi⟩ := map_eq_some_iff.mp ha
  cases hi
  have hset : Keeps s (s.setFd t fd (some h)) := .of_same rfl rfl rfl
  exact hset.trans (keeps_modifyHandle _ h fun _ => rfl)

theorem keeps_closeFd (s : FileState) (t : Tid) (fd : Nat) : Keeps s (closeFd s t fd) := by
  unfold closeFd
  split
  · exact .refl s
  · rename_i h _
    dsimp only
    split
    · refine Keeps.trans (t := { s with handle := update s.handle h none }) ?_ (.of_same rfl rfl rfl)
      refine .of_quiet (Nat.le_refl _) (fun k _ x hx => ?_) rfl
      dsimp only at hx
      by_cases hk : k = h
      · subst hk
        rw [update_self] at hx
        cases hx
      · rw [update_of_ne hk] at hx
        exact ⟨x, hx, rfl⟩
    · have hmod := keeps_modifyHandle s h (f := fun x => { x with refcount := x.refcount - 1 }) fun _ => rfl
      exact hmod.trans (.of_same rfl rfl rfl)

theorem keeps_closeAll (s : FileState) (t : Tid) : Keeps s (closeAll s t) :=
  .foldl (fun s fd => keeps_closeFd s t fd) _ s

/-! ## Opening -/

theorem openHandle_keeps {s s' : FileState} {node : Option NodeId} {r : OpenInput}
    (hs : openHandle s node r = some s') : Keeps s s' ∧ s'.log = s.log := by
  unfold openHandle at hs
  split at hs
  · cases hs
    exact ⟨.of_same rfl rfl rfl, rfl⟩
  · obtain ⟨offset, -, hs⟩ := map_eq_some_iff.mp hs
    dsimp only at hs
    split at hs
    · cases hs
      exact ⟨.of_same rfl rfl rfl, rfl⟩
    · rename_i fd s2 ha
      cases hs
      obtain ⟨i, -, hi⟩ := map_eq_some_iff.mp ha
      refine ⟨((keeps_newHandle s _).trans (keeps_allocFd ha)).trans (.of_same rfl rfl rfl), ?_⟩
      cases hi
      rfl

theorem keeps_record (s : FileState) (n : NodeId) : Keeps s (s.record (.truncate n)) :=
  ⟨Nat.le_refl _, fun _ _ x hx => ⟨x, hx, rfl⟩, [.truncate n], rfl, fun _ _ =>
    ⟨fun hm => (nomatch mem_singleton.mp hm), fun hm => (nomatch mem_singleton.mp hm)⟩⟩

theorem nodeCreated_keeps {s s' : FileState} {node : Option NodeId} {r : OpenInput}
    (hs : nodeCreated s node r = some s') :
    Keeps s s' ∧ (s'.log = s.log ∨ r.flags &&& 3 ≠ oRdonly) := by
  unfold nodeCreated at hs
  split at hs
  · rename_i htrunc
    obtain ⟨n, -, hs⟩ := bind_eq_some_iff.mp hs
    refine ⟨?_, .inr htrunc.2⟩
    split at hs
    · split at hs
      · cases hs
        exact .of_same rfl rfl rfl
      · have hmod : Keeps s (s.modifyNode n fun x => { x with size := 0 }) := .of_same rfl rfl rfl
        exact (hmod.trans (keeps_record _ n)).trans (openHandle_keeps hs).1
    · exact (openHandle_keeps hs).1
  · obtain ⟨hk, hl⟩ := openHandle_keeps hs
    exact ⟨hk, .inl hl⟩

theorem keeps_sysOpen {s s' : FileState} {r : OpenInput} (hs : sysOpen s r = some s') : Keeps s s' := by
  have hfail : ∀ e, some (s.fail e) = some s' → Keeps s s' := fun e he => by
    cases he
    exact .of_same rfl rfl rfl
  unfold sysOpen at hs
  split at hs
  · exact hfail _ hs
  split at hs
  · split at hs
    · split at hs
      · exact hfail _ hs
      split at hs
      · exact (nodeCreated_keeps hs).1
      · rename_i n x _
        have hmod : Keeps s (s.modifyNode n fun _ => x) := .of_same rfl rfl rfl
        exact hmod.trans (nodeCreated_keeps hs).1
    · exact hfail _ hs
  · split at hs
    · exact hfail _ hs
    split at hs
    · exact hfail _ hs
    · exact (nodeCreated_keeps hs).1

/-! ## Reading and writing -/

theorem keeps_read {s : FileState} {h : HandleId} {x : FileHandle} (hx : s.handle h = some x)
    (hacc : x.flags &&& 3 ≠ oWronly) : Keeps s (s.record (.read h)) := by
  refine ⟨Nat.le_refl _, fun _ _ y hy => ⟨y, hy, rfl⟩, [.read h], rfl, fun k _ => ⟨fun hm => ?_, fun hm => ?_⟩⟩
  · cases mem_singleton.mp hm
    exact ⟨x, hx, hacc⟩
  · exact nomatch mem_singleton.mp hm

theorem keeps_write {s : FileState} {h : HandleId} {x : FileHandle} (hx : s.handle h = some x)
    (hacc : x.flags &&& 3 ≠ oRdonly) : Keeps s (s.record (.write h)) := by
  refine ⟨Nat.le_refl _, fun _ _ y hy => ⟨y, hy, rfl⟩, [.write h], rfl, fun k _ => ⟨fun hm => ?_, fun hm => ?_⟩⟩
  · exact nomatch mem_singleton.mp hm
  · cases mem_singleton.mp hm
    exact ⟨x, hx, hacc⟩

theorem keeps_ideSubmit {s s' : FileState} {w : DiskWork} {io : IoInput} (hs : ideSubmit s w io = some s') :
    Keeps s s' := by
  unfold ideSubmit at hs
  split at hs
  · cases hs
  · cases hs
    exact .of_same rfl rfl rfl

theorem keeps_sysRead {s s' : FileState} {fd : Nat} {io : IoInput} (hs : sysRead s fd io = some s') :
    Keeps s s' := by
  have hquiet : ∀ e, some { s with errno := e } = some s' → Keeps s s' := fun e he => by
    cases he
    exact .of_same rfl rfl rfl
  unfold sysRead at hs
  split at hs
  · exact hquiet _ hs
  split at hs
  · split at hs
    · exact hquiet _ hs
    · exact hquiet _ hs
  rename_i h _
  obtain ⟨x, hx, hs⟩ := bind_eq_some_iff.mp hs
  split at hs
  · exact hquiet _ hs
  rename_i hacc
  obtain ⟨n, -, hs⟩ := bind_eq_some_iff.mp hs
  split at hs
  · exact (keeps_read hx hacc).trans (keeps_ideSubmit hs)
  split at hs
  · exact hquiet _ hs
  split at hs
  · exact hquiet _ hs
  split at hs
  · exact hquiet _ hs
  · cases hs
    have hmod := keeps_modifyHandle (s.record (.read h)) h
      (f := fun x => { x with offset := (x.offset + io.value.toNat) % 2 ^ 32 }) fun _ => rfl
    exact ((keeps_read hx hacc).trans hmod).trans (.of_same rfl rfl rfl)

theorem keeps_sysWrite {s s' : FileState} {fd : Nat} {io : IoInput} (hs : sysWrite s fd io = some s') :
    Keeps s s' := by
  have hquiet : ∀ e, some { s with errno := e } = some s' → Keeps s s' := fun e he => by
    cases he
    exact .of_same rfl rfl rfl
  unfold sysWrite at hs
  split at hs
  · exact hquiet _ hs
  split at hs
  · split at hs
    · exact hquiet _ hs
    · exact hquiet _ hs
  rename_i h _
  obtain ⟨x, hx, hs⟩ := bind_eq_some_iff.mp hs
  split at hs
  · exact hquiet _ hs
  rename_i hacc
  obtain ⟨n, -, hs⟩ := bind_eq_some_iff.mp hs
  split at hs
  · split at hs
    · exact hquiet _ hs
    split at hs
    · exact hquiet _ hs
    · exact (keeps_write hx hacc).trans (keeps_ideSubmit hs)
  · -- `O_APPEND` moves the offset before anything can fail
    have happend : ∀ (c : Prop) [Decidable c], Keeps s (if c then s.modifyHandle h fun x =>
        { x with offset := (s.node n).size } else s) := by
      intro c _
      split
      · exact keeps_modifyHandle s h fun _ => rfl
      · exact .refl s
    dsimp only at hs
    have hk := happend (x.flags &&& oAppend ≠ 0)
    generalize hs1 : (if x.flags &&& oAppend ≠ 0 then s.modifyHandle h fun x =>
      { x with offset := (s.node n).size } else s) = s1 at hs hk
    split at hs
    · cases hs
      exact hk.trans (.of_same rfl rfl rfl)
    split at hs
    · cases hs
      exact hk.trans (.of_same rfl rfl rfl)
    split at hs
    · cases hs
      exact hk.trans (.of_same rfl rfl rfl)
    · cases hs
      have hx1 : ∃ y, s1.handle h = some y ∧ y.flags = x.flags := by
        rw [← hs1]
        split
        · exact ⟨{ x with offset := (s.node n).size }, by
            show update s.handle h ((s.handle h).map _) h = _
            rw [update_self, hx]; rfl, rfl⟩
        · exact ⟨x, hx, rfl⟩
      obtain ⟨y, hy, hflags⟩ := hx1
      have hmod := keeps_modifyHandle (s1.record (.write h)) h
        (f := fun x => { x with offset := (x.offset + io.value.toNat) % 2 ^ 32 }) fun _ => rfl
      exact ((hk.trans (keeps_write hy (hflags ▸ hacc))).trans hmod).trans (.of_same rfl rfl rfl)

theorem keeps_ideProcessWork {s s' : FileState} {io : IoInput} (hs : ideProcessWork s io = some s') :
    Keeps s s' := by
  unfold ideProcessWork at hs
  split at hs
  · cases hs
  rename_i w ws _
  obtain ⟨x, -, hs⟩ := bind_eq_some_iff.mp hs
  obtain ⟨n, -, hs⟩ := map_eq_some_iff.mp hs
  have hpop : Keeps s { s with work := ws } := .of_same rfl rfl rfl
  have hanswer : ∀ (e : FileState) v, Keeps e { e with eax := update e.eax w.task v } :=
    fun _ _ => .of_same rfl rfl rfl
  have hadvance : ∀ e : FileState, Keeps e (e.modifyHandle w.handle fun x =>
      { x with offset := (x.offset + io.value.toNat) % 2 ^ 32 }) := fun e => keeps_modifyHandle e _ fun _ => rfl
  have hnode : ∀ (e : FileState) f, Keeps e (e.modifyNode n f) := fun _ _ => .of_same rfl rfl rfl
  have happend : ∀ (e : FileState) (c : Prop) [Decidable c] m,
      Keeps e (if c then e.modifyHandle w.handle fun x => { x with offset := m } else e) := by
    intro e c _ m
    split
    · exact keeps_modifyHandle e _ fun _ => rfl
    · exact .refl e
  dsimp only at hs
  split at hs
  · split at hs
    · exact hs ▸ hpop.trans (hanswer _ _)
    split at hs
    · exact hs ▸ hpop.trans (hanswer _ _)
    split at hs
    · exact hs ▸ hpop.trans (hanswer _ _)
    · exact hs ▸ (hpop.trans (hadvance _)).trans (hanswer _ _)
  · have hoffset := hpop.trans (happend _ (w.flags &&& oAppend ≠ 0) (s.node n).size)
    split at hs
    · exact hs ▸ hoffset.trans (hanswer _ _)
    · exact hs ▸ ((hoffset.trans (hadvance _)).trans (hnode _ _)).trans (hanswer _ _)

/-! ## Every call -/

theorem keeps_sysLseek {s s' : FileState} {fd : Nat} {offset : Int} {whence : Nat}
    (hs : sysLseek s fd offset whence = some s') : Keeps s s' := by
  unfold sysLseek at hs
  split at hs
  · cases hs
    exact keeps_closeAll s _
  split at hs
  · cases hs
    exact keeps_closeAll s _
  rename_i h _
  obtain ⟨x, -, hs⟩ := bind_eq_some_iff.mp hs
  obtain ⟨n, -, hs⟩ := map_eq_some_iff.mp hs
  dsimp only at hs
  have hfail : Keeps s (s.fail einval) := .of_same rfl rfl rfl
  have hmove : ∀ m e, Keeps s { s.modifyHandle h fun x => { x with offset := m } with errno := e } := fun m e =>
    (keeps_modifyHandle s h (f := fun x => { x with offset := m }) fun _ => rfl).trans (.of_same rfl rfl rfl)
  have hmoved : ∀ base : Nat, Keeps s (if (base : Int) + offset < 0 then s.fail einval
      else { s.modifyHandle h fun x => { x with offset := ((base : Int) + offset).toNat % 2 ^ 32 } with
        errno := (BitVec.ofNat 32 (((base : Int) + offset).toNat % 2 ^ 32)).toInt }) := by
    intro base
    split
    · exact hfail
    · exact hmove _ _
  split at hs
  · exact hs ▸ hmoved _
  · exact hs ▸ keeps_closeAll s _

theorem keeps_sysClose (s : FileState) (fd : Nat) : Keeps s (sysClose s fd) := by
  unfold sysClose
  split
  · exact .of_same rfl rfl rfl
  · exact keeps_closeFd s _ fd

theorem keeps_share (s : FileState) (h : HandleId) :
    Keeps s (s.modifyHandle h fun x => { x with refcount := x.refcount + 1 }) :=
  keeps_modifyHandle s h fun _ => rfl

theorem keeps_sysDup (s : FileState) (oldfd newfd : Int) : Keeps s (sysDup s oldfd newfd) := by
  unfold sysDup
  split
  · exact .of_same rfl rfl rfl
  split
  · exact .of_same rfl rfl rfl
  rename_i h _
  split
  · split
    · exact .of_same rfl rfl rfl
    · rename_i ha
      exact (keeps_allocFd ha).trans (.of_same rfl rfl rfl)
  split
  · exact .of_same rfl rfl rfl
  split
  · exact .of_same rfl rfl rfl
  · have hset : ∀ e : FileState, Keeps e (e.setFd s.current newfd.toNat (some h)) := fun _ => .of_same rfl rfl rfl
    exact (((keeps_closeFd s _ _).trans (hset _)).trans (keeps_share _ h)).trans (.of_same rfl rfl rfl)

theorem keeps_taskFork (s : FileState) (child : Tid) : Keeps s (taskFork s child) := by
  have hcopy : Keeps s { s with
      cred := update s.cred child s.proc
      fdTable := update s.fdTable child (s.fdTable s.current) } := .of_same rfl rfl rfl
  refine hcopy.trans (.foldl (fun e fd => ?_) _ _)
  split
  · exact .refl e
  · exact keeps_share e _

theorem keeps_makeFd (s : FileState) (node : NodeId) (flags : BitVec 32) : Keeps s (makeFd s node flags) := by
  unfold makeFd
  dsimp only
  split
  · exact .of_same rfl rfl rfl
  · rename_i ha
    exact ((keeps_newHandle s _).trans (keeps_allocFd ha)).trans (.of_same rfl rfl rfl)

/-- Credentials and modes change without a look at the handles. -/
theorem keeps_credentials (s : FileState) : (∀ u, Keeps s (sysSetuid s u)) ∧ (∀ g, Keeps s (sysSetgid s g)) ∧
    (∀ u, Keeps s (sysSeteuid s u)) ∧ (∀ g, Keeps s (sysSetegid s g)) ∧ (∀ l, Keeps s (sysSetgroups s l)) ∧
      (∀ n m, Keeps s (sysChmod s n m)) ∧ ∀ n u g, Keeps s (sysChown s n u g) := by
  refine ⟨fun u => ?_, fun g => ?_, fun u => ?_, fun g => ?_, fun l => ?_, fun n m => ?_, fun n u g => ?_⟩
  · unfold sysSetuid
    split_ifs <;> exact .of_same rfl rfl rfl
  · unfold sysSetgid
    split_ifs <;> exact .of_same rfl rfl rfl
  · unfold sysSeteuid
    split_ifs <;> exact .of_same rfl rfl rfl
  · unfold sysSetegid
    split_ifs <;> exact .of_same rfl rfl rfl
  · unfold sysSetgroups
    split_ifs <;> exact .of_same rfl rfl rfl
  · cases n with
    | none => exact .of_same rfl rfl rfl
    | some n =>
      unfold sysChmod
      dsimp only
      split_ifs <;> exact .of_same rfl rfl rfl
  · cases n with
    | none => exact .of_same rfl rfl rfl
    | some n =>
      unfold sysChown
      dsimp only
      split_ifs <;> exact .of_same rfl rfl rfl

theorem Keeps.step {s s' : FileState} {op : Op} (hs : step s op = some s') : Keeps s s' := by
  obtain ⟨huid, hgid, heuid, hegid, hgroups, hmode, howner⟩ := keeps_credentials s
  unfold Files.step at hs
  cases op with
  | «open» r => exact keeps_sysOpen hs
  | read fd io => exact keeps_sysRead hs
  | write fd io => exact keeps_sysWrite hs
  | lseek fd offset whence => exact keeps_sysLseek hs
  | close fd => exact Option.some.inj hs ▸ keeps_sysClose s fd
  | dup oldfd newfd => exact Option.some.inj hs ▸ keeps_sysDup s oldfd newfd
  | fork child => exact Option.some.inj hs ▸ keeps_taskFork s child
  | exit => exact Option.some.inj hs ▸ keeps_closeAll s s.current
  | make node flags => exact Option.some.inj hs ▸ keeps_makeFd s node flags
  | work io => exact keeps_ideProcessWork hs
  | setuid uid => exact Option.some.inj hs ▸ huid uid
  | setgid gid => exact Option.some.inj hs ▸ hgid gid
  | seteuid euid => exact Option.some.inj hs ▸ heuid euid
  | setegid egid => exact Option.some.inj hs ▸ hegid egid
  | setgroups groups => exact Option.some.inj hs ▸ hgroups groups
  | exec node => exact Option.some.inj hs ▸ .of_same rfl rfl rfl
  | chmod node mode => exact Option.some.inj hs ▸ hmode node mode
  | chown node uid gid => exact Option.some.inj hs ▸ howner node uid gid
  | switch t => exact Option.some.inj hs ▸ .of_same rfl rfl rfl

theorem Keeps.exec : ∀ {ops : List Op} {s s' : FileState}, Run.exec Files.step s ops = some s' → Keeps s s'
  | [], s, _, he => Option.some.inj he ▸ .refl s
  | op :: ops, s, s', he => by
    obtain ⟨t, ht, he⟩ := bind_eq_some_iff.mp he
    exact (Keeps.step ht).trans (Keeps.exec he)

/-! ## The law -/

/-- The access bits, one of four. -/
theorem access_cases (flags : BitVec 32) :
    flags &&& 3 = 0 ∨ flags &&& 3 = 1 ∨ flags &&& 3 = 2 ∨ flags &&& 3 = 3 := by
  have hnat : (flags &&& 3).toNat = flags.toNat % 4 := by
    rw [BitVec.toNat_and]
    exact Nat.and_two_pow_sub_one_eq_mod flags.toNat 2
  have hlt : (flags &&& 3).toNat < 4 := hnat ▸ Nat.mod_lt _ (by decide)
  generalize flags &&& 3 = acc at hlt
  rcases acc with ⟨⟨v, hv⟩⟩
  have hv4 : v < 4 := hlt
  match v, hv4 with
  | 0, _ => exact .inl rfl
  | 1, _ => exact .inr (.inl rfl)
  | 2, _ => exact .inr (.inr (.inl rfl))
  | 3, _ => exact .inr (.inr (.inr rfl))

theorem wanted_read {flags : BitVec 32} (h1 : flags &&& 3 ≠ oWronly) (h3 : flags &&& 3 ≠ 3) :
    permRead &&& wanted flags = permRead := by
  unfold wanted
  rcases access_cases flags with h | h | h | h
  · rw [h]; decide
  · exact absurd h h1
  · rw [h]; decide
  · exact absurd h h3

theorem wanted_write {flags : BitVec 32} (h0 : flags &&& 3 ≠ oRdonly) (h3 : flags &&& 3 ≠ 3) :
    permWrite &&& wanted flags = permWrite := by
  unfold wanted
  rcases access_cases flags with h | h | h | h
  · exact absurd h h0
  · rw [h]; decide
  · rw [h]; decide
  · exact absurd h h3

/-- Who may do more may do less. -/
theorem vfsCheckPermission_mono {node : VfsNode} {proc : Cred} {want less : BitVec 32}
    (h : vfsCheckPermission node proc want = 0) (hless : less &&& want = less) :
    vfsCheckPermission node proc less = 0 := by
  unfold vfsCheckPermission at h ⊢
  by_cases hroot : proc.euid = 0
  · rw [if_pos hroot]
  rw [if_neg hroot] at h ⊢
  by_cases hmode : node.mode = 0
  · rw [if_pos hmode]
  rw [if_neg hmode] at h ⊢
  dsimp only at h ⊢
  generalize (if proc.euid = node.uid then node.mode >>> 6 &&& 7
    else if procInGroup proc node.gid = true then node.mode >>> 3 &&& 7 else node.mode &&& 7) = perm at h ⊢
  by_cases hp : perm &&& want = want
  · refine if_pos ?_
    calc perm &&& less = less &&& (perm &&& want) := by
          rw [← BitVec.and_assoc, BitVec.and_comm less perm, BitVec.and_assoc, hless]
      _ = less := by rw [hp, hless]
  · rw [if_neg hp] at h
    cases h

/-- What a call of `sys_open` that returned the handle `h` for the node `n` lets through. -/
structure Lawful (s s' : FileState) (n : NodeId) (h : HandleId) : Prop where
  read : ∀ ops t new, Run.exec Files.step s' ops = some t → t.log = new ++ s'.log → .read h ∈ new →
    vfsCheckPermission (s.node n) s.proc permRead = 0
  write : ∀ ops t new, Run.exec Files.step s' ops = some t → t.log = new ++ s'.log → .write h ∈ new →
    vfsCheckPermission (s.node n) s.proc permWrite = 0
  truncate : ∀ new, s'.log = new ++ s.log → .truncate n ∈ new →
    vfsCheckPermission (s.node n) s.proc permWrite = 0

/-- The handle that a call returned, with its descriptor. -/
structure Returned (s s' : FileState) (flags : BitVec 32) (n : NodeId) (fd : Nat) : Prop where
  current : s'.current = s.current
  next : s'.nextHandle = s.nextHandle + 1
  handle : ∃ x, s'.handle s.nextHandle = some x ∧ x.flags = flags ∧ x.node = some n
  fd : fd < fdMax ∧ s'.fdTable s.current fd = some s.nextHandle

theorem fail_errno {s s' : FileState} {e : Int} (he : 0 < e) (h : some (s.fail e) = some s') : s'.errno < 0 := by
  cases h
  show -e < 0
  omega

theorem openHandle_returned {s s' : FileState} {n : NodeId} {r : OpenInput}
    (hs : openHandle s (some n) r = some s') (hfd : 0 ≤ s'.errno) : ∃ fd, Returned s s' r.flags n fd := by
  unfold openHandle at hs
  split at hs
  · exact absurd hfd (Int.not_le.mpr (fail_errno (by decide) hs))
  obtain ⟨offset, -, hs⟩ := map_eq_some_iff.mp hs
  dsimp only at hs
  split at hs
  · exact absurd hfd (Int.not_le.mpr (fail_errno (by decide) (congrArg some hs)))
  rename_i fd s2 ha
  obtain ⟨i, hi, heq⟩ := map_eq_some_iff.mp ha
  cases heq
  subst hs
  have hlt : fd < fdMax := mem_range.mp (mem_of_find?_eq_some hi)
  refine ⟨fd, rfl, rfl, ?_, hlt, ?_⟩
  · refine ⟨{ node := some n, flags := r.flags, offset := offset, refcount := 1 }, ?_, rfl, rfl⟩
    unfold FileState.modifyHandle FileState.setFd
    dsimp only
    rw [update_self, update_self]
    rfl
  · unfold FileState.modifyHandle FileState.setFd
    dsimp only
    rw [update_self, update_self]

theorem nodeCreated_returned {s s' : FileState} {n : NodeId} {r : OpenInput}
    (hs : nodeCreated s (some n) r = some s') (hfd : 0 ≤ s'.errno) : ∃ fd, Returned s s' r.flags n fd := by
  unfold nodeCreated at hs
  split at hs
  · rw [bind_some] at hs
    split at hs
    · split at hs
      · exact absurd hfd (Int.not_le.mpr (fail_errno (by decide) hs))
      · obtain ⟨fd, hcur, hnext, hh, hfd⟩ := openHandle_returned hs hfd
        exact ⟨fd, hcur, hnext, hh, hfd⟩
    · exact openHandle_returned hs hfd
  · exact openHandle_returned hs hfd

/-- A handle for an existing file: the permissions asked for were granted. -/
theorem sysOpen_existing {s s' : FileState} {r : OpenInput} {n : NodeId} (hn : r.opened = some n)
    (hs : sysOpen s r = some s') (hfd : 0 ≤ s'.errno) :
    (wanted r.flags = 0 ∨ vfsCheckPermission (s.node n) s.proc (wanted r.flags) = 0) ∧
      nodeCreated s (some n) r = some s' := by
  unfold sysOpen at hs
  split at hs
  · exact absurd hfd (Int.not_le.mpr (fail_errno (by decide) hs))
  rw [hn] at hs
  dsimp only at hs
  split at hs
  · exact absurd hfd (Int.not_le.mpr (fail_errno (by decide) hs))
  split at hs
  · exact absurd hfd (Int.not_le.mpr (fail_errno (by decide) hs))
  · rename_i hperm
    refine ⟨?_, hs⟩
    by_cases hw : wanted r.flags = 0
    · exact .inl hw
    · exact .inr (not_not.mp fun hp => hperm ⟨hw, hp⟩)

/-- A read through the handle that the file system answers. -/
theorem read_returned {s s' : FileState} {flags : BitVec 32} {n : NodeId} {fd : Nat}
    (h : Returned s s' flags n fd) (hacc : flags &&& 3 ≠ oWronly) :
    ∃ t, Run.exec Files.step s' [.read fd ⟨true, 0, 0, false, false⟩] = some t ∧
      t.log = [.read s.nextHandle] ++ s'.log := by
  obtain ⟨x, hx, hflags, hnode⟩ := h.handle
  obtain ⟨hlt, htable⟩ := h.fd
  have hread : ∃ t, sysRead s' fd ⟨true, 0, 0, false, false⟩ = some t ∧ t.log = .read s.nextHandle :: s'.log := by
    unfold sysRead
    rw [if_neg (Nat.not_le.mpr hlt), h.current, htable]
    dsimp only
    rw [hx, bind_some, hflags, if_neg hacc, hnode, bind_some]
    split
    · exact ⟨_, rfl, rfl⟩
    · exact ⟨_, rfl, rfl⟩
  obtain ⟨t, ht, hlog⟩ := hread
  refine ⟨t, ?_, hlog⟩
  show (sysRead s' fd _).bind _ = _
  rw [ht]
  rfl

theorem write_returned {s s' : FileState} {flags : BitVec 32} {n : NodeId} {fd : Nat}
    (h : Returned s s' flags n fd) (hacc : flags &&& 3 ≠ oRdonly) :
    ∃ t, Run.exec Files.step s' [.write fd ⟨true, 0, 0, false, false⟩] = some t ∧
      t.log = [.write s.nextHandle] ++ s'.log := by
  obtain ⟨x, hx, hflags, hnode⟩ := h.handle
  obtain ⟨hlt, htable⟩ := h.fd
  have hwrite : ∃ t, sysWrite s' fd ⟨true, 0, 0, false, false⟩ = some t ∧ t.log = .write s.nextHandle :: s'.log := by
    unfold sysWrite
    rw [if_neg (Nat.not_le.mpr hlt), h.current, htable]
    dsimp only
    rw [hx, bind_some, hflags, if_neg hacc, hnode, bind_some]
    split
    · exact ⟨_, rfl, rfl⟩
    · refine ⟨_, rfl, ?_⟩
      show _ :: (FileState.log _) = _
      split
      · rfl
      · rfl
  obtain ⟨t, ht, hlog⟩ := hwrite
  refine ⟨t, ?_, hlog⟩
  show (sysWrite s' fd _).bind _ = _
  rw [ht]
  rfl

/-- A handle for an existing file is good for nothing that was not checked, exactly if the
access bits are not both set or both accesses would have been granted. -/
theorem lawful_iff {s s' : FileState} {r : OpenInput} {n : NodeId} (hn : r.opened = some n)
    (hs : sysOpen s r = some s') (hfd : 0 ≤ s'.errno) :
    Lawful s s' n s.nextHandle ↔ r.flags &&& 3 ≠ 3 ∨
      (vfsCheckPermission (s.node n) s.proc permRead = 0 ∧
        vfsCheckPermission (s.node n) s.proc permWrite = 0) := by
  obtain ⟨hgrant, hopen⟩ := sysOpen_existing hn hs hfd
  obtain ⟨fd, hret⟩ := nodeCreated_returned hopen hfd
  obtain ⟨x, hx, hflags, -⟩ := hret.handle
  constructor
  · intro hlaw
    by_cases h3 : r.flags &&& 3 = 3
    · refine .inr ⟨?_, ?_⟩
      · obtain ⟨t, ht, hlog⟩ := read_returned hret (by rw [h3]; decide)
        exact hlaw.read _ t _ ht hlog (List.mem_singleton.mpr rfl)
      · obtain ⟨t, ht, hlog⟩ := write_returned hret (by rw [h3]; decide)
        exact hlaw.write _ t _ ht hlog (List.mem_singleton.mpr rfl)
    · exact .inl h3
  · intro hcond
    -- whatever the access bits allow was among the permissions checked
    have hread : r.flags &&& 3 ≠ oWronly → vfsCheckPermission (s.node n) s.proc permRead = 0 := by
      intro hacc
      rcases hcond with h3 | hboth
      · have hsub := wanted_read hacc h3
        refine vfsCheckPermission_mono (hgrant.resolve_left fun h0 => ?_) hsub
        rw [h0] at hsub
        exact absurd hsub (by decide)
      · exact hboth.1
    have hwrite : r.flags &&& 3 ≠ oRdonly → vfsCheckPermission (s.node n) s.proc permWrite = 0 := by
      intro hacc
      rcases hcond with h3 | hboth
      · have hsub := wanted_write hacc h3
        refine vfsCheckPermission_mono (hgrant.resolve_left fun h0 => ?_) hsub
        rw [h0] at hsub
        exact absurd hsub (by decide)
      · exact hboth.2
    have hlt : s.nextHandle < s'.nextHandle := hret.next ▸ Nat.lt_succ_self _
    refine ⟨fun ops t new ht hlog hm => ?_, fun ops t new ht hlog hm => ?_, fun new hlog hm => ?_⟩
    · obtain ⟨new', hnew, hacc⟩ := (Keeps.exec ht).log
      have heq : new = new' := List.append_cancel_right (hlog.symm.trans hnew)
      obtain ⟨y, hy, hne⟩ := (hacc _ hlt).1 (heq ▸ hm)
      rw [hx] at hy
      cases hy
      exact hread (hflags ▸ hne)
    · obtain ⟨new', hnew, hacc⟩ := (Keeps.exec ht).log
      have heq : new = new' := List.append_cancel_right (hlog.symm.trans hnew)
      obtain ⟨y, hy, hne⟩ := (hacc _ hlt).2 (heq ▸ hm)
      rw [hx] at hy
      cases hy
      exact hwrite (hflags ▸ hne)
    · rcases (nodeCreated_keeps hopen).2 with hsame | hacc
      · have hnil : new = [] := List.append_cancel_right (hlog.symm.trans hsame)
        rw [hnil] at hm
        cases hm
      · exact hwrite hacc

/-! ## Both access bits -/

/-- Task 1 is user 1000, and node 1 a file of root's that only root may read or write. -/
def secretFile : FileState :=
  { node := fun _ => { size := 16, flags := vfsFlagFile, uid := 0, gid := 0, mode := 0x8180 }
    handle := fun _ => none
    nextHandle := 0
    cred := fun _ => { uid := 1000, gid := 1000, euid := 1000, egid := 1000, groups := [] }
    fdTable := fun _ _ => none
    current := 1
    errno := 0
    eax := fun _ => 0
    work := []
    log := [] }

def openSecret (flags : BitVec 32) : OpenInput :=
  { flags := flags, absPath := true, opened := some 1, parent := none, created := none, truncate := 0, malloc := true }

/-- With both bits set nothing is asked for, and the file is read. -/
theorem not_always_lawful : ¬∀ s s' r n, r.opened = some n → (s.cred s.current).euid ≠ 0 →
    sysOpen s r = some s' → 0 ≤ s'.errno → Lawful s s' n s.nextHandle := by
  intro h
  have hopen : ∃ t, sysOpen secretFile (openSecret 3) = some t ∧ 0 ≤ t.errno := ⟨_, rfl, by decide⟩
  obtain ⟨t, ht, hfd⟩ := hopen
  have hlaw := h secretFile t (openSecret 3) 1 rfl (by decide) ht hfd
  obtain ⟨fd, hret⟩ := nodeCreated_returned (sysOpen_existing rfl ht hfd).2 hfd
  obtain ⟨u, hu, hlog⟩ := read_returned hret (by decide)
  exact absurd (hlaw.read _ u _ hu hlog (List.mem_singleton.mpr rfl)) (by decide)

def ownFile : FileState :=
  { secretFile with node := fun _ => { size := 16, flags := vfsFlagFile, uid := 1000, gid := 0, mode := 0x8180 } }

/-- The file's owner opens it for reading. -/
theorem lawful_iff_owner : ∃ t, sysOpen ownFile (openSecret 0) = some t ∧ Lawful ownFile t 1 0 := by
  have hopen : ∃ t, sysOpen ownFile (openSecret 0) = some t ∧ 0 ≤ t.errno := ⟨_, rfl, by decide⟩
  obtain ⟨t, ht, hfd⟩ := hopen
  have hn : (openSecret 0).opened = some 1 := rfl
  exact ⟨t, ht, (lawful_iff hn ht hfd).mpr (.inl (by decide))⟩

end Serotonin.Files
