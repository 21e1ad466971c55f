import Serotonin.Lib.ByteMem
import Serotonin.Vmm.Refinement

/-! Copies between the kernel and user memory. `copy_to_user` and `copy_from_user` look at
the pages of the address space one by one; a store through a user pointer goes wherever the
processor's walk leads, and in kernel mode that is any page that is present. -/

namespace Serotonin.Syscall

open List
open ByteMem (Mem u32)

def userSpaceStart : Nat := 0x00400000
def userSpaceEnd : Nat := 0xBFFFFFFF
def pageSize : Nat := 4096

/-- A page that is present: where it lies in physical memory, and whether user code may
use it. -/
structure Page where
  frame : Nat
  user : Bool
deriving DecidableEq

def Page.Covers (p : Page) (x : Nat) : Prop := p.frame ≤ x ∧ x < p.frame + pageSize

/-- The pages of an address space by number. What lies in user space is mapped there for
user code, by `map_page` with `USER_PAGE_FLAGS`. -/
structure Space where
  page : Nat → Option Page
  user_of_range : ∀ n p, page n = some p → userSpaceStart ≤ n * pageSize → n * pageSize ≤ userSpaceEnd →
    p.user = true ∧ p.frame ≠ 0

/-- Is the address in a page for user code? -/
def Space.User (sp : Space) (a : Nat) : Prop := ∃ p, sp.page (a / pageSize) = some p ∧ p.user = true

/-- `stores` and `refused` are no part of the kernel: the bytes stored through user
addresses so far, each with its page, and whether `copy_to_user` returned -1. -/
structure Machine where
  mem : Mem
  stores : List (Nat × Page)
  refused : Bool

/-- The kernel at work. It has no result where it panics. -/
abbrev UserM := StateT Machine Option

def getMapping (sp : Space) (va : Nat) : Nat :=
  match sp.page (va / pageSize) with
  | some p => p.frame
  | none => 0

/-- The walk of the processor through a page directory. A page is for user code where both
entries say so. -/
def walk (m : Vmm.Memory) (d : UInt32) (n : Nat) : Option Page :=
  (Vmm.table m d (n / 1024)).bind fun t =>
    (Vmm.table m t (n % 1024)).map fun frame =>
      { frame := frame.toNat
        user := m d (n / 1024) &&& Vmm.pageUser != 0 && m t (n % 1024) &&& Vmm.pageUser != 0 }

/-- The directory that maps one page, as user code sees it. -/
def mappedOne : Space where
  page := walk Vmm.twoDirs.mem 0x101000
  user_of_range n p hp _ hhi := by
    obtain ⟨t, ht, hp⟩ := Option.bind_eq_some_iff.mp hp
    obtain ⟨f, hf, rfl⟩ := Option.map_eq_some_iff.mp hp
    have hi : n / 1024 < Vmm.kmapPdeBase := by
      unfold userSpaceEnd pageSize at hhi
      unfold Vmm.kmapPdeBase
      omega
    obtain ⟨-, h1, rfl⟩ := Vmm.twoDirs_table (.inr rfl) hi ht
    obtain ⟨hpresent, rfl⟩ := Vmm.table_eq_some.mp hf
    have h0 : n % 1024 = 0 := by
      by_contra hne
      simp [Vmm.twoDirs, hne, Vmm.present_zero] at hpresent
    rw [h0, h1]
    decide +kernel

def Machine.refuse (s : Machine) : Machine := { s with refused := true }

/-- Bytes stored in one page, from the user address `a` on. -/
def Machine.write (s : Machine) (p : Page) (a : Nat) (bytes : List UInt8) : Machine :=
  { s with
    mem := ByteMem.blit s.mem (p.frame + a % pageSize) (fun i => bytes.getD i 0) 0 bytes.length
    stores := (List.range bytes.length).map (fun i => (a + i, p)) ++ s.stores }

/-- The loop of `copy_to_user`; `n` bounds its rounds. -/
def copyToUserLoop (sp : Space) : Nat → Nat → List UInt8 → Machine → Bool × Machine
  | 0, _, _, s => (true, s)
  | n + 1, dst, src, s =>
    if src = [] then (true, s)
    else match sp.page (dst / pageSize) with
    | none => (false, s.refuse)
    | some p =>
      if p.frame = 0 then (false, s.refuse)
      else
        let chunk := min (pageSize - dst % pageSize) src.length
        copyToUserLoop sp n (dst + chunk) (src.drop chunk) (s.write p dst (src.take chunk))

/-- Does the range lie in user space, as both copies check it? -/
def inUserSpace (a len : Nat) : Bool :=
  !(decide (a < userSpaceStart) || decide (userSpaceEnd < a)) &&
    !(decide (u32 (a + len - 1) < a) || decide (userSpaceEnd < u32 (a + len - 1)))

/-- True for a return value of 0. -/
def copyToUser (sp : Space) (dst : Nat) (src : List UInt8) : UserM Bool := fun s =>
  let len := u32 src.length
  if len = 0 then some (true, s)
  else if inUserSpace dst len then some (copyToUserLoop sp len dst (src.take len) s)
  else some (false, s.refuse)

def copyFromUserLoop (sp : Space) (mem : Mem) : Nat → Nat → Nat → Option (List UInt8)
  | 0, _, _ => some []
  | n + 1, src, len =>
    if len = 0 then some []
    else if getMapping sp src = 0 then none
    else
      let chunk := min (pageSize - src % pageSize) len
      (copyFromUserLoop sp mem n (src + chunk) (len - chunk)).map
        ((List.range chunk).map (fun i => mem (getMapping sp src + src % pageSize + i)) ++ ·)

/-- The bytes, where the return value is 0. -/
def copyFromUser (sp : Space) (src len : Nat) : UserM (Option (List UInt8)) := fun s =>
  if len = 0 then some (some [], s)
  else if inUserSpace src len then some (copyFromUserLoop sp s.mem len src len, s)
  else some (none, s)

/-- A store of the kernel through a user pointer. It panics on a page that is not present. -/
def storeUser (sp : Space) : Nat → List UInt8 → UserM Unit
  | _, [] => pure ()
  | a, b :: bytes => do
    match sp.page (u32 a / pageSize) with
    | none => failure
    | some p =>
      modify (·.write p (u32 a) [b])
      storeUser sp (a + 1) bytes

/-! ## What a copy does -/

/-- From `s` to `s'` the kernel stored in user pages only. -/
structure Within (s s' : Machine) : Prop where
  stores : ∀ st ∈ s'.stores, st ∈ s.stores ∨ st.2.user = true
  log : ∀ st ∈ s.stores, st ∈ s'.stores
  mem : ∀ x, (∀ st ∈ s'.stores, ¬st.2.Covers x) → s'.mem x = s.mem x

theorem Within.refl (s : Machine) : Within s s := ⟨fun _ h => .inl h, fun _ h => h, fun _ _ => rfl⟩

theorem Within.trans {s s' r : Machine} (h : Within s s') (h' : Within s' r) : Within s r := by
  refine ⟨fun st hst => ?_, fun st hst => h'.log st (h.log st hst), fun x hx => ?_⟩
  · obtain hst | hu := h'.stores st hst
    · exact h.stores st hst
    · exact .inr hu
  · rw [h'.mem x hx, h.mem x fun st hst => hx st (h'.log st hst)]

theorem Within.refuse {s s' : Machine} (h : Within s s') : Within s s'.refuse := ⟨h.stores, h.log, h.mem⟩

/-- Every byte of the range is in user space, in a page that is mapped. -/
def Copyable (sp : Space) (a len : Nat) : Prop :=
  ∀ i < len, userSpaceStart ≤ a + i ∧ a + i ≤ userSpaceEnd ∧ (sp.page ((a + i) / pageSize)).isSome = true

theorem inUserSpace_iff {a len : Nat} (h0 : len ≠ 0) (hlen : len < 2 ^ 32) :
    inUserSpace a len = true ↔ userSpaceStart ≤ a ∧ a + len - 1 ≤ userSpaceEnd := by
  unfold inUserSpace u32 userSpaceStart userSpaceEnd
  simp only [Bool.and_eq_true, Bool.not_eq_true', Bool.or_eq_false_iff, decide_eq_false_iff_not, Nat.not_lt]
  omega

theorem copyable_add {sp : Space} {a m n : Nat} :
    Copyable sp a (m + n) ↔ Copyable sp a m ∧ Copyable sp (a + m) n := by
  constructor
  · intro h
    refine ⟨fun i hi => h i (by omega), fun i hi => ?_⟩
    rw [Nat.add_assoc]
    exact h (m + i) (by omega)
  · rintro ⟨hm, hn⟩ i hi
    by_cases him : i < m
    · exact hm i him
    · have hrest := hn (i - m) (by omega)
      rwa [show a + m + (i - m) = a + i by omega] at hrest

/-- The part of a range that lies in the page of its first byte. -/
theorem copyable_split {sp : Space} {a len : Nat} (hlo : userSpaceStart ≤ a) (hhi : a + len - 1 ≤ userSpaceEnd)
    (hpos : 0 < len) :
    Copyable sp a len ↔ (sp.page (a / pageSize)).isSome = true ∧
      Copyable sp (a + min (pageSize - a % pageSize) len) (len - min (pageSize - a % pageSize) len) := by
  have hchunk : Copyable sp a (min (pageSize - a % pageSize) len) ↔ (sp.page (a / pageSize)).isSome = true := by
    constructor
    · intro h
      refine (h 0 ?_).2.2
      unfold pageSize
      omega
    · intro hp i hi
      have hpage : (a + i) / pageSize = a / pageSize := by
        unfold pageSize at hi ⊢
        omega
      rw [hpage]
      exact ⟨by omega, by omega, hp⟩
  rw [← hchunk, ← copyable_add, Nat.add_sub_of_le (Nat.min_le_right _ _)]

theorem within_write {s : Machine} {p : Page} {a : Nat} {bytes : List UInt8} (hp : p.user = true)
    (hpos : bytes ≠ []) (hfit : bytes.length ≤ pageSize - a % pageSize) : Within s (s.write p a bytes) := by
  have hlen : 0 < bytes.length := length_pos_iff.mpr hpos
  refine ⟨fun st hst => ?_, fun st hst => mem_append_right _ hst, fun x hx => ?_⟩
  · obtain hst | hst := mem_append.mp hst
    · obtain ⟨i, -, rfl⟩ := mem_map.mp hst
      exact .inr hp
    · exact .inl hst
  · have hcov := hx (a + 0, p) (mem_append_left _ (mem_map.mpr ⟨0, mem_range.mpr hlen, rfl⟩))
    refine if_neg fun hin => hcov ⟨?_, ?_⟩
    · show p.frame ≤ x
      omega
    · show x < p.frame + pageSize
      omega

theorem page_user {sp : Space} {a : Nat} {p : Page} (hp : sp.page (a / pageSize) = some p)
    (hlo : userSpaceStart ≤ a) (hhi : a ≤ userSpaceEnd) : p.user = true ∧ p.frame ≠ 0 := by
  refine sp.user_of_range _ p hp ?_ ?_
  · unfold userSpaceStart pageSize at *
    omega
  · unfold userSpaceEnd pageSize at *
    omega

theorem copyToUserLoop_spec (sp : Space) (n : Nat) : ∀ (dst : Nat) (src : List UInt8) (s : Machine),
    src.length ≤ n → userSpaceStart ≤ dst → dst + src.length - 1 ≤ userSpaceEnd →
    ∃ b s', copyToUserLoop sp n dst src s = (b, s') ∧ Within s s' ∧
      (b = true → s'.refused = s.refused) ∧ (b = true ↔ Copyable sp dst src.length) ∧
      (b = false → s'.refused = true) := by
  induction n with
  | zero =>
    intro dst src s hn _ _
    refine ⟨true, s, rfl, .refl s, fun _ => rfl, ⟨fun _ i hi => ?_, fun _ => rfl⟩, fun h => nomatch h⟩
    omega
  | succ n ih =>
    intro dst src s hn hlo hhi
    rw [copyToUserLoop]
    by_cases hsrc : src = []
    · subst hsrc
      refine ⟨true, s, rfl, .refl s, fun _ => rfl, ⟨fun _ i hi => ?_, fun _ => rfl⟩, fun h => nomatch h⟩
      exact absurd hi (Nat.not_lt_zero i)
    rw [if_neg hsrc]
    have hpos : 0 < src.length := length_pos_iff.mpr hsrc
    have hsplit : Copyable sp dst src.length ↔ _ := copyable_split hlo hhi hpos
    cases hp : sp.page (dst / pageSize) with
    | none =>
      rw [hp] at hsplit
      refine ⟨false, s.refuse, rfl, (Within.refl s).refuse, fun h => (nomatch h),
        ⟨fun h => (nomatch h), fun h => ?_⟩, fun _ => rfl⟩
      exact absurd (hsplit.mp h).1 (by simp)
    | some p =>
      obtain ⟨huser, hframe⟩ := page_user hp hlo (by omega)
      have hchunk : min (pageSize - dst % pageSize) src.length ≠ 0 := by
        unfold pageSize
        omega
      have hrest := ih (dst + min (pageSize - dst % pageSize) src.length)
        (src.drop (min (pageSize - dst % pageSize) src.length))
        (s.write p dst (src.take (min (pageSize - dst % pageSize) src.length)))
        (by rw [length_drop]; omega) (by omega) (by rw [length_drop]; omega)
      obtain ⟨b, s', heq, hw, hkept, hok, hrefused⟩ := hrest
      refine ⟨b, s', ?_, ?_, hkept, ?_, hrefused⟩
      · dsimp only
        rw [if_neg hframe, heq]
      · refine (within_write huser ?_ ?_).trans hw
        · intro hnil
          have hl := congrArg List.length hnil
          rw [length_take] at hl
          simp only [length_nil] at hl
          omega
        · rw [length_take]
          omega
      · rw [hok, hsplit, hp, length_drop]
        simp

/-- `copy_to_user` stores in user pages only, and returns -1 where the range is not all
mapped. -/
theorem copyToUser_spec (sp : Space) (dst : Nat) (src : List UInt8) (s : Machine) :
    ∃ b s', copyToUser sp dst src s = some (b, s') ∧ Within s s' ∧ (b = true → s'.refused = s.refused) ∧
      (b = true ↔ Copyable sp dst (u32 src.length)) ∧ (b = false → s'.refused = true) := by
  unfold copyToUser
  dsimp only
  have hlt := ByteMem.u32_lt src.length
  have hle : u32 src.length ≤ src.length := Nat.mod_le _ _
  by_cases h0 : u32 src.length = 0
  · rw [if_pos h0, h0]
    exact ⟨true, s, rfl, .refl s, fun _ => rfl, ⟨fun _ i hi => absurd hi (Nat.not_lt_zero i), fun _ => rfl⟩,
      fun h => nomatch h⟩
  rw [if_neg h0]
  have hin := inUserSpace_iff (a := dst) h0 hlt
  by_cases hr : inUserSpace dst (u32 src.length) = true
  · rw [if_pos hr]
    obtain ⟨hlo, hhi⟩ := hin.mp hr
    have htake : (src.take (u32 src.length)).length = u32 src.length := by
      rw [length_take]
      omega
    obtain ⟨b, s', heq, hspec⟩ := copyToUserLoop_spec sp (u32 src.length) dst (src.take (u32 src.length)) s
      (by omega) hlo (by omega)
    rw [htake] at hspec
    exact ⟨b, s', congrArg some heq, hspec⟩
  · rw [if_neg hr]
    refine ⟨false, s.refuse, rfl, (Within.refl s).refuse, fun h => (nomatch h), ⟨fun h => (nomatch h), fun h => ?_⟩,
      fun _ => rfl⟩
    have hfirst := (h 0 (by omega)).1
    have hlast := (h (u32 src.length - 1) (by omega)).2.1
    exact absurd (hin.mpr ⟨by omega, by omega⟩) hr

theorem copyFromUserLoop_isSome (sp : Space) (mem : Mem) (n : Nat) : ∀ src len : Nat,
    len ≤ n → userSpaceStart ≤ src → src + len - 1 ≤ userSpaceEnd →
    ((copyFromUserLoop sp mem n src len).isSome = true ↔ Copyable sp src len) := by
  induction n with
  | zero =>
    intro src len hn _ _
    exact ⟨fun _ i hi => by omega, fun _ => rfl⟩
  | succ n ih =>
    intro src len hn hlo hhi
    rw [copyFromUserLoop]
    by_cases h0 : len = 0
    · subst h0
      exact ⟨fun _ i hi => absurd hi (Nat.not_lt_zero i), fun _ => rfl⟩
    rw [if_neg h0, copyable_split hlo hhi (by omega)]
    have hchunk : min (pageSize - src % pageSize) len ≠ 0 := by
      unfold pageSize
      omega
    cases hp : sp.page (src / pageSize) with
    | none =>
      have hmap : getMapping sp src = 0 := by simp only [getMapping, hp]
      rw [if_pos hmap]
      simp
    | some p =>
      have hmap : getMapping sp src ≠ 0 := by
        simp only [getMapping, hp]
        exact (page_user hp hlo (by omega)).2
      rw [if_neg hmap, Option.isSome_map, ih _ _ (by omega) (by omega) (by omega)]
      simp

theorem copyFromUserLoop_length (sp : Space) (mem : Mem) (n : Nat) : ∀ (src len : Nat) (bytes : List UInt8),
    len ≤ n → copyFromUserLoop sp mem n src len = some bytes → bytes.length = len := by
  induction n with
  | zero =>
    intro src len bytes hn h
    cases h
    exact (Nat.le_zero.mp hn).symm
  | succ n ih =>
    intro src len bytes hn h
    rw [copyFromUserLoop] at h
    split at h
    · cases h
      symm
      assumption
    split at h
    · cases h
    obtain ⟨rest, hrest, rfl⟩ := Option.map_eq_some_iff.mp h
    have hlen := ih _ _ rest (by unfold pageSize; omega) hrest
    rw [length_append, length_map, length_range, hlen]
    omega

/-- `copy_from_user` returns 0 where the range is all mapped, and stores nothing. -/
theorem copyFromUser_spec (sp : Space) (src len : Nat) (hlen : len < 2 ^ 32) (s : Machine) :
    ∃ r, copyFromUser sp src len s = some (r, s) ∧ (r.isSome = true ↔ Copyable sp src len) ∧
      ∀ bytes, r = some bytes → bytes.length = len := by
  unfold copyFromUser
  by_cases h0 : len = 0
  · subst h0
    refine ⟨some [], rfl, ⟨fun _ i hi => absurd hi (Nat.not_lt_zero i), fun _ => rfl⟩, fun bytes h => ?_⟩
    cases h
    rfl
  rw [if_neg h0]
  have hin := inUserSpace_iff (a := src) h0 hlen
  by_cases hr : inUserSpace src len = true
  · obtain ⟨hlo, hhi⟩ := hin.mp hr
    rw [if_pos hr]
    exact ⟨_, rfl, copyFromUserLoop_isSome sp s.mem len src len (Nat.le_refl _) hlo hhi,
      fun bytes => copyFromUserLoop_length sp s.mem len src len bytes (Nat.le_refl _)⟩
  · rw [if_neg hr]
    refine ⟨none, rfl, ⟨fun h => (nomatch h), fun h => ?_⟩, fun _ h => nomatch h⟩
    have hfirst := (h 0 (by omega)).1
    have hlast := (h (len - 1) (by omega)).2.1
    exact absurd (hin.mpr ⟨by omega, by omega⟩) hr
end Serotonin.Syscall
