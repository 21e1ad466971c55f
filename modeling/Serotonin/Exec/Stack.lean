import Serotonin.Exec.Load
import Mathlib.Data.List.GetD

/-! The stack that a program starts with, store by store: where the stores fall, and what the program
reads there. -/

namespace Serotonin.Exec

open List
open ByteMem (Mem u32 u32_of_lt u32_lt load16 load32)

/-! ## The stores -/

/-- A store of the code that fills the stack: a string, or a word of the pointer area. -/
structure StackStore where
  string : Bool
  addr : Nat
  bytes : List UInt8

def StackStore.apply (mem : Mem) (w : StackStore) : Mem := storeMem mem w.addr w.bytes.length fun i => w.bytes.getD i 0

/-- The loop over one of the vectors, and the `NULL` behind its pointers. -/
def copyVector (array cur : Nat) : List (List UInt8) → List StackStore
  | [] => [⟨false, array, le32 0⟩]
  | s :: ss => ⟨true, cur, s ++ [0]⟩ :: ⟨false, array, le32 cur⟩ :: copyVector (u32 (array + 4)) (u32 (cur + (s.length + 1))) ss

def stringsStart (r : Request) : Nat := u32 (stackPointer r + ptrsSz r)

def argvArray (r : Request) : Nat := u32 (stackPointer r + 4)

def stackStores (r : Request) : List StackStore :=
  ⟨false, stackPointer r, le32 r.argv.length⟩ :: (copyVector (argvArray r) (stringsStart r) r.argv ++
    copyVector (u32 (argvArray r + 4 * (r.argv.length + 1))) (u32 (stringsStart r + (stringBytes r.argv).length)) r.envp)

def fillStack (mem : Mem) (r : Request) : Mem := (stackStores r).foldl StackStore.apply mem

/-! ## What the program reads -/

/-- The bytes up to the first zero, at most so many. -/
def readString (m : Mem) : Nat → Nat → List UInt8
  | 0, _ => []
  | n + 1, a => if m a = 0 then [] else m a :: readString m n (a + 1)

/-- The strings up to the first `NULL`, at most so many. -/
def readVector (m : Mem) : Nat → Nat → List (List UInt8)
  | 0, _ => []
  | n + 1, p => if load32 m p = 0 then [] else readString m userStackSize (load32 m p) :: readVector m n (p + 4)

/-- `argc`, `argv` and `envp` as a program finds them from its stack pointer on. -/
def decodeStack (m : Mem) (sp : Nat) : Nat × List (List UInt8) × List (List UInt8) :=
  let argc := load32 m sp
  (argc, readVector m userStackSize (sp + 4), readVector m userStackSize (sp + 4 + 4 * (argc + 1)))

/-- Every byte of the store lies in the stack. -/
def StackStore.Inside (w : StackStore) : Prop :=
  ∀ i, i < w.bytes.length → userStackTop ≤ u32 (w.addr + i) ∧ u32 (w.addr + i) < userStackTop + userStackSize

/-- The store lies between the two addresses. -/
def StackStore.Within (lo hi : Nat) (w : StackStore) : Prop := lo ≤ w.addr ∧ w.addr + w.bytes.length ≤ hi

/-- What the stack is to be. -/
structure StackRight (r : Request) : Prop where
  inside : ∀ w ∈ stackStores r, w.Inside
  apart : ∀ w ∈ stackStores r, if w.string = true then w.Within (stackPointer r + ptrsSz r) (userStackTop + userStackSize)
    else w.Within (stackPointer r) (stackPointer r + ptrsSz r)
  aligned : stackPointer r % 16 = 0
  decoded : ∀ mem, decodeStack (fillStack mem r) (stackPointer r) = (r.argv.length, r.argv, r.envp)

/-- The bytes that the vectors take on the stack. -/
def stackBytes (r : Request) : Nat :=
  (stringBytes r.argv).length + (stringBytes r.envp).length + 4 * (1 + r.argv.length + 1 + r.envp.length + 1)

/-! ## Memory -/

/-- The bytes are in memory from the address on. -/
def Holds (m : Mem) (a : Nat) (bs : List UInt8) : Prop := ∀ i, i < bs.length → m (a + i) = bs.getD i 0

theorem Holds.append {m : Mem} {a : Nat} {bs cs : List UInt8} (h : Holds m a bs) (h' : Holds m (a + bs.length) cs) :
    Holds m a (bs ++ cs) := by
  intro i hi
  rw [length_append] at hi
  by_cases hlt : i < bs.length
  · rw [h i hlt, getD_append _ _ _ _ hlt]
  · have hcs := h' (i - bs.length) (by omega)
    rw [getD_append_right _ _ _ _ (by omega), ← hcs]
    congr 1
    omega

theorem Holds.of_append {m : Mem} {a : Nat} {bs cs : List UInt8} (h : Holds m a (bs ++ cs)) :
    Holds m a bs ∧ Holds m (a + bs.length) cs := by
  constructor
  · intro i hi
    rw [h i (by rw [length_append]; omega), getD_append _ _ _ _ hi]
  · intro i hi
    rw [Nat.add_assoc, h (bs.length + i) (by rw [length_append]; omega), getD_append_right _ _ _ _ (by omega)]
    congr 1
    omega

theorem le32_length (n : Nat) : (le32 n).length = 4 := rfl

theorem load32_of_holds {m : Mem} {a n : Nat} (h : Holds m a (le32 n)) (hn : n < 2 ^ 32) : load32 m a = n := by
  have h0 : m a = .ofNat n := h 0 (by rw [le32_length]; decide)
  have h1 : m (a + 1) = .ofNat (n / 256) := h 1 (by rw [le32_length]; decide)
  have h2 : m (a + 2) = .ofNat (n / 65536) := h 2 (by rw [le32_length]; decide)
  have h3 : m (a + 2 + 1) = .ofNat (n / 16777216) := h 3 (by rw [le32_length]; decide)
  unfold load32 load16
  rw [h0, h1, h2, h3]
  simp only [UInt8.toNat_ofNat']
  omega

/-- A store puts its bytes where it says, and nothing elsewhere. -/
theorem StackStore.apply_holds {mem : Mem} {w : StackStore} (h : w.addr + w.bytes.length ≤ 2 ^ 32) :
    Holds (w.apply mem) w.addr w.bytes := by
  intro i hi
  have hoff : u32 (w.addr + i + 2 ^ 32 - w.addr) = i := by
    unfold u32
    omega
  show (if _ then _ else _) = _
  rw [hoff, if_pos hi]

theorem StackStore.apply_other {mem : Mem} {w : StackStore} (h : w.addr + w.bytes.length ≤ 2 ^ 32) {x : Nat}
    (hx : x < w.addr ∨ w.addr + w.bytes.length ≤ x) (hlt : x < 2 ^ 32) : w.apply mem x = mem x := by
  have hoff : ¬u32 (x + 2 ^ 32 - w.addr) < w.bytes.length := by
    unfold u32
    omega
  exact if_neg hoff

/-- Neither of the stores touches what the other has stored. -/
def StackStore.Apart (w w' : StackStore) : Prop :=
  w.addr + w.bytes.length ≤ w'.addr ∨ w'.addr + w'.bytes.length ≤ w.addr

theorem Holds.apply {mem : Mem} {w w' : StackStore} (h : Holds mem w.addr w.bytes) (hw : w.addr + w.bytes.length ≤ 2 ^ 32)
    (hw' : w'.addr + w'.bytes.length ≤ 2 ^ 32) (ha : w.Apart w') : Holds (w'.apply mem) w.addr w.bytes := by
  intro i hi
  unfold StackStore.Apart at ha
  rw [StackStore.apply_other hw' (by omega) (by omega)]
  exact h i hi

theorem Holds.foldl {w : StackStore} (hw : w.addr + w.bytes.length ≤ 2 ^ 32) {ws : List StackStore} :
    (∀ w' ∈ ws, w'.addr + w'.bytes.length ≤ 2 ^ 32 ∧ w.Apart w') → ∀ {mem : Mem}, Holds mem w.addr w.bytes →
      Holds (ws.foldl StackStore.apply mem) w.addr w.bytes := by
  induction ws with
  | nil => exact fun _ mem h => h
  | cons w' ws ih =>
    intro hws mem h
    obtain ⟨hlt, ha⟩ := hws w' mem_cons_self
    exact ih (fun w'' h' => hws w'' (mem_cons_of_mem _ h')) (h.apply hw hlt ha)

/-- Stores that are apart are all there in the end. -/
theorem foldl_holds {ws : List StackStore} (hws : ∀ w ∈ ws, w.addr + w.bytes.length ≤ 2 ^ 32)
    (ha : ws.Pairwise StackStore.Apart) : ∀ (mem : Mem), ∀ w ∈ ws, Holds (ws.foldl StackStore.apply mem) w.addr w.bytes := by
  induction ha with
  | nil => exact fun _ w hw => (not_mem_nil hw).elim
  | @cons w ws hhead htail ih =>
    intro mem w' hw'
    rcases mem_cons.mp hw' with rfl | hw'
    · have hlt := hws w' mem_cons_self
      rw [foldl_cons]
      exact Holds.foldl hlt (fun w'' h => ⟨hws w'' (mem_cons_of_mem _ h), hhead w'' h⟩) (StackStore.apply_holds hlt)
    · exact ih (fun w'' h => hws w'' (mem_cons_of_mem _ h)) _ w' hw'

/-! ## A vector -/

theorem stringBytes_cons (s : List UInt8) (ss : List (List UInt8)) : stringBytes (s :: ss) = (s ++ [0]) ++ stringBytes ss := rfl

theorem length_stringBytes_cons (s : List UInt8) (ss : List (List UInt8)) :
    (stringBytes (s :: ss)).length = s.length + 1 + (stringBytes ss).length := by
  rw [stringBytes_cons, length_append, length_append]
  rfl

/-- There is room for the pointers before the strings, and for the strings below 4 GiB. -/
structure VectorFits (array cur : Nat) (ss : List (List UInt8)) : Prop where
  before : array + 4 * (ss.length + 1) ≤ cur
  below : cur + (stringBytes ss).length < 2 ^ 32

theorem VectorFits.tail {array cur : Nat} {s : List UInt8} {ss : List (List UInt8)} (h : VectorFits array cur (s :: ss)) :
    u32 (array + 4) = array + 4 ∧ u32 (cur + (s.length + 1)) = cur + (s.length + 1) ∧
      VectorFits (array + 4) (cur + (s.length + 1)) ss := by
  have hb := h.before
  have hl := h.below
  rw [length_stringBytes_cons] at hl
  rw [length_cons] at hb
  exact ⟨u32_of_lt (by omega), u32_of_lt (by omega), by omega, by omega⟩

/-- The pointers are stored in one area, the strings in the other. -/
theorem copyVector_within : ∀ {ss : List (List UInt8)} {array cur : Nat}, VectorFits array cur ss →
    ∀ w ∈ copyVector array cur ss, if w.string = true then w.Within cur (cur + (stringBytes ss).length)
      else w.Within array (array + 4 * (ss.length + 1))
  | [], array, cur, _, w, hw => by
    obtain rfl := mem_singleton.mp hw
    exact ⟨Nat.le_refl _, Nat.le_refl _⟩
  | s :: ss, array, cur, h, w, hw => by
    obtain ⟨ha, hc, htail⟩ := h.tail
    have hlen := length_stringBytes_cons s ss
    unfold copyVector at hw
    rw [ha, hc] at hw
    rw [hlen, length_cons]
    rcases mem_cons.mp hw with rfl | hw
    · refine ⟨Nat.le_refl _, ?_⟩
      show cur + (s ++ [0]).length ≤ _
      rw [length_append, length_singleton]
      omega
    rcases mem_cons.mp hw with rfl | hw
    · refine ⟨Nat.le_refl _, ?_⟩
      show array + 4 ≤ _
      omega
    · have hin := copyVector_within htail w hw
      split at hin
      · next hs =>
        rw [if_pos hs]
        exact ⟨by have := hin.1; omega, by have := hin.2; omega⟩
      · next hs =>
        rw [if_neg hs]
        exact ⟨by have := hin.1; omega, by have := hin.2; omega⟩

theorem copyVector_pairwise : ∀ {ss : List (List UInt8)} {array cur : Nat}, VectorFits array cur ss →
    (copyVector array cur ss).Pairwise StackStore.Apart
  | [], _, _, _ => pairwise_singleton ..
  | s :: ss, array, cur, h => by
    obtain ⟨ha, hc, htail⟩ := h.tail
    have hb := h.before
    have hin := copyVector_within htail
    unfold copyVector
    rw [ha, hc]
    rw [length_cons] at hb
    have hslen : (s ++ [(0 : UInt8)]).length = s.length + 1 := by rw [length_append, length_singleton]
    refine pairwise_cons.mpr ⟨fun w hw => ?_, pairwise_cons.mpr ⟨fun w hw => ?_, copyVector_pairwise htail⟩⟩
    · rcases mem_cons.mp hw with rfl | hw
      · right
        show array + 4 ≤ cur
        omega
      · have hw := hin w hw
        split at hw
        · left
          show cur + (s ++ [0]).length ≤ w.addr
          have := hw.1
          omega
        · right
          show _ ≤ cur
          have := hw.2
          omega
    · left
      show array + 4 ≤ w.addr
      have hw := hin w hw
      split at hw
      · have := hw.1
        omega
      · exact hw.1

/-- What is in memory when all stores of a vector are. -/
theorem copyVector_holds {m : Mem} : ∀ {ss : List (List UInt8)} {array cur : Nat}, VectorFits array cur ss →
    (∀ w ∈ copyVector array cur ss, Holds m w.addr w.bytes) →
      Holds m array ((pointers cur ss ++ [0]).flatMap le32) ∧ Holds m cur (stringBytes ss)
  | [], array, cur, _, h => ⟨h _ (mem_singleton_self _), fun i hi => absurd hi (Nat.not_lt_zero i)⟩
  | s :: ss, array, cur, hfit, h => by
    obtain ⟨ha, hc, htail⟩ := hfit.tail
    unfold copyVector at h
    rw [ha, hc] at h
    obtain ⟨hptrs, hstrs⟩ := copyVector_holds htail fun w hw => h w (mem_cons_of_mem _ (mem_cons_of_mem _ hw))
    have hs : Holds m cur (s ++ [0]) := h _ mem_cons_self
    have hp : Holds m array (le32 cur) := h _ (mem_cons_of_mem _ mem_cons_self)
    refine ⟨hp.append hptrs, hs.append ?_⟩
    rw [length_append, length_singleton]
    exact hstrs

theorem readString_of_holds {m : Mem} : ∀ {s : List UInt8} {a n : Nat}, Holds m a (s ++ [0]) → (0 : UInt8) ∉ s →
    s.length < n → readString m n a = s
  | _, _, 0, _, _, hn => absurd hn (Nat.not_lt_zero _)
  | [], a, n + 1, h, _, _ => by
    have h0 : m a = 0 := h 0 (by decide)
    unfold readString
    rw [if_pos h0]
  | c :: s, a, n + 1, h, hnul, hn => by
    rw [mem_cons, not_or] at hnul
    rw [length_cons] at hn
    have h0 : m a = c := h 0 (by simp)
    have htail : Holds m (a + 1) (s ++ [0]) := fun i hi => by
      have hi' : i + 1 < (c :: s ++ [0]).length := Nat.succ_lt_succ hi
      have := h (i + 1) hi'
      rwa [show a + 1 + i = a + (i + 1) by omega]
    unfold readString
    rw [h0, if_neg (fun hc => hnul.1 hc.symm), readString_of_holds htail hnul.2 (by omega)]

/-- The vector is read back. -/
theorem readVector_of_holds {m : Mem} : ∀ {ss : List (List UInt8)} {array cur n : Nat},
    Holds m array ((pointers cur ss ++ [0]).flatMap le32) → Holds m cur (stringBytes ss) →
      (∀ s ∈ ss, (0 : UInt8) ∉ s) → 0 < cur → cur + (stringBytes ss).length < 2 ^ 32 →
        (stringBytes ss).length ≤ userStackSize → ss.length < n → readVector m n array = ss
  | _, _, _, 0, _, _, _, _, _, _, hn => absurd hn (Nat.not_lt_zero _)
  | [], array, cur, n + 1, hp, _, _, _, _, _, _ => by
    have h0 : load32 m array = 0 := load32_of_holds hp (by decide)
    unfold readVector
    rw [if_pos h0]
  | s :: ss, array, cur, n + 1, hp, hs, hnul, hpos, hlt, hsize, hn => by
    rw [length_stringBytes_cons] at hlt hsize
    rw [length_cons] at hn
    obtain ⟨hp, hps⟩ := @Holds.of_append _ _ (le32 cur) _ hp
    obtain ⟨hs, hss⟩ := hs.of_append
    have h0 : load32 m array = cur := load32_of_holds hp (by omega)
    have hstr := readString_of_holds (n := userStackSize) hs (hnul s mem_cons_self) (by omega)
    rw [length_append, length_singleton] at hss
    have hrest := readVector_of_holds (n := n) hps hss (fun s hs => hnul s (mem_cons_of_mem _ hs)) (by omega) (by omega)
      (by omega) (by omega)
    unfold readVector
    rw [h0, if_neg (by omega), hstr]
    congr 1

/-! ## The layout -/

variable {r : Request}

/-- The sizes do not wrap around, and what they add up to is below the top of the stack. -/
structure Layout (r : Request) : Prop where
  strings : stringsSz r = (stringBytes r.argv).length + (stringBytes r.envp).length
  ptrs : ptrsSz r = 4 * (1 + r.argv.length + 1 + r.envp.length + 1)
  bottom : userStackTop ≤ stackPointer r
  top : stackPointer r + (ptrsSz r + stringsSz r) + 4 ≤ userStackTop + userStackSize

theorem layout_of_fits (h : stackBytes r ≤ userStackSize - 4) : Layout r := by
  have hs : stringsSz r = (stringBytes r.argv).length + (stringBytes r.envp).length := by
    unfold stringsSz
    unfold stackBytes userStackSize at h
    rw [Nat.add_comm, u32_of_lt (by omega)]
  have hp : ptrsSz r = 4 * (1 + r.argv.length + 1 + r.envp.length + 1) := by
    unfold stackBytes userStackSize at h
    exact u32_of_lt (by omega)
  have hsum : stringsSz r + ptrsSz r ≤ userStackSize - 4 := by
    rw [hs, hp]
    exact h
  refine ⟨hs, hp, ?_, ?_⟩
  · unfold stackPointer stackTop u32 userStackTop
    unfold userStackSize at *
    omega
  · unfold stackPointer stackTop u32 userStackTop
    unfold userStackSize at *
    omega

namespace Layout

theorem argvArray_eq (h : Layout r) : argvArray r = stackPointer r + 4 := by
  have := h.top
  unfold userStackTop userStackSize at this
  exact u32_of_lt (by omega)

theorem stringsStart_eq (h : Layout r) : stringsStart r = stackPointer r + ptrsSz r := by
  have := h.top
  unfold userStackTop userStackSize at this
  exact u32_of_lt (by omega)

theorem argv_fits (h : Layout r) : VectorFits (argvArray r) (stringsStart r) r.argv := by
  have htop := h.top
  have hs := h.strings
  have hp := h.ptrs
  unfold userStackTop userStackSize at htop
  rw [h.argvArray_eq, h.stringsStart_eq]
  exact ⟨by omega, by omega⟩

theorem envpArray_eq (h : Layout r) : u32 (argvArray r + 4 * (r.argv.length + 1)) =
    stackPointer r + 4 + 4 * (r.argv.length + 1) := by
  have htop := h.top
  have hp := h.ptrs
  unfold userStackTop userStackSize at htop
  rw [h.argvArray_eq, u32_of_lt (by omega)]

theorem envpStart_eq (h : Layout r) : u32 (stringsStart r + (stringBytes r.argv).length) =
    stackPointer r + ptrsSz r + (stringBytes r.argv).length := by
  have htop := h.top
  have hs := h.strings
  unfold userStackTop userStackSize at htop
  rw [h.stringsStart_eq, u32_of_lt (by omega)]

theorem envp_fits (h : Layout r) : VectorFits (u32 (argvArray r + 4 * (r.argv.length + 1)))
    (u32 (stringsStart r + (stringBytes r.argv).length)) r.envp := by
  have htop := h.top
  have hs := h.strings
  have hp := h.ptrs
  unfold userStackTop userStackSize at htop
  rw [h.envpArray_eq, h.envpStart_eq]
  exact ⟨by omega, by omega⟩

/-- Each store lies in its own area. -/
theorem within (h : Layout r) : ∀ w ∈ stackStores r,
    if w.string = true then w.Within (stackPointer r + ptrsSz r) (stackPointer r + (ptrsSz r + stringsSz r))
    else w.Within (stackPointer r) (stackPointer r + ptrsSz r) := by
  have hs := h.strings
  have hp := h.ptrs
  intro w hw
  rcases mem_cons.mp hw with rfl | hw
  · refine ⟨Nat.le_refl _, ?_⟩
    show stackPointer r + 4 ≤ _
    omega
  rcases mem_append.mp hw with hw | hw
  · have hin := copyVector_within h.argv_fits w hw
    rw [h.argvArray_eq, h.stringsStart_eq] at hin
    split at hin
    · next hstr =>
      rw [if_pos hstr]
      exact ⟨hin.1, by have := hin.2; omega⟩
    · next hstr =>
      rw [if_neg hstr]
      exact ⟨by have := hin.1; omega, by have := hin.2; omega⟩
  · have hin := copyVector_within h.envp_fits w hw
    rw [h.envpArray_eq, h.envpStart_eq] at hin
    split at hin
    · next hstr =>
      rw [if_pos hstr]
      exact ⟨by have := hin.1; omega, by have := hin.2; omega⟩
    · next hstr =>
      rw [if_neg hstr]
      exact ⟨by have := hin.1; omega, by have := hin.2; omega⟩

theorem addr_lt (h : Layout r) {w : StackStore} (hw : w ∈ stackStores r) :
    stackPointer r ≤ w.addr ∧ w.addr + w.bytes.length ≤ stackPointer r + (ptrsSz r + stringsSz r) := by
  have hin := h.within w hw
  split at hin
  · exact ⟨by have := hin.1; omega, hin.2⟩
  · exact ⟨hin.1, by have := hin.2; omega⟩

theorem inside (h : Layout r) : ∀ w ∈ stackStores r, w.Inside := by
  intro w hw i hi
  obtain ⟨hlo, hhi⟩ := h.addr_lt hw
  have hbottom := h.bottom
  have htop := h.top
  have hlt : w.addr + i < 2 ^ 32 := by
    unfold userStackTop userStackSize at htop
    omega
  rw [u32_of_lt hlt]
  omega

theorem pairwise (h : Layout r) : (stackStores r).Pairwise StackStore.Apart := by
  have hp := h.ptrs
  have hargv := copyVector_within h.argv_fits
  have henvp := copyVector_within h.envp_fits
  have ha := h.argvArray_eq
  have hss := h.stringsStart_eq
  have hea := h.envpArray_eq
  have hes := h.envpStart_eq
  refine pairwise_cons.mpr ⟨fun w hw => ?_, pairwise_append.mpr
    ⟨copyVector_pairwise h.argv_fits, copyVector_pairwise h.envp_fits, fun w hw w' hw' => ?_⟩⟩
  · left
    show stackPointer r + 4 ≤ w.addr
    rcases mem_append.mp hw with hw | hw
    · have hin := hargv w hw
      split at hin <;> have := hin.1 <;> omega
    · have hin := henvp w hw
      split at hin <;> have := hin.1 <;> omega
  · have hin := hargv w hw
    have hin' := henvp w' hw'
    unfold StackStore.Apart
    split at hin <;> split at hin' <;> have h1 := hin.1 <;> have h2 := hin.2 <;> have h3 := hin'.1 <;> have h4 := hin'.2 <;> omega

/-- What the vectors look like in memory after all stores. -/
theorem holds (h : Layout r) (mem : Mem) : Holds (fillStack mem r) (stackPointer r) (le32 r.argv.length) ∧
    Holds (fillStack mem r) (stackPointer r + 4) ((pointers (stackPointer r + ptrsSz r) r.argv ++ [0]).flatMap le32) ∧
    Holds (fillStack mem r) (stackPointer r + 4 + 4 * (r.argv.length + 1))
      ((pointers (stackPointer r + ptrsSz r + (stringBytes r.argv).length) r.envp ++ [0]).flatMap le32) ∧
    Holds (fillStack mem r) (stackPointer r + ptrsSz r) (stringBytes r.argv) ∧
    Holds (fillStack mem r) (stackPointer r + ptrsSz r + (stringBytes r.argv).length) (stringBytes r.envp) := by
  have htop := h.top
  unfold userStackTop userStackSize at htop
  have hholds := foldl_holds (fun w hw => by have := (h.addr_lt hw).2; omega) h.pairwise mem
  obtain ⟨hptrs, hstrs⟩ := copyVector_holds h.argv_fits fun w hw =>
    hholds w (mem_cons_of_mem _ (mem_append_left _ hw))
  obtain ⟨hptrs', hstrs'⟩ := copyVector_holds h.envp_fits fun w hw =>
    hholds w (mem_cons_of_mem _ (mem_append_right _ hw))
  rw [h.argvArray_eq] at hptrs
  rw [h.envpArray_eq] at hptrs'
  rw [h.envpStart_eq] at hptrs' hstrs'
  rw [h.stringsStart_eq] at hptrs hstrs
  exact ⟨hholds _ mem_cons_self, hptrs, hptrs', hstrs, hstrs'⟩

theorem length_pointers : ∀ (ss : List (List UInt8)) (start : Nat), (pointers start ss).length = ss.length
  | [], _ => rfl
  | _ :: ss, _ => congrArg (· + 1) (length_pointers ss _)

theorem length_flatMap_le32 (ns : List Nat) : (ns.flatMap le32).length = 4 * ns.length := by
  induction ns with
  | nil => rfl
  | cons n ns ih =>
    rw [flatMap_cons, length_append, ih, le32_length, length_cons]
    omega

/-- The stores come to the one store that the loader's model makes of them. -/
theorem holds_argBytes (h : Layout r) (mem : Mem) : Holds (fillStack mem r) (stackPointer r) (argBytes r) := by
  obtain ⟨hargc, hargv, henvp, hstrs, hstrs'⟩ := h.holds mem
  have hp := h.ptrs
  have hbytes : argBytes r = le32 r.argv.length ++ ((pointers (stackPointer r + ptrsSz r) r.argv ++ [0]).flatMap le32 ++
      ((pointers (stackPointer r + ptrsSz r + (stringBytes r.argv).length) r.envp ++ [0]).flatMap le32 ++
        (stringBytes r.argv ++ stringBytes r.envp))) := by
    unfold argBytes
    simp only [flatMap_append, flatMap_cons, flatMap_nil, append_assoc, append_nil]
  have hla : ((pointers (stackPointer r + ptrsSz r) r.argv ++ [0]).flatMap le32).length = 4 * (r.argv.length + 1) := by
    rw [length_flatMap_le32, length_append, length_pointers, length_singleton]
  have hle : ((pointers (stackPointer r + ptrsSz r + (stringBytes r.argv).length) r.envp ++ [0]).flatMap le32).length =
      4 * (r.envp.length + 1) := by
    rw [length_flatMap_le32, length_append, length_pointers, length_singleton]
  rw [hbytes]
  refine hargc.append (hargv.append ?_)
  rw [hla]
  refine henvp.append ?_
  rw [hle, show stackPointer r + 4 + 4 * (r.argv.length + 1) + 4 * (r.envp.length + 1) = stackPointer r + ptrsSz r by omega]
  exact hstrs.append hstrs'

/-- After all stores, the program finds what it was given. -/
theorem decoded (h : Layout r) (hr : ∀ s ∈ r.argv ++ r.envp, (0 : UInt8) ∉ s) (mem : Mem) :
    decodeStack (fillStack mem r) (stackPointer r) = (r.argv.length, r.argv, r.envp) := by
  have htop := h.top
  have hs := h.strings
  have hp := h.ptrs
  have hbottom := h.bottom
  unfold userStackTop at hbottom htop
  unfold userStackSize at htop
  obtain ⟨hargc, hptrs, hptrs', hstrs, hstrs'⟩ := h.holds mem
  have hargc : load32 (fillStack mem r) (stackPointer r) = r.argv.length := load32_of_holds hargc (by omega)
  have hargv := readVector_of_holds (n := userStackSize) hptrs hstrs (fun s hs => hr s (mem_append_left _ hs))
    (by omega) (by omega) (by unfold userStackSize; omega) (by unfold userStackSize; omega)
  have henvp := readVector_of_holds (n := userStackSize) hptrs' hstrs' (fun s hs => hr s (mem_append_right _ hs))
    (by omega) (by omega) (by unfold userStackSize; omega) (by unfold userStackSize; omega)
  unfold decodeStack
  simp only
  rw [hargc]
  exact Prod.ext rfl (Prod.ext hargv henvp)

end Layout

/-! ## When it is not right -/

/-- Consecutive bytes that all lie in the stack do not wrap around. -/
theorem StackStore.Inside.range {w : StackStore} (h : w.Inside) (ha : w.addr < 2 ^ 32) (hpos : 0 < w.bytes.length) :
    userStackTop ≤ w.addr ∧ w.addr + w.bytes.length ≤ userStackTop + userStackSize := by
  have h0 := h 0 hpos
  rw [Nat.add_zero, u32_of_lt ha] at h0
  refine ⟨h0.1, ?_⟩
  by_contra hlt
  have hend := h (userStackTop + userStackSize - w.addr) (by omega)
  rw [Nat.add_sub_cancel' (Nat.le_of_lt h0.2), u32_of_lt (by decide)] at hend
  exact absurd hend.2 (Nat.lt_irrefl _)

theorem copyVector_inside : ∀ {ss : List (List UInt8)} {array cur : Nat}, array < 2 ^ 32 → cur < 2 ^ 32 →
    (∀ w ∈ copyVector array cur ss, w.Inside) → array + 4 * (ss.length + 1) ≤ userStackTop + userStackSize ∧
      (cur ≤ userStackTop + userStackSize → cur + (stringBytes ss).length ≤ userStackTop + userStackSize)
  | [], array, cur, ha, _, h => by
    obtain ⟨-, hend⟩ := (h _ (mem_singleton_self _)).range ha (by rw [le32_length]; decide)
    exact ⟨hend, id⟩
  | s :: ss, array, cur, ha, hc, h => by
    have hE : userStackTop + userStackSize < 2 ^ 32 := by decide
    obtain ⟨-, hs⟩ := (h _ mem_cons_self).range hc (by simp)
    obtain ⟨-, hp⟩ := (h _ (mem_cons_of_mem _ mem_cons_self)).range ha (by rw [le32_length]; decide)
    dsimp only at hs hp
    rw [length_append, length_singleton] at hs
    rw [le32_length] at hp
    obtain ⟨hptrs, hstrs⟩ := copyVector_inside (u32_lt _) (u32_lt _) fun w hw =>
      h w (mem_cons_of_mem _ (mem_cons_of_mem _ hw))
    rw [u32_of_lt (by omega)] at hptrs
    rw [u32_of_lt (by omega)] at hstrs
    have hlen := length_stringBytes_cons s ss
    rw [length_cons]
    exact ⟨by omega, fun _ => by have := hstrs (by omega); omega⟩

/-- The stores are in the stack only when all of them together have room there. -/
theorem fits_of_inside (h : ∀ w ∈ stackStores r, w.Inside) : stackBytes r ≤ userStackSize - 4 := by
  have hE : userStackTop + userStackSize < 2 ^ 32 := by decide
  have hsp : stackPointer r < 2 ^ 32 := by
    have := u32_lt (stackTop + 2 * 2 ^ 32 - stringsSz r - ptrsSz r)
    unfold stackPointer
    omega
  obtain ⟨hlo, hargc⟩ := (h _ mem_cons_self).range hsp (by rw [le32_length]; decide)
  dsimp only at hlo hargc
  rw [le32_length] at hargc
  have hargv : argvArray r = stackPointer r + 4 := u32_of_lt (by omega)
  obtain ⟨hpa, hsa⟩ := copyVector_inside (u32_lt _) (u32_lt _) fun w hw =>
    h w (mem_cons_of_mem _ (mem_append_left _ hw))
  obtain ⟨hpe, hse⟩ := copyVector_inside (u32_lt _) (u32_lt _) fun w hw =>
    h w (mem_cons_of_mem _ (mem_append_right _ hw))
  change argvArray r + _ ≤ _ at hpa
  change stringsStart r ≤ _ → stringsStart r + _ ≤ _ at hsa
  rw [hargv] at hpa hpe
  rw [u32_of_lt (by omega)] at hpe
  have hptrs : ptrsSz r = 4 * (1 + r.argv.length + 1 + r.envp.length + 1) := u32_of_lt (by
    unfold userStackTop userStackSize at *
    omega)
  have hstart : stringsStart r = stackPointer r + ptrsSz r := u32_of_lt (by
    rw [hptrs]
    omega)
  rw [hstart] at hsa hse
  have hsa := hsa (by omega)
  rw [u32_of_lt (by omega)] at hse
  have hse := hse hsa
  have hstrings : stringsSz r = (stringBytes r.argv).length + (stringBytes r.envp).length := by
    unfold stringsSz
    rw [Nat.add_comm]
    exact u32_of_lt (by omega)
  have hbottom := hlo
  unfold stackPointer stackTop u32 at hbottom
  unfold stackBytes
  unfold userStackTop userStackSize at *
  omega

/-- The stack of a new program is right just when the vectors leave four bytes of it free. -/
theorem stackRight_iff (hr : ∀ s ∈ r.argv ++ r.envp, (0 : UInt8) ∉ s) :
    StackRight r ↔ stackBytes r ≤ userStackSize - 4 := by
  constructor
  · exact fun h => fits_of_inside h.inside
  · intro h
    have hl := layout_of_fits h
    have htop := hl.top
    refine ⟨hl.inside, fun w hw => ?_, Nat.mul_mod_left .., hl.decoded hr⟩
    have hin := hl.within w hw
    split at hin
    · next hs =>
      rw [if_pos hs]
      exact ⟨hin.1, by have := hin.2; omega⟩
    · next hs =>
      rw [if_neg hs]
      exact hin

/-- A program with nothing but its arguments. -/
def withArgs (argv : List (List UInt8)) : Request :=
  ⟨[], argv, [], none, false, false, none, none, none, 0, fun _ => 0⟩

/-- Two arguments, one of them empty. -/
theorem stackRight_two : StackRight (withArgs [[108, 115], []]) :=
  (stackRight_iff (by decide)).mpr (by decide)

theorem holds_argBytes_two : Holds (fillStack (fun _ => 0) (withArgs [[108, 115], []]))
    (stackPointer (withArgs [[108, 115], []])) (argBytes (withArgs [[108, 115], []])) :=
  (layout_of_fits (by decide)).holds_argBytes _

theorem stackBytes_one (s : List UInt8) : stackBytes (withArgs [s]) = s.length + 1 + 16 := by
  unfold stackBytes withArgs
  rw [length_stringBytes_cons]
  rfl

/-- One argument of a mebibyte runs below the stack. -/
theorem not_stackRight : ¬StackRight (withArgs [List.replicate (2 ^ 20) 97]) := by
  intro h
  have hfits := fits_of_inside h.inside
  rw [stackBytes_one, List.length_replicate] at hfits
  exact absurd hfits (by decide)

end Serotonin.Exec
