import Serotonin.BlkCache.Model
import Serotonin.Lib.DList
import Mathlib.Data.List.Perm.Subperm

/-! What the pointers of the cache have to spell: a finite chain for every bucket
and one doubly linked list through the entries in use. -/

namespace Serotonin.BlkCache
open Function
open Chain

variable {δ : Type}

/-- The sector an entry is for. -/
def key (c : Cache δ) (e : Idx) : UInt8 × UInt32 := ((c.entries e).drive, (c.entries e).lba)

def IsValid (c : Cache δ) (e : Idx) : Prop := (c.entries e).valid = true

/-- The pointers of the list in order of use. -/
def lruLinks (c : Cache δ) : Links Idx := ⟨c.lruNext, c.lruPrev, c.lruHead, c.lruTail⟩

/-- The hash chains run through the entries `B`, the list in order of use through
`lru`. -/
structure Rep (c : Cache δ) (B : Nat → List Idx) (lru : List Idx) : Prop where
  chain : ∀ b, IsChain c.hashNext (c.hashTable b) (B b)
  hashed : ∀ b, ∀ e ∈ B b, bucketOf c e = b
  valid : ∀ e, IsValid c e → e ∈ B (bucketOf c e)
  unique : ∀ e f, IsValid c e → IsValid c f → key c e = key c f → e = f
  order : (lruLinks c).Spells lru
  used : ∀ e, e ∈ lru ↔ e < c.usedCount
  chained : ∀ b, ∀ e ∈ B b, e < c.usedCount
  count : c.usedCount ≤ maxEntries

theorem bucketOf_key (c : Cache δ) (e : Idx) :
    bucketOf c e = blkcacheHash (key c e).1 (key c e).2 := rfl

/-- The bucket depends on the sector only. -/
theorem bucketOf_congr {c c' : Cache δ} {e f : Idx} (h : key c' f = key c e) :
    bucketOf c' f = bucketOf c e := by
  rw [bucketOf_key, bucketOf_key, h]

/-- Two states with the same entries as far as sectors and chains go. -/
structure SameChains (c c' : Cache δ) : Prop where
  key : ∀ e, key c' e = key c e
  valid : ∀ e, (c'.entries e).valid = (c.entries e).valid
  hashNext : c'.hashNext = c.hashNext
  hashTable : c'.hashTable = c.hashTable
  usedCount : c'.usedCount = c.usedCount

theorem SameChains.trans {c d e : Cache δ} (h : SameChains c d) (h' : SameChains d e) :
    SameChains c e :=
  ⟨fun x => (h'.key x).trans (h.key x), fun x => (h'.valid x).trans (h.valid x),
    h'.hashNext.trans h.hashNext, h'.hashTable.trans h.hashTable, h'.usedCount.trans h.usedCount⟩

/-- A chain holds entries in use only, each at most once. -/
theorem Rep.chain_length {c : Cache δ} {B : Nat → List Idx} {lru : List Idx} (h : Rep c B lru)
    (b : Nat) : (B b).length ≤ maxEntries := by
  have hsub : B b ⊆ List.range c.usedCount := fun e he => List.mem_range.mpr (h.chained b e he)
  have hnd : (B b).Nodup := (h.chain b).nodup
  have hle := (List.subperm_of_subset hnd hsub).length_le
  rw [List.length_range] at hle
  exact Nat.le_trans hle h.count

/-! ## One entry changed -/

@[simp] theorem modify_entries_self (c : Cache δ) (e : Idx) (f : Entry → Entry) :
    (c.modify e f).entries e = f (c.entries e) := by simp [Cache.modify]

theorem modify_entries_ne {c : Cache δ} {e x : Idx} {f : Entry → Entry} (h : x ≠ e) :
    (c.modify e f).entries x = c.entries x := by simp [Cache.modify, h]

/-- A field that a modification sets, as a function on entries. -/
theorem field_modify {α : Type} (c : Cache δ) (e : Idx) (f : Entry → Entry) (g : Entry → α) :
    (fun x => g ((c.modify e f).entries x)) =
      update (fun x => g (c.entries x)) e (g (f (c.entries e))) := by
  funext x
  by_cases h : x = e
  · subst h; simp
  · rw [modify_entries_ne h, update_of_ne h]

theorem field_modify_same {α : Type} (c : Cache δ) (e : Idx) {f : Entry → Entry} (g : Entry → α)
    (h : ∀ x, g (f x) = g x) : (fun x => g ((c.modify e f).entries x)) = fun x => g (c.entries x) := by
  rw [field_modify, h, update_eq_self]

theorem hashNext_setHashNext (c : Cache δ) (e : Idx) (n : Option Idx) :
    (c.setHashNext e n).hashNext = setNext c.hashNext e n := field_modify c e _ (·.hashNext)

/-- A modification that keeps sector, validity and chain. -/
theorem sameChains_modify (c : Cache δ) (e : Idx) {f : Entry → Entry}
    (hd : ∀ x, (f x).drive = x.drive) (hl : ∀ x, (f x).lba = x.lba) (hv : ∀ x, (f x).valid = x.valid)
    (hn : ∀ x, (f x).hashNext = x.hashNext) : SameChains c (c.modify e f) := by
  refine ⟨fun x => ?_, fun x => ?_, field_modify_same c e (·.hashNext) hn, rfl, rfl⟩
  · by_cases h : x = e
    · subst h; simp [key, hd, hl]
    · simp [key, modify_entries_ne h]
  · by_cases h : x = e
    · subst h; simp [hv]
    · rw [modify_entries_ne h]

/-! ## The list in order of use -/

theorem lruLinks_modify (c : Cache δ) (e : Idx) {f : Entry → Entry}
    (hn : ∀ x, (f x).lruNext = x.lruNext) (hp : ∀ x, (f x).lruPrev = x.lruPrev) :
    lruLinks (c.modify e f) = lruLinks c := by
  have h1 : (c.modify e f).lruNext = c.lruNext := field_modify_same c e (·.lruNext) hn
  have h2 : (c.modify e f).lruPrev = c.lruPrev := field_modify_same c e (·.lruPrev) hp
  simp only [lruLinks, h1, h2]
  rfl

/-! ### Marking an entry invalid -/

theorem key_setValid (c : Cache δ) (e : Idx) (v : Bool) (x : Idx) :
    key (c.setValid e v) x = key c x := by
  by_cases hx : x = e
  · subst hx; simp [key, Cache.setValid]
  · simp [key, Cache.setValid, modify_entries_ne hx]

theorem hashNext_setValid (c : Cache δ) (e : Idx) (v : Bool) :
    (c.setValid e v).hashNext = c.hashNext := field_modify_same c e (·.hashNext) fun _ => rfl

theorem lruLinks_setValid (c : Cache δ) (e : Idx) (v : Bool) :
    lruLinks (c.setValid e v) = lruLinks c := lruLinks_modify c e (fun _ => rfl) fun _ => rfl

theorem isValid_setValid {c : Cache δ} {e x : Idx} :
    IsValid (c.setValid e false) x ↔ x ≠ e ∧ IsValid c x := by
  by_cases hx : x = e
  · subst hx; simp [IsValid, Cache.setValid]
  · simp [IsValid, Cache.setValid, modify_entries_ne hx, hx]

/-! ### The steps of the list -/

theorem lruLinks_setLruNext (c : Cache δ) (e : Idx) (n : Option Idx) :
    lruLinks (c.setLruNext e n) = { lruLinks c with next := setNext (lruLinks c).next e n } := by
  have h1 : (c.setLruNext e n).lruNext = setNext c.lruNext e n := field_modify c e _ (·.lruNext)
  have h2 : (c.setLruNext e n).lruPrev = c.lruPrev := field_modify_same c e (·.lruPrev) fun _ => rfl
  simp only [lruLinks, h1, h2]
  rfl

theorem lruLinks_setLruPrev (c : Cache δ) (e : Idx) (n : Option Idx) :
    lruLinks (c.setLruPrev e n) = { lruLinks c with prev := setNext (lruLinks c).prev e n } := by
  have h1 : (c.setLruPrev e n).lruNext = c.lruNext := field_modify_same c e (·.lruNext) fun _ => rfl
  have h2 : (c.setLruPrev e n).lruPrev = setNext c.lruPrev e n := field_modify c e _ (·.lruPrev)
  simp only [lruLinks, h1, h2]
  rfl

theorem lruLinks_setLru (c : Cache δ) (e : Idx) (p n : Option Idx) :
    lruLinks (c.setLru e p n) = { lruLinks c with
      next := setNext (lruLinks c).next e n, prev := setNext (lruLinks c).prev e p } := by
  have h1 : (c.setLru e p n).lruNext = setNext c.lruNext e n := field_modify c e _ (·.lruNext)
  have h2 : (c.setLru e p n).lruPrev = setNext c.lruPrev e p := field_modify c e _ (·.lruPrev)
  simp only [lruLinks, h1, h2]
  rfl

@[simp] theorem lruLinks_setLruHead (c : Cache δ) (e : Option Idx) :
    lruLinks (c.setLruHead e) = { lruLinks c with head := e } := rfl

@[simp] theorem lruLinks_setLruTail (c : Cache δ) (e : Option Idx) :
    lruLinks (c.setLruTail e) = { lruLinks c with tail := e } := rfl

theorem lruLinks_lruRemove (c : Cache δ) (e : Idx) :
    lruLinks (lruRemove c e) = (lruLinks c).remove e := by
  have hp : c.lruPrev e = (lruLinks c).prev e := rfl
  have hn : c.lruNext e = (lruLinks c).next e := rfl
  unfold lruRemove Links.remove
  rw [hp, hn]
  dsimp only
  rw [lruLinks_setLru]
  cases (lruLinks c).prev e <;> cases (lruLinks c).next e <;>
    simp only [lruLinks_setLruNext, lruLinks_setLruPrev, lruLinks_setLruHead, lruLinks_setLruTail]

theorem lruLinks_lruPushFront (c : Cache δ) (e : Idx) :
    lruLinks (lruPushFront c e) = (lruLinks c).pushFront e := by
  have hh : c.lruHead = (lruLinks c).head := rfl
  unfold lruPushFront Links.pushFront
  rw [hh]
  dsimp only
  rw [lruLinks_setLruHead]
  cases (lruLinks c).head <;>
    simp only [lruLinks_setLru, lruLinks_setLruPrev, lruLinks_setLruTail]

theorem sameChains_setLruNext (c : Cache δ) (e : Idx) (n : Option Idx) :
    SameChains c (c.setLruNext e n) :=
  sameChains_modify c e (fun _ => rfl) (fun _ => rfl) (fun _ => rfl) (fun _ => rfl)

theorem sameChains_setLruPrev (c : Cache δ) (e : Idx) (n : Option Idx) :
    SameChains c (c.setLruPrev e n) :=
  sameChains_modify c e (fun _ => rfl) (fun _ => rfl) (fun _ => rfl) (fun _ => rfl)

theorem sameChains_setLru (c : Cache δ) (e : Idx) (p n : Option Idx) :
    SameChains c (c.setLru e p n) :=
  sameChains_modify c e (fun _ => rfl) (fun _ => rfl) (fun _ => rfl) (fun _ => rfl)

theorem sameChains_setLruHead (c : Cache δ) (e : Option Idx) : SameChains c (c.setLruHead e) :=
  ⟨fun _ => rfl, fun _ => rfl, rfl, rfl, rfl⟩

theorem sameChains_setLruTail (c : Cache δ) (e : Option Idx) : SameChains c (c.setLruTail e) :=
  ⟨fun _ => rfl, fun _ => rfl, rfl, rfl, rfl⟩

theorem sameChains_lruRemove (c : Cache δ) (e : Idx) : SameChains c (lruRemove c e) := by
  unfold lruRemove
  dsimp only
  cases c.lruPrev e <;> cases c.lruNext e
  · exact ((sameChains_setLruHead ..).trans (sameChains_setLruTail ..)).trans (sameChains_setLru ..)
  · exact ((sameChains_setLruHead ..).trans (sameChains_setLruPrev ..)).trans (sameChains_setLru ..)
  · exact ((sameChains_setLruNext ..).trans (sameChains_setLruTail ..)).trans (sameChains_setLru ..)
  · exact ((sameChains_setLruNext ..).trans (sameChains_setLruPrev ..)).trans (sameChains_setLru ..)

theorem sameChains_lruPushFront (c : Cache δ) (e : Idx) : SameChains c (lruPushFront c e) := by
  unfold lruPushFront
  dsimp only
  refine SameChains.trans ?_ (sameChains_setLruHead _ (some e))
  cases c.lruHead
  · exact (sameChains_setLru ..).trans (sameChains_setLruTail ..)
  · exact (sameChains_setLru ..).trans (sameChains_setLruPrev ..)

/-- What the hash chains look at is the same, and the list in order of use is
spelled anew. -/
theorem Rep.of_sameChains {c c' : Cache δ} {B : Nat → List Idx} {lru lru' : List Idx}
    (h : Rep c B lru) (hs : SameChains c c') (hl : (lruLinks c').Spells lru')
    (hm : ∀ e, e ∈ lru' ↔ e ∈ lru) : Rep c' B lru' := by
  have hb : ∀ e, bucketOf c' e = bucketOf c e := fun e => bucketOf_congr (hs.key e)
  have hv : ∀ e, IsValid c' e → IsValid c e := fun e he => (hs.valid e).symm.trans he
  refine ⟨fun b => ?_, fun b e he => ?_, fun e he => ?_, fun e f he hf hk => ?_, hl, fun e => ?_,
    fun b e he => ?_, ?_⟩
  · rw [hs.hashNext, hs.hashTable]; exact h.chain b
  · rw [hb]; exact h.hashed b e he
  · rw [hb]; exact h.valid e (hv e he)
  · rw [hs.key, hs.key] at hk
    exact h.unique e f (hv e he) (hv f hf) hk
  · rw [hs.usedCount, hm]; exact h.used e
  · rw [hs.usedCount]; exact h.chained b e he
  · rw [hs.usedCount]; exact h.count

/-- A hit: the entry goes to the front, and nothing else changes. -/
theorem Rep.lruTouch {c : Cache δ} {B : Nat → List Idx} {lru : List Idx} {e : Idx}
    (h : Rep c B lru) (he : e < c.usedCount) : ∃ lru', Rep (lruTouch c e) B lru' := by
  obtain ⟨xs, ys, rfl⟩ := List.append_of_mem ((h.used e).mpr he)
  have hr := h.order.remove
  have hnd := h.order.nodup
  rw [← lruLinks_lruRemove] at hr
  have hout : e ∉ xs ++ ys := (List.nodup_middle.mp hnd |> List.nodup_cons.mp).1
  have hp := hr.pushFront hout
  rw [← lruLinks_lruPushFront] at hp
  refine ⟨e :: (xs ++ ys), h.of_sameChains ((sameChains_lruRemove c e).trans
    (sameChains_lruPushFront _ e)) hp fun x => ?_⟩
  simp only [List.mem_cons, List.mem_append]
  constructor
  · rintro (hx | hx | hx)
    · exact .inr (.inl hx)
    · exact .inl hx
    · exact .inr (.inr hx)
  · rintro (hx | hx | hx)
    · exact .inr (.inl hx)
    · exact .inl hx
    · exact .inr (.inr hx)

end Serotonin.BlkCache
