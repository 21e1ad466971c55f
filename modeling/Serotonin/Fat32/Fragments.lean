import Serotonin.Fat32.Circles

/-! Where the scans of a directory store the pieces of a long name, and the name that is put together
from them. The array of the pieces has room for twenty. -/

namespace Serotonin.Fat32

open List
open Round (scan scan_append)

/-- A store into `lfn_fragments`, or a character into `lfn_buf`. -/
inductive NameStore
  | fragment (index : Nat)
  | char (index : Nat)
deriving DecidableEq

def NameStore.Inside : NameStore → Prop
  | .fragment index => index < 20
  | .char index => index < 256

instance (s : NameStore) : Decidable s.Inside :=
  match s with
  | .fragment index => Nat.decLt index 20
  | .char index => Nat.decLt index 256

/-! ## What a scan stores -/

/-- Where a piece is stored, if it is. -/
def LfnState.place (st : LfnState) (e : Entry) : Option Nat :=
  if e.order &&& 0x40 ≠ 0 then some 0
  else if st.valid ∧ e.checksum = st.checksum then some st.fragments.length
  else none

/-- The loops over the pieces and their characters, from `pos` on; the last store is that of the end. -/
def assembled : List UInt8 → Nat → List Nat
  | [], pos => [pos]
  | c :: cs, pos => if pos < 255 ∧ c ≠ 0 then pos :: assembled cs (pos + 1) else [pos]

/-- The stores of the name at an entry that pieces belong to. -/
def LfnState.nameStores (st : LfnState) (e : Entry) : List NameStore :=
  if st.valid ∧ st.fragments ≠ [] ∧ fat32LfnChecksum e.name = st.checksum then
    (assembled st.fragments.flatten 0).map .char
  else []

/-- The stores of a scan on the entries that it comes to, up to the first behind the array. -/
def scanStores (sc : Scanner) (count : Nat) (st : LfnState) : List Entry → List NameStore
  | [] => []
  | e :: es =>
    if e.first = 0 then []
    else if e.first = 0xE5 then scanStores sc count st.reset es
    else if e.isLfn then
      (st.place e).toList.map .fragment ++
        match st.collect e with
        | none => []
        | some st => scanStores sc count st es
    else if sc.skips e then scanStores sc count st.reset es
    else st.nameStores e ++ if sc.accept count st e then [] else scanStores sc (count + 1) st.reset es

/-- The scan of entries alone: it has ended at an end mark or at the entry that it looks for, and is
broken off where a piece does not fit. -/
def entryStep (sc : Scanner) (s : Nat × LfnState) (e : Entry) : Round Bool (Nat × LfnState) :=
  if e.first = 0 then .done true
  else if e.first = 0xE5 then .next (s.1, s.2.reset)
  else if e.isLfn then
    match s.2.collect e with
    | none => .done false
    | some st => .next (s.1, st)
  else if sc.skips e then .next (s.1, s.2.reset)
  else if sc.accept s.1 s.2 e then .done true
  else .next (s.1 + 1, s.2.reset)

/-- It has ended among these entries. -/
def EndsIn (sc : Scanner) (es : List Entry) : Prop := scan (entryStep sc) (0, .init) es = .done true

/-! ## The name -/

/-- The places of the name, with its end, are the first of the buffer. -/
theorem assembled_eq : ∀ (cs : List UInt8) (pos : Nat), pos ≤ 255 →
    assembled cs pos = List.range' pos (((cs.takeWhile (· ≠ 0)).take (255 - pos)).length + 1)
  | [], pos, _ => by simp [assembled]
  | c :: cs, pos, hpos => by
    rw [assembled]
    by_cases hc : c = 0
    · subst hc
      simp
    by_cases hlt : pos < 255
    · have htake : 255 - pos = (255 - (pos + 1)) + 1 := by omega
      rw [if_pos ⟨hlt, hc⟩, assembled_eq cs (pos + 1) hlt, takeWhile_cons_of_pos (by simpa using hc), htake,
        take_succ_cons, length_cons]
      exact List.range'_succ.symm
    · have hzero : 255 - pos = 0 := by omega
      rw [if_neg (by simp [hlt]), hzero, take_zero]
      rfl

theorem assembled_lt (cs : List UInt8) : ∀ pos ∈ assembled cs 0, pos < 256 := by
  intro pos hmem
  rw [assembled_eq cs 0 (Nat.zero_le _)] at hmem
  have hlen : ((cs.takeWhile (· ≠ 0)).take (255 - 0)).length ≤ 255 := length_take_le _ _
  have hlt := (List.mem_range'_1.mp hmem).2
  omega

theorem nameStores_inside (st : LfnState) (e : Entry) : ∀ s ∈ st.nameStores e, s.Inside := by
  intro s hs
  unfold LfnState.nameStores at hs
  split at hs
  · obtain ⟨pos, hpos, rfl⟩ := mem_map.mp hs
    exact assembled_lt _ pos hpos
  · cases hs

/-! ## The pieces -/

/-- How a piece is collected: as the first one, behind others, or not at all. -/
theorem collect_cases (st : LfnState) (e : Entry) :
    (e.order &&& 0x40 ≠ 0 ∧ st.place e = some 0 ∧
      st.collect e = some { valid := true, checksum := e.checksum, fragments := [fat32LfnExtractChars e] }) ∨
    (e.order &&& 0x40 = 0 ∧ (st.valid = true ∧ e.checksum = st.checksum) ∧ st.place e = some st.fragments.length ∧
      st.collect e = if st.fragments.length < 20 then
        some { st with fragments := fat32LfnExtractChars e :: st.fragments } else none) ∨
    (e.order &&& 0x40 = 0 ∧ ¬(st.valid = true ∧ e.checksum = st.checksum) ∧ st.place e = none ∧
      st.collect e = some st.reset) := by
  unfold LfnState.place LfnState.collect
  by_cases hmark : e.order &&& 0x40 ≠ 0
  · exact .inl ⟨hmark, if_pos hmark, by simp [hmark]⟩
  · have hzero : e.order &&& 0x40 = 0 := not_not.mp hmark
    by_cases hvalid : st.valid = true ∧ e.checksum = st.checksum
    · exact .inr (.inl ⟨hzero, hvalid, by simp [hzero, hvalid], by simp [hzero, hvalid]⟩)
    · exact .inr (.inr ⟨hzero, hvalid, by simp [hzero, hvalid], by simp [hzero, hvalid]⟩)

/-- All stores are inside as long as no piece is refused. -/
theorem stores_inside_iff (sc : Scanner) : ∀ (es : List Entry) (count : Nat) (st : LfnState), st.fragments.length ≤ 20 →
    ((∀ s ∈ scanStores sc count st es, s.Inside) ↔ scan (entryStep sc) (count, st) es ≠ .done false)
  | [], count, st, _ => by simp [scanStores, scan]
  | e :: es, count, st, hlen => by
    have hreset : st.reset.fragments.length ≤ 20 := Nat.zero_le _
    rw [scanStores, scan, entryStep]
    by_cases h0 : e.first = 0
    · simp [h0]
    simp only [h0, if_false]
    by_cases hdel : e.first = 0xE5
    · simp only [hdel, if_true]
      exact stores_inside_iff sc es count st.reset hreset
    simp only [hdel, if_false]
    cases hlfn : e.isLfn with
    | true =>
      simp only [if_true]
      obtain ⟨-, hplace, hcol⟩ | ⟨-, -, hplace, hcol⟩ | ⟨-, -, hplace, hcol⟩ := collect_cases st e
      · rw [hplace, hcol]
        have ih := stores_inside_iff sc es count
          { valid := true, checksum := e.checksum, fragments := [fat32LfnExtractChars e] } (by show 1 ≤ 20; omega)
        simpa [NameStore.Inside] using ih
      · rw [hplace, hcol]
        by_cases hlt : st.fragments.length < 20
        · have ih := stores_inside_iff sc es count { st with fragments := fat32LfnExtractChars e :: st.fragments } hlt
          simpa [NameStore.Inside, hlt] using ih
        · simp [NameStore.Inside, hlt]
      · rw [hplace, hcol]
        simpa using stores_inside_iff sc es count st.reset hreset
    | false =>
      simp only [Bool.false_eq_true, if_false]
      cases sc.skips e with
      | true => exact stores_inside_iff sc es count st.reset hreset
      | false =>
        have hname := nameStores_inside st e
        cases sc.accept count st e with
        | true => simpa using hname
        | false =>
          have ih := stores_inside_iff sc es (count + 1) st.reset hreset
          simp only [Bool.false_eq_true, if_false]
          rw [← ih, forall_mem_append]
          exact and_iff_right hname

/-! ## Runs of pieces -/

def Entry.IsPiece (e : Entry) : Prop := e.first ≠ 0 ∧ e.first ≠ 0xE5 ∧ e.isLfn = true

/-- The bit of the piece that comes first in the directory. -/
def Entry.IsMarked (e : Entry) : Prop := e.order &&& 0x40 ≠ 0

/-- A marked piece, and unmarked ones with its checksum. -/
structure PieceRun (head : Entry) (tail : List Entry) : Prop where
  first : head.IsPiece ∧ head.IsMarked
  rest : ∀ e ∈ tail, e.IsPiece ∧ ¬e.IsMarked ∧ e.checksum = head.checksum

section Runs

variable {sc : Scanner} {s : Nat × LfnState} {e : Entry}

theorem entryStep_piece (h : e.IsPiece) : entryStep sc s e =
    match s.2.collect e with
    | none => .done false
    | some st => .next (s.1, st) := by
  unfold entryStep
  rw [if_neg h.1, if_neg h.2.1, if_pos h.2.2]

theorem collect_marked (h : e.IsMarked) (st : LfnState) :
    st.collect e = some { valid := true, checksum := e.checksum, fragments := [fat32LfnExtractChars e] } := by
  obtain ⟨-, -, hcol⟩ | ⟨hzero, -⟩ | ⟨hzero, -⟩ := collect_cases st e
  · exact hcol
  · exact absurd hzero h
  · exact absurd hzero h

theorem collect_unmarked (h : ¬e.IsMarked) {st : LfnState} (hvalid : st.valid = true) (hsum : e.checksum = st.checksum) :
    st.collect e = if st.fragments.length < 20 then some { st with fragments := fat32LfnExtractChars e :: st.fragments }
      else none := by
  obtain ⟨hmark, -⟩ | ⟨-, -, -, hcol⟩ | ⟨-, hnot, -⟩ := collect_cases st e
  · exact absurd hmark h
  · exact hcol
  · exact absurd ⟨hvalid, hsum⟩ hnot

/-- Pieces that belong together go on filling the array, and then past it. -/
theorem scan_tail (count : Nat) : ∀ (tail : List Entry) (st : LfnState), st.valid = true →
    (∀ e ∈ tail, e.IsPiece ∧ ¬e.IsMarked ∧ e.checksum = st.checksum) → 20 < st.fragments.length + tail.length →
    st.fragments.length ≤ 20 → scan (entryStep sc) (count, st) tail = .done false
  | [], st, _, _, hlong, hlen => absurd hlong (Nat.not_lt.mpr hlen)
  | e :: tail, st, hvalid, htail, hlong, hlen => by
    obtain ⟨hpiece, hunmarked, hsum⟩ := htail e mem_cons_self
    rw [scan, entryStep_piece hpiece, collect_unmarked hunmarked hvalid hsum]
    by_cases hlt : st.fragments.length < 20
    · rw [if_pos hlt]
      refine scan_tail count tail { st with fragments := fat32LfnExtractChars e :: st.fragments } hvalid
        (fun e he => htail e (mem_cons_of_mem _ he)) ?_ hlt
      rw [length_cons] at hlong ⊢
      omega
    · rw [if_neg hlt]

theorem scan_longRun {head : Entry} {tail post : List Entry} (h : PieceRun head tail) (hlong : 20 ≤ tail.length)
    (s : Nat × LfnState) : scan (entryStep sc) s (head :: (tail ++ post)) = .done false := by
  rw [scan, entryStep_piece h.first.1, collect_marked h.first.2]
  dsimp only
  rw [scan_append, scan_tail s.1 tail _ rfl h.rest]
  · show 20 < 1 + tail.length
    omega
  · show 1 ≤ 20
    omega

/-- The pieces that a scan has collected are the entries that it came to last. -/
def FromRun (es : List Entry) (st : LfnState) : Prop :=
  ∃ pre head tail, es = pre ++ head :: tail ∧ PieceRun head tail ∧ st.checksum = head.checksum ∧
    st.fragments.length = tail.length + 1

theorem fromRun_step {es : List Entry} {s t : Nat × LfnState} (hs : s.2.valid = true → FromRun es s.2)
    (hstep : entryStep sc s e = .next t) : t.2.valid = true → FromRun (es ++ [e]) t.2 := by
  intro hvalid
  have hreset : s.2.reset.valid = false := rfl
  unfold entryStep at hstep
  by_cases h0 : e.first = 0
  · rw [if_pos h0] at hstep
    cases hstep
  rw [if_neg h0] at hstep
  by_cases hdel : e.first = 0xE5
  · rw [if_pos hdel] at hstep
    cases hstep
    exact absurd (hreset.symm.trans hvalid) Bool.false_ne_true
  rw [if_neg hdel] at hstep
  by_cases hlfn : e.isLfn = true
  · rw [if_pos hlfn] at hstep
    have hpiece : e.IsPiece := ⟨h0, hdel, hlfn⟩
    obtain ⟨hmark, -, hcol⟩ | ⟨hzero, hbelongs, -, hcol⟩ | ⟨-, -, -, hcol⟩ := collect_cases s.2 e
    · rw [hcol] at hstep
      cases hstep
      exact ⟨es, e, [], rfl, ⟨⟨hpiece, hmark⟩, fun _ h => absurd h not_mem_nil⟩, rfl, rfl⟩
    · rw [hcol] at hstep
      obtain ⟨pre, head, tail, hes, hrun, hsum, hlen⟩ := hs hbelongs.1
      split at hstep
      · cases hstep
      · next st' hst' =>
        cases hstep
        split at hst'
        · cases hst'
          refine ⟨pre, head, tail ++ [e], by rw [hes]; simp, ⟨hrun.first, fun x hx => ?_⟩, hsum, by simp [hlen]⟩
          rcases mem_append.mp hx with hx | hx
          · exact hrun.rest x hx
          · obtain rfl := mem_singleton.mp hx
            exact ⟨hpiece, not_not.mpr hzero, hbelongs.2.trans hsum⟩
        · cases hst'
    · rw [hcol] at hstep
      cases hstep
      exact absurd (hreset.symm.trans hvalid) Bool.false_ne_true
  rw [if_neg hlfn] at hstep
  split at hstep
  · cases hstep
    exact absurd (hreset.symm.trans hvalid) Bool.false_ne_true
  · split at hstep
    · cases hstep
    · cases hstep
      exact absurd (hreset.symm.trans hvalid) Bool.false_ne_true

theorem fromRun_scan {t : Nat × LfnState} : ∀ {es : List Entry}, scan (entryStep sc) (0, .init) es = .next t →
    t.2.valid = true → FromRun es t.2 := by
  intro es
  induction es using List.reverseRecOn generalizing t with
  | nil =>
    intro h
    cases h
    exact fun hvalid => absurd hvalid Bool.false_ne_true
  | append_singleton es e ih =>
    intro h
    rw [scan_append] at h
    cases hes : scan (entryStep sc) (0, .init) es with
    | done r =>
      rw [hes] at h
      cases h
    | next s =>
      rw [hes] at h
      have hnext : entryStep sc s e = .next t := by
        cases he : entryStep sc s e with
        | done r => simp [scan, he] at h
        | next t' => simpa [scan, he] using h
      exact fromRun_step (ih hes) hnext

end Runs

/-- Where a scan is done, it was not before the last entry that it came to. -/
theorem scan_done_split {ι ρ σ : Type} {step : σ → ι → Round ρ σ} {r : ρ} : ∀ {xs : List ι} {s : σ},
    scan step s xs = .done r → ∃ pre x post t, xs = pre ++ x :: post ∧ scan step s pre = .next t ∧ step t x = .done r
  | x :: xs, s, h => by
    rw [scan] at h
    cases hx : step s x with
    | done r' =>
      rw [hx] at h
      cases h
      exact ⟨[], x, xs, s, rfl, rfl, hx⟩
    | next s' =>
      rw [hx] at h
      obtain ⟨pre, y, post, t, rfl, hpre, hy⟩ := scan_done_split h
      refine ⟨x :: pre, y, post, t, rfl, ?_, hy⟩
      rw [scan, hx]
      exact hpre

theorem scan_prefix_next {ι ρ σ : Type} {step : σ → ι → Round ρ σ} {s t : σ} {xs ys : List ι}
    (h : scan step s (xs ++ ys) = .next t) : ∃ t', scan step s xs = .next t' := by
  rw [scan_append] at h
  cases hs : scan step s xs with
  | done r =>
    rw [hs] at h
    cases h
  | next t' => exact ⟨t', rfl⟩

theorem entryStep_overrun {sc : Scanner} {s : Nat × LfnState} {e : Entry} (h : entryStep sc s e = .done false) :
    e.IsPiece ∧ ¬e.IsMarked ∧ s.2.valid = true ∧ e.checksum = s.2.checksum ∧ 20 ≤ s.2.fragments.length := by
  unfold entryStep at h
  by_cases h0 : e.first = 0
  · rw [if_pos h0] at h
    cases h
  rw [if_neg h0] at h
  by_cases hdel : e.first = 0xE5
  · rw [if_pos hdel] at h
    cases h
  rw [if_neg hdel] at h
  by_cases hlfn : e.isLfn = true
  · rw [if_pos hlfn] at h
    obtain ⟨-, -, hcol⟩ | ⟨hzero, hbelongs, -, hcol⟩ | ⟨-, -, -, hcol⟩ := collect_cases s.2 e
    · rw [hcol] at h
      cases h
    · refine ⟨⟨h0, hdel, hlfn⟩, not_not.mpr hzero, hbelongs.1, hbelongs.2, ?_⟩
      by_contra hlt
      rw [hcol, if_pos (Nat.not_le.mp hlt)] at h
      cases h
    · rw [hcol] at h
      cases h
  rw [if_neg hlfn] at h
  split at h
  · cases h
  · split at h <;> cases h

/-- All stores of a scan are inside its arrays if and only if no first piece is followed by twenty more of
its name, among the entries before the scan ends. -/
theorem fragments_inside_iff (sc : Scanner) (es : List Entry) :
    (∀ s ∈ scanStores sc 0 .init es, s.Inside) ↔
      ∀ pre head tail post, es = pre ++ head :: (tail ++ post) → PieceRun head tail → 20 ≤ tail.length → EndsIn sc pre := by
  rw [stores_inside_iff sc es 0 .init (Nat.zero_le _)]
  constructor
  · rintro hnot pre head tail post rfl hrun hlong
    rw [Round.scan_append] at hnot
    cases hpre : Round.scan (entryStep sc) (0, .init) pre with
    | next s =>
      rw [hpre] at hnot
      exact absurd (scan_longRun hrun hlong s) hnot
    | done ended =>
      rw [hpre] at hnot
      cases ended with
      | true => exact hpre
      | false => exact absurd rfl hnot
  · intro hall hover
    obtain ⟨pre, e, post, t, rfl, hpre, hstep⟩ := scan_done_split hover
    obtain ⟨hpiece, hunmarked, hvalid, hsum, hlen⟩ := entryStep_overrun hstep
    obtain ⟨pre', head, tail, rfl, hrun, hsum', hlen'⟩ := fromRun_scan hpre hvalid
    have hlonger : PieceRun head (tail ++ [e]) := by
      refine ⟨hrun.first, fun x hx => ?_⟩
      rcases List.mem_append.mp hx with hx | hx
      · exact hrun.rest x hx
      · obtain rfl := List.mem_singleton.mp hx
        exact ⟨hpiece, hunmarked, hsum.trans hsum'⟩
    have hends := hall pre' head (tail ++ [e]) post (by simp) hlonger (by rw [List.length_append, List.length_singleton]; omega)
    obtain ⟨t', ht'⟩ := scan_prefix_next hpre
    exact absurd (hends.symm.trans ht') nofun

/-- A piece of a name of `A`s. -/
def pieceOfA (order : UInt8) : Entry :=
  [order] ++ List.replicate 5 65 ++ List.replicate 5 0 ++ [0x0F] ++ List.replicate 20 0

/-- The pieces of a name of 273 characters. -/
def longChain : List Entry := pieceOfA 0x55 :: ((List.range' 1 20).reverse.map fun seq => pieceOfA (.ofNat seq))

theorem not_fragments_inside : ¬∀ (sc : Scanner) (es : List Entry), ∀ s ∈ scanStores sc 0 .init es, s.Inside := by
  intro h
  have hstore : NameStore.fragment 20 ∈ scanStores (finddirScan []) 0 .init longChain := by decide +kernel
  exact absurd (h _ _ _ hstore) (by decide)

/-! ## The scans of the driver -/

/-- A scan of slots is the scan of their entries. -/
theorem scan_entries (sc : Scanner) : ∀ (xs : List Slot) (s : Nat × LfnState),
    scan (entryStep sc) s (xs.map Slot.entry) =
      match scan (scanStep sc) s xs with
      | .done (.ok _) => .done true
      | .done (.error _) => .done false
      | .next s => .next s
  | [], _ => rfl
  | x :: xs, s => by
    have ih := scan_entries sc xs
    rw [map_cons, scan, scan, entryStep, scanStep]
    by_cases h0 : x.entry.first = 0
    · simp [h0]
    by_cases hdel : x.entry.first = 0xE5
    · simpa [hdel] using ih _
    cases hlfn : x.entry.isLfn with
    | true =>
      cases hcol : s.2.collect x.entry with
      | none => simp [h0, hdel]
      | some st => simpa [h0, hdel, hcol] using ih _
    | false =>
      cases hskip : sc.skips x.entry with
      | true => simpa [h0, hdel] using ih _
      | false =>
        cases hacc : sc.accept s.1 s.2 x.entry with
        | true => simp [h0, hdel]
        | false => simpa [h0, hdel] using ih _

end Serotonin.Fat32
