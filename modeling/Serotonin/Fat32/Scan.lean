import Serotonin.Fat32.Dir
import Serotonin.Fat32.Volume

/-! Scans of a directory, as searches in a list: the short entries with the pieces of long
names collected before each. The list is the same for every scan, so scans differ only in
what they look for. -/

namespace Serotonin.Fat32

open ByteMem (Mem)

variable {g : Geometry}

/-! ## Slots -/

/-- A place for an entry, in a buffer that holds its cluster. -/
structure Slot where
  cluster : Nat
  buf : Mem
  index : Nat

namespace Slot

def entry (x : Slot) : Entry := entryAt x.buf x.index

def hit (x : Slot) (st : LfnState) : Hit := { cluster := x.cluster, buf := x.buf, index := x.index, state := st }

end Slot

/-- `n` slots of a buffer from the slot `i` on. -/
def slotsFrom (cluster : Nat) (buf : Mem) (i n : Nat) : List Slot := (List.range' i n).map fun j => ⟨cluster, buf, j⟩

def clusterSlots (g : Geometry) (v : Volume) (c : Nat) : List Slot := slotsFrom c (v.cluster g c) 0 g.perCluster

/-- The slots of a directory. -/
def dirSlots (g : Geometry) (v : Volume) (cs : List Nat) : List Slot := cs.flatMap (clusterSlots g v)

theorem slotsFrom_succ (cluster : Nat) (buf : Mem) (i n : Nat) :
    slotsFrom cluster buf i (n + 1) = ⟨cluster, buf, i⟩ :: slotsFrom cluster buf (i + 1) n := rfl

@[simp] theorem dirSlots_cons (v : Volume) (c : Nat) (cs : List Nat) :
    dirSlots g v (c :: cs) = clusterSlots g v c ++ dirSlots g v cs := rfl

theorem dirSlots_append (v : Volume) (cs cs' : List Nat) : dirSlots g v (cs ++ cs') = dirSlots g v cs ++ dirSlots g v cs' :=
  List.flatMap_append

/-! ## What scans share -/

/-- Is there a short entry, the name of something? -/
def Entry.isShort (e : Entry) : Bool := e.first != 0 && e.first != 0xE5 && !e.isLfn

/-- The pieces after an entry that a scan goes past, if it goes on. -/
def LfnState.pass (st : LfnState) (e : Entry) : Option LfnState :=
  if e.first = 0 then none
  else if e.first = 0xE5 then some st.reset
  else if e.isLfn then st.collect e
  else some st.reset

def pieces (st : LfnState) : List Slot → Option LfnState
  | [] => some st
  | x :: xs => (st.pass x.entry).bind fun st => pieces st xs

/-- The short entries that a scan can come to. -/
def shorts (st : LfnState) : List Slot → List (Slot × LfnState)
  | [] => []
  | x :: xs =>
    (if x.entry.isShort then [(x, st)] else []) ++
      match st.pass x.entry with
      | none => []
      | some st => shorts st xs

/-- Does a run of pieces go on for too long? -/
def overruns (st : LfnState) : List Slot → Bool
  | [] => false
  | x :: xs =>
    match st.pass x.entry with
    | none => x.entry.first != 0
    | some st => overruns st xs

theorem pieces_append (xs ys : List Slot) : ∀ st, pieces st (xs ++ ys) = (pieces st xs).bind fun st => pieces st ys := by
  induction xs with
  | nil => exact fun _ => rfl
  | cons x xs ih =>
    intro st
    show (st.pass x.entry).bind (fun st => pieces st (xs ++ ys)) = ((st.pass x.entry).bind fun st => pieces st xs).bind _
    rw [Option.bind_assoc]
    exact congrArg _ (funext ih)

theorem shorts_append (xs ys : List Slot) : ∀ st, shorts st (xs ++ ys) =
    shorts st xs ++ (pieces st xs).elim [] fun st => shorts st ys := by
  induction xs with
  | nil => exact fun _ => rfl
  | cons x xs ih =>
    intro st
    simp only [List.cons_append, shorts, pieces, List.append_assoc]
    cases st.pass x.entry with
    | none => rfl
    | some st' => exact congrArg (_ ++ ·) (ih st')

/-! ## One scan -/

def Scanner.skips (sc : Scanner) (e : Entry) : Bool := (sc.skipVolumeId && e.isVolumeId) || (sc.skipBlank && e.first == 32)

/-- The scan of the slots of a whole directory. -/
def scanSlots (sc : Scanner) (count : Nat) (st : LfnState) : List Slot → Except Stop (Option Hit)
  | [] => .ok none
  | x :: xs =>
    let e := x.entry
    if e.first = 0 then .ok none
    else if e.first = 0xE5 then scanSlots sc count st.reset xs
    else if e.isLfn then
      match st.collect e with
      | none => .error .overrun
      | some st => scanSlots sc count st xs
    else if sc.skips e then scanSlots sc count st.reset xs
    else if sc.accept count st e then .ok (some (x.hit st))
    else scanSlots sc (count + 1) st.reset xs

/-- After one cluster the scan goes on in the next. -/
theorem scanSlots_cluster (sc : Scanner) (cluster : Nat) (buf : Mem) (rest : List Slot) (n : Nat) :
    ∀ i count st, scanSlots sc count st (slotsFrom cluster buf i n ++ rest) =
      match scanCluster sc buf i count st n with
      | .endMark => .ok none
      | .overrun => .error .overrun
      | .found j st => .ok (some { cluster := cluster, buf := buf, index := j, state := st })
      | .next count st => scanSlots sc count st rest := by
  induction n with
  | zero => exact fun _ _ _ => rfl
  | succ n ih =>
    intro i count st
    have hentry : (Slot.mk cluster buf i).entry = entryAt buf i := rfl
    rw [slotsFrom_succ, List.cons_append, scanSlots, scanCluster, hentry]
    generalize entryAt buf i = e
    by_cases h0 : e.first = 0
    · rw [if_pos h0, if_pos h0]
    rw [if_neg h0, if_neg h0]
    by_cases hdel : e.first = 0xE5
    · rw [if_pos hdel, if_pos hdel]
      exact ih (i + 1) count st.reset
    rw [if_neg hdel, if_neg hdel]
    by_cases hlfn : e.isLfn
    · rw [if_pos hlfn, if_pos hlfn]
      cases st.collect e with
      | none => rfl
      | some st' => exact ih (i + 1) count st'
    rw [if_neg hlfn, if_neg hlfn]
    have hskips : ((sc.skipVolumeId && e.isVolumeId) || (sc.skipBlank && e.first == 32)) = sc.skips e := rfl
    rw [hskips]
    cases sc.skips e with
    | true => exact ih (i + 1) count st.reset
    | false =>
      cases sc.accept count st e with
      | true => rfl
      | false => exact ih (i + 1) (count + 1) st.reset

theorem run_scanChain (hg : g.Valid) {v : Volume} (sc : Scanner) {c : Nat} {cs : List Nat} (h : Chain g v.fat c cs) :
    ∀ n, cs.length < n → ∀ count st, Prog.run (onVolume g) (scanChain g sc n c count st) v =
      (scanSlots sc count st (dirSlots g v cs)).map fun o => (o, v) := by
  induction h with
  | nil hend =>
    intro n hn count st
    obtain ⟨n, rfl⟩ := Nat.exists_eq_add_of_lt hn
    rw [scanChain, if_neg (Nat.not_lt.mpr hend)]
    rfl
  | @cons c cs hc _ ih =>
    intro n hn count st
    cases n with
    | zero => exact absurd hn (Nat.not_lt_zero _)
    | succ n =>
      rw [scanChain, if_pos (hc.isCluster hg).2, Prog.run_bind_ok (run_readCluster_zero hg hc), dirSlots_cons, clusterSlots,
        scanSlots_cluster]
      cases scanCluster sc (v.cluster g c) 0 count st g.perCluster with
      | endMark => rfl
      | overrun => rfl
      | found j st => rfl
      | next count st =>
        dsimp only
        rw [Prog.run_bind_ok (run_readFatEntry hg hc)]
        exact ih n (Nat.lt_of_succ_lt_succ hn) count st

theorem run_scanDir (hg : g.Valid) {v : Volume} (sc : Scanner) {c : Nat} {cs : List Nat} (h : Chain g v.fat c cs) :
    Prog.run (onVolume g) (scanDir g sc c) v = (scanSlots sc 0 .init (dirSlots g v cs)).map fun o => (o, v) := by
  refine run_scanChain hg sc h _ ?_ 0 .init
  rw [hg.total_eq]
  exact Nat.lt_succ_of_le (h.length_le hg)

/-! ## Searches -/

/-- The search in the list of short entries. -/
def Scanner.walk (sc : Scanner) (count : Nat) : List (Slot × LfnState) → Option (Slot × LfnState)
  | [] => none
  | p :: ps =>
    if sc.skips p.1.entry then sc.walk count ps
    else if sc.accept count p.2 p.1.entry then some p
    else sc.walk (count + 1) ps

section Walk

variable {sc : Scanner} {count : Nat} {p : Slot × LfnState} (ps : List (Slot × LfnState))

theorem walk_skip (h : sc.skips p.1.entry = true) : sc.walk count (p :: ps) = sc.walk count ps := if_pos h

theorem walk_hit (h : sc.skips p.1.entry = false) (hacc : sc.accept count p.2 p.1.entry = true) :
    sc.walk count (p :: ps) = some p := by
  rw [Scanner.walk, h, hacc]
  rfl

theorem walk_miss (h : sc.skips p.1.entry = false) (hacc : sc.accept count p.2 p.1.entry = false) :
    sc.walk count (p :: ps) = sc.walk (count + 1) ps := by
  rw [Scanner.walk, h, hacc]
  rfl

end Walk

theorem scanSlots_eq_walk (sc : Scanner) (xs : List Slot) : ∀ count st, scanSlots sc count st xs =
    match sc.walk count (shorts st xs) with
    | some p => .ok (some (p.1.hit p.2))
    | none => if overruns st xs then .error .overrun else .ok none := by
  induction xs with
  | nil => exact fun _ _ => rfl
  | cons x xs ih =>
    intro count st
    rw [scanSlots, shorts, overruns]
    by_cases h0 : x.entry.first = 0
    · simp [h0, LfnState.pass, Entry.isShort, Scanner.walk]
    by_cases hdel : x.entry.first = 0xE5
    · simp [hdel, LfnState.pass, Entry.isShort, ih]
    cases hlfn : x.entry.isLfn with
    | true =>
      cases hcol : st.collect x.entry with
      | none => simp [h0, hdel, hlfn, hcol, LfnState.pass, Entry.isShort, Scanner.walk]
      | some st' => simp [h0, hdel, hlfn, hcol, LfnState.pass, Entry.isShort, ih]
    | false =>
      have hpass : st.pass x.entry = some st.reset := by simp [LfnState.pass, h0, hdel, hlfn]
      have hshort : x.entry.isShort = true := by simp [Entry.isShort, h0, hdel, hlfn]
      simp only [h0, hdel, hpass, hshort, if_true, if_false, Bool.false_eq_true, List.singleton_append]
      cases hskip : sc.skips x.entry with
      | true =>
        rw [walk_skip (p := (x, st)) _ hskip]
        exact ih count st.reset
      | false =>
        cases hacc : sc.accept count st x.entry with
        | true =>
          rw [walk_hit (p := (x, st)) _ hskip hacc]
          rfl
        | false =>
          rw [walk_miss (p := (x, st)) _ hskip hacc]
          exact ih (count + 1) st.reset

/-- A scan that looks for a name finds the first entry that has it. -/
theorem walk_eq_find (sc : Scanner) (named : LfnState → Entry → Bool) (hsc : ∀ count, sc.accept count = named)
    (ps : List (Slot × LfnState)) :
    ∀ count, sc.walk count ps = ps.find? fun q => !sc.skips q.1.entry && named q.2 q.1.entry := by
  induction ps with
  | nil => exact fun _ => rfl
  | cons q ps ih =>
    intro count
    cases hskip : sc.skips q.1.entry with
    | true => simp [walk_skip (p := q) _ hskip, hskip, ih]
    | false =>
      cases hp : named q.2 q.1.entry with
      | true => simp [walk_hit (p := q) _ hskip ((congrFun₂ (hsc count) _ _).trans hp), hskip, hp]
      | false => simp [walk_miss (p := q) _ hskip ((congrFun₂ (hsc count) _ _).trans hp), hskip, hp, ih]

/-- A scan that counts finds the entry with the number. -/
theorem walk_eq_getElem (sc : Scanner) (index : Nat) (hsc : ∀ count st e, sc.accept count st e = (count == index))
    (ps : List (Slot × LfnState)) :
    ∀ count, count ≤ index → sc.walk count ps = (ps.filter fun q => !sc.skips q.1.entry)[index - count]? := by
  induction ps with
  | nil => exact fun _ _ => rfl
  | cons q ps ih =>
    intro count hle
    cases hskip : sc.skips q.1.entry with
    | true => simp [walk_skip (p := q) _ hskip, hskip, ih count hle]
    | false =>
      by_cases heq : count = index
      · subst heq
        simp [walk_hit (p := q) _ hskip ((hsc count _ _).trans (beq_self_eq_true _)), hskip]
      · have hlt : count + 1 ≤ index := Nat.lt_of_le_of_ne hle heq
        have hsub : index - count = (index - (count + 1)) + 1 := by omega
        simp [walk_miss (p := q) _ hskip ((hsc count _ _).trans (beq_false_of_ne heq)), hskip, hsub, ih (count + 1) hlt]

end Serotonin.Fat32
