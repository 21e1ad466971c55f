import Serotonin.Files.Descriptors

/-! The table is used with the indexes of its entries alone, and a bad descriptor leaves everything
as it is: for every call but `sys_close`, `sys_lseek` and `sys_fstat`, whose descriptor has a sign
and no lower bound. -/

namespace Serotonin.Descriptors

open Files (Tid HandleId fdMax ebadf efault einval)

/-! ## Bounds, and calls that change nothing -/

/-- The call has gone into the table alone. -/
def InTable {K : Type} (s : System K) : Prop := ∀ i ∈ s.indexed, 0 ≤ i ∧ i < fdMax

/-- Nothing is different but the result. -/
structure Unchanged {K : Type} (s s' : System K) : Prop where
  fdTable : s'.fdTable = s.fdTable
  current : s'.current = s.current
  exited : s'.exited = s.exited
  kernel : s'.kernel = s.kernel

section
variable {K : Type} {w : Work K} {s s' s'' : System K} {fd : Word}

/-- The descriptor has an entry in the table. -/
def Open (s : System K) (fd : Word) : Prop := 0 ≤ fd.toInt ∧ fd.toInt < fdMax ∧ s.fdTable s.current fd.toInt ≠ none

theorem Unchanged.refl (s : System K) : Unchanged s s := ⟨rfl, rfl, rfl, rfl⟩

theorem Unchanged.trans (h : Unchanged s s') (h' : Unchanged s' s'') : Unchanged s s'' :=
  ⟨h'.fdTable.trans h.fdTable, h'.current.trans h.current, h'.exited.trans h.exited, h'.kernel.trans h.kernel⟩

theorem touch_unchanged (s : System K) (i : Int) : Unchanged s (s.touch i) := ⟨rfl, rfl, rfl, rfl⟩

theorem ret_unchanged (s : System K) (v : Int) : Unchanged s (s.ret v) := ⟨rfl, rfl, rfl, rfl⟩

theorem touch_ret_unchanged (s : System K) (i v : Int) : Unchanged s ((s.touch i).ret v) := ⟨rfl, rfl, rfl, rfl⟩

theorem InTable.add {i : Int} (h : InTable s) (hi : 0 ≤ i ∧ i < fdMax) (hs : s'.indexed = s.indexed ++ [i]) :
    InTable s' := by
  intro j hj
  rw [hs, List.mem_append, List.mem_singleton] at hj
  obtain hj | rfl := hj
  · exact h j hj
  · exact hi

theorem InTable.touch {i : Int} (h : InTable s) (hi : 0 ≤ i ∧ i < fdMax) : InTable (s.touch i) := h.add hi rfl

theorem InTable.put {t : Tid} {i : Int} {x : Option HandleId} (h : InTable s) (hi : 0 ≤ i ∧ i < fdMax) :
    InTable (s.put t i x) := h.add hi rfl

/-- The unsigned value of a descriptor that the table has. -/
theorem natIndex (h : ¬ fdMax ≤ fd.toNat) : (0 : Int) ≤ fd.toNat ∧ (fd.toNat : Int) < fdMax := by omega

theorem toInt_of_toNat (h : fd.toNat < fdMax) : fd.toInt = fd.toNat := by
  have hmax : fdMax = 64 := rfl
  rw [BitVec.toInt_eq_toNat_of_lt (by omega)]

theorem toNat_of_toInt (h0 : 0 ≤ fd.toInt) : (fd.toNat : Int) = fd.toInt := by
  have h := fd.isLt
  rw [BitVec.toInt_eq_toNat_cond] at h0 ⊢
  split at h0 <;> split <;> omega

theorem allocLoop_inTable (t : Tid) (h : HandleId) (n i : Nat) (hs : InTable s) (hi : i + n ≤ fdMax) :
    InTable (allocLoop w t h n i s).1 := by
  induction n generalizing i s with
  | zero => exact hs
  | succ n ih =>
    have hin : (0 : Int) ≤ i ∧ (i : Int) < fdMax := by omega
    unfold allocLoop
    split
    · exact ih (i + 1) (hs.touch hin) (by omega)
    · exact InTable.put (t := t) (x := some h) (hs.touch hin) hin

theorem allocFd_inTable (t : Tid) (h : HandleId) (hs : InTable s) : InTable (allocFd w s t h).1 :=
  allocLoop_inTable t h fdMax 0 hs (by omega)

theorem closeFd_inTable (i : Int) (hs : InTable s) : InTable (closeFd w s i).1 := by
  unfold closeFd
  split
  · exact hs
  rename_i hi
  have hin : 0 ≤ i ∧ i < fdMax := by omega
  split
  · exact hs.touch hin
  · exact InTable.put (t := s.current) (x := none) ((hs.touch hin).touch hin) hin

/-! ## One lemma for each handler -/

theorem entry_none (h : ¬ Open s fd) (h0 : 0 ≤ fd.toInt) (hmax : fd.toInt < fdMax) :
    s.fdTable s.current fd.toInt = none := by
  by_contra hne
  exact h ⟨h0, hmax, hne⟩

theorem entry_none_nat (h : ¬ Open s fd) (hmax : ¬ fdMax ≤ fd.toNat) : s.fdTable s.current fd.toNat = none := by
  have hi := toInt_of_toNat (Nat.lt_of_not_le hmax)
  rw [← hi]
  exact entry_none h (by omega) (by omega)

theorem sysTransfer_inTable (c : Call) (term : Nat → Bool) (hs : InTable s) : InTable (sysTransfer w c term fd s) := by
  unfold sysTransfer
  split
  · exact hs
  rename_i hmax
  have hin := natIndex hmax
  split
  · exact (hs.touch hin).touch hin
  split
  · exact hs.touch hin
  · exact hs.touch hin

theorem sysTransfer_unchanged (c : Call) {term : Nat → Bool} (h : ¬ Open s fd) (ht : term fd.toNat = false) :
    Unchanged s (sysTransfer w c term fd s) := by
  unfold sysTransfer
  split
  · exact ret_unchanged s _
  rename_i hmax
  rw [entry_none_nat h hmax, ht]
  exact touch_ret_unchanged s _ _

theorem sysClose_inTable (h0 : 0 ≤ fd.toInt) (hs : InTable s) : InTable (sysClose w fd s) := by
  unfold sysClose
  split
  · exact hs
  rename_i hmax
  have hin : 0 ≤ fd.toInt ∧ fd.toInt < fdMax := ⟨h0, Int.not_le.mp hmax⟩
  split
  · exact hs.touch hin
  · exact closeFd_inTable _ (hs.touch hin)

theorem sysClose_unchanged (h0 : 0 ≤ fd.toInt) (h : ¬ Open s fd) : Unchanged s (sysClose w fd s) := by
  unfold sysClose
  split
  · exact ret_unchanged s _
  rename_i hmax
  rw [entry_none h h0 (Int.not_le.mp hmax)]
  exact touch_ret_unchanged s _ _

theorem sysLseek_inTable {offset whence : Word} (h0 : 0 ≤ fd.toInt) (hs : InTable s) :
    InTable (sysLseek w fd offset whence s) := by
  unfold sysLseek
  split
  · exact hs
  rename_i hmax
  have hin : 0 ≤ fd.toInt ∧ fd.toInt < fdMax := ⟨h0, Int.not_le.mp hmax⟩
  split
  · exact hs.touch hin
  dsimp only
  split
  · exact (hs.touch hin).touch hin
  split
  · exact (hs.touch hin).touch hin
  · exact (hs.touch hin).touch hin

/-- A descriptor that is not open ends the caller. -/
theorem sysLseek_exits {offset whence : Word} (h0 : 0 ≤ fd.toInt) (h : ¬ Open s fd) :
    (sysLseek w fd offset whence s).exited = some exitSigkill := by
  unfold sysLseek
  split
  · rfl
  rename_i hmax
  rw [entry_none h h0 (Int.not_le.mp hmax)]
  rfl

theorem sysFstat_inTable {addr : Word} (h0 : 0 ≤ fd.toInt) (hs : InTable s) : InTable (sysFstat w fd addr s) := by
  unfold sysFstat
  split
  · exact hs
  rename_i hmax
  have hin : 0 ≤ fd.toInt ∧ fd.toInt < fdMax := ⟨h0, Int.not_le.mp hmax⟩
  have hfirst := hs.touch hin
  have hsecond : InTable (if fd.toInt < 3 then (s.touch fd.toInt).touch fd.toInt else s.touch fd.toInt) := by
    split
    · exact hfirst.touch hin
    · exact hfirst
  dsimp only
  split
  · exact hfirst
  split
  · exact hfirst
  split
  · exact hsecond
  · exact hsecond.touch hin

theorem sysFstat_unchanged {addr : Word} (h0 : 0 ≤ fd.toInt) (h : ¬ Open s fd) (ht : 2 < fd.toInt) :
    Unchanged s (sysFstat w fd addr s) := by
  unfold sysFstat
  split
  · exact ret_unchanged s _
  rename_i hmax
  dsimp only
  rw [if_pos ⟨entry_none h h0 (Int.not_le.mp hmax), ht⟩]
  exact touch_ret_unchanged s _ _

theorem sysDup_inTable {newfd : Word} (hs : InTable s) : InTable (sysDup w fd newfd s) := by
  unfold sysDup
  split
  · exact hs
  rename_i hold
  have hin : 0 ≤ fd.toInt ∧ fd.toInt < fdMax := by omega
  split
  · exact hs.touch hin
  rename_i h _
  dsimp only
  split
  · exact allocFd_inTable _ h ((hs.touch hin).touch hin)
  rename_i hpos
  split
  · exact hs.touch hin
  rename_i hmax
  have hnew : 0 ≤ newfd.toInt ∧ newfd.toInt < fdMax := by omega
  split
  · exact hs.touch hin
  refine InTable.touch (InTable.put (x := some h) (InTable.touch ?_ hin) hnew) hnew
  split
  · exact (hs.touch hin).touch hnew
  · exact closeFd_inTable _ ((hs.touch hin).touch hnew)

theorem sysDup_unchanged {newfd : Word} (h : ¬ Open s fd ∨ fdMax ≤ newfd.toInt) :
    Unchanged s (sysDup w fd newfd s) := by
  unfold sysDup
  split
  · exact ret_unchanged s _
  rename_i hold
  cases he : s.fdTable s.current fd.toInt with
  | none => exact touch_ret_unchanged s _ _
  | some x =>
    have hmax : fdMax ≤ newfd.toInt := by
      refine h.resolve_left fun hno => hno ⟨by omega, by omega, ?_⟩
      rw [he]
      simp
    dsimp only
    rw [if_neg (by omega), if_pos hmax]
    exact touch_ret_unchanged s _ _

theorem sockFromFd_inTable (hs : InTable s) : InTable (sockFromFd w fd s).2 := by
  unfold sockFromFd
  split
  · exact hs
  rename_i hold
  have hin : 0 ≤ fd.toInt ∧ fd.toInt < fdMax := by omega
  split
  · exact hs.touch hin
  · exact (hs.touch hin).touch hin

theorem sysSocketCall_inTable (c : Call) (hs : InTable s) : InTable (sysSocketCall w c fd s) := by
  have hsock : InTable (sockFromFd w fd s).2 := sockFromFd_inTable hs
  unfold sysSocketCall
  cases hr : sockFromFd w fd s with
  | mk o s₁ =>
    rw [hr] at hsock
    cases o with
    | none => exact hsock
    | some sock =>
      dsimp only
      split
      · exact hsock
      · rename_i k t h ok _
        exact allocFd_inTable (s := { s₁ with kernel := k }) t h hsock

theorem sysSocketCall_unchanged (c : Call) (h : ¬ Open s fd) : Unchanged s (sysSocketCall w c fd s) := by
  unfold sysSocketCall sockFromFd
  by_cases hin : fd.toInt < 0 ∨ fdMax ≤ fd.toInt
  · rw [if_pos hin]
    exact ret_unchanged s _
  · rw [if_neg hin, entry_none h (by omega) (by omega)]
    exact touch_ret_unchanged s _ _

theorem sysMessage_inTable (c : Call) (hs : InTable s) : InTable (sysMessage w c fd s) := by
  unfold sysMessage
  split
  · exact hs
  rename_i hold
  have hin : 0 ≤ fd.toInt ∧ fd.toInt < fdMax := by omega
  split
  · exact hs.touch hin
  · exact (hs.touch hin).touch hin

theorem sysMessage_unchanged (c : Call) (h : ¬ Open s fd) : Unchanged s (sysMessage w c fd s) := by
  unfold sysMessage
  split
  · exact ret_unchanged s _
  rename_i hold
  rw [entry_none h (by omega) (by omega)]
  exact touch_ret_unchanged s _ _

theorem ptyFromFd_inTable (hs : InTable s) : InTable (ptyFromFd w fd s).2 := by
  have hfirst : InTable (if fd.toNat < 3 then s.touch fd.toNat else s) := by
    split
    · exact hs.touch (natIndex (by unfold fdMax; omega))
    · exact hs
  unfold ptyFromFd
  dsimp only
  split
  · exact hfirst
  split
  · rename_i hmax
    have hin := natIndex (Nat.not_le_of_lt hmax)
    split
    · exact hfirst.touch hin
    · exact (hfirst.touch hin).touch hin
  · exact hfirst

theorem ptyFromFd_closed (h : ¬ Open s fd) (ht : 2 < fd.toNat) :
    (ptyFromFd w fd s).1 = none ∧ Unchanged s (ptyFromFd w fd s).2 := by
  have h3 : ¬ fd.toNat < 3 := by omega
  unfold ptyFromFd
  simp only [h3, false_and, if_false]
  split
  · rename_i hmax
    rw [entry_none_nat h (Nat.not_le_of_lt hmax)]
    exact ⟨rfl, touch_unchanged s _⟩
  · exact ⟨rfl, .refl s⟩

theorem sysIsatty_inTable (hs : InTable s) : InTable (sysIsatty w fd s) :=
  @ptyFromFd_inTable _ w s fd hs

theorem sysIsatty_unchanged (h : ¬ Open s fd) (ht : 2 < fd.toNat) : Unchanged s (sysIsatty w fd s) :=
  (ptyFromFd_closed (w := w) h ht).2.trans (ret_unchanged _ _)

theorem sysPtyCall_inTable (c : Call) (hs : InTable s) : InTable (sysPtyCall w c fd s) := by
  have hpty : InTable (ptyFromFd w fd s).2 := ptyFromFd_inTable hs
  unfold sysPtyCall
  split
  · rename_i hr
    rw [hr] at hpty
    exact hpty
  · rename_i hr
    rw [hr] at hpty
    exact hpty

theorem sysPtyCall_unchanged (c : Call) (h : ¬ Open s fd) (ht : 2 < fd.toNat) : Unchanged s (sysPtyCall w c fd s) := by
  obtain ⟨hnone, hsame⟩ := ptyFromFd_closed (w := w) h ht
  unfold sysPtyCall
  cases hr : ptyFromFd w fd s with
  | mk o s₁ =>
    rw [hr] at hnone hsame
    obtain rfl : o = none := hnone
    exact hsame.trans (ret_unchanged s₁ _)

/-! ## Select and poll -/

theorem fdPollCheck_inTable (i : Int) (hs : InTable s) : InTable (fdPollCheck w i s).2 := by
  have hfirst : InTable (if i = 0 then s.touch i else s) := by
    split
    · exact hs.touch (by unfold fdMax; omega)
    · exact hs
  have hsecond : InTable
      (if i = 1 ∨ i = 2 then (if i = 0 then s.touch i else s).touch i else if i = 0 then s.touch i else s) := by
    split
    · exact hfirst.touch (by unfold fdMax; omega)
    · exact hfirst
  unfold fdPollCheck
  dsimp only
  split
  · exact hfirst
  split
  · exact hsecond
  split
  · exact hsecond
  rename_i hin
  split
  · exact hsecond.touch (by omega)
  · exact (hsecond.touch (by omega)).touch (by omega)

theorem fdPollCheck_unchanged (i : Int) (s : System K) : Unchanged s (fdPollCheck w i s).2 := by
  have hfirst : Unchanged s (if i = 0 then s.touch i else s) := by
    split
    · exact touch_unchanged s i
    · exact .refl s
  have hsecond : Unchanged s
      (if i = 1 ∨ i = 2 then (if i = 0 then s.touch i else s).touch i else if i = 0 then s.touch i else s) := by
    split
    · exact hfirst.trans (touch_unchanged _ i)
    · exact hfirst
  unfold fdPollCheck
  dsimp only
  split
  · exact hfirst
  split
  · exact hsecond
  split
  · exact hsecond
  split
  · exact hsecond.trans (touch_unchanged _ i)
  · exact hsecond.trans ((touch_unchanged _ i).trans (touch_unchanged _ i))

/-- A number from 3 on that leads to nothing. -/
theorem fdPollCheck_none {i : Int} (h : ¬ (0 ≤ i ∧ i < fdMax ∧ s.fdTable s.current i ≠ none)) (ht : 2 < i) :
    (fdPollCheck w i s).1 = none := by
  have h0 : ¬ i = 0 := by omega
  have h12 : ¬ (i = 1 ∨ i = 2) := by omega
  unfold fdPollCheck
  simp only [h0, h12, false_and, if_false]
  split
  · rfl
  rename_i hin
  have hnone : s.fdTable s.current i = none := by
    by_contra hne
    exact h ⟨by omega, by omega, hne⟩
  rw [hnone]

theorem selectLoop_inTable (want : Nat → Bool) (n fd : Nat) (found : List (Nat × Nat)) (hs : InTable s) :
    InTable (selectLoop w want n fd found s).2 := by
  induction n generalizing fd found s with
  | zero => exact hs
  | succ n ih =>
    have hcheck := fdPollCheck_inTable (w := w) fd hs
    unfold selectLoop
    split
    · split
      · rename_i hr
        rw [hr] at hcheck
        exact hcheck
      · rename_i hr
        rw [hr] at hcheck
        exact ih _ _ hcheck
    · exact ih _ _ hs

/-- The first bad descriptor ends the scan. -/
theorem selectLoop_bad (want : Nat → Bool) (n fd : Nat) (found : List (Nat × Nat))
    (h : ∃ i, fd ≤ i ∧ i < fd + n ∧ want i = true ∧ 2 < i ∧
      ¬ ((i : Int) < fdMax ∧ s.fdTable s.current i ≠ none)) :
    (selectLoop w want n fd found s).1 = none ∧ Unchanged s (selectLoop w want n fd found s).2 := by
  induction n generalizing fd found s with
  | zero =>
    obtain ⟨i, hle, hlt, _⟩ := h
    exact absurd hlt (by omega)
  | succ n ih =>
    obtain ⟨i, hle, hlt, hw, ht, hbad⟩ := h
    have hsame := fdPollCheck_unchanged (w := w) fd s
    unfold selectLoop
    by_cases hi : i = fd
    · subst hi
      have hnone := fdPollCheck_none (w := w) (s := s) (i := i) (fun h => hbad h.2) (by omega)
      rw [if_pos hw]
      cases hr : fdPollCheck w i s with
      | mk o s₁ =>
        rw [hr] at hnone hsame
        obtain rfl : o = none := hnone
        exact ⟨rfl, hsame⟩
    split
    · cases hr : fdPollCheck w fd s with
      | mk o s₁ =>
        rw [hr] at hsame
        cases o with
        | none => exact ⟨rfl, hsame⟩
        | some events =>
          have hrest := ih (s := s₁) (fd + 1) (found ++ [(fd, events)])
            ⟨i, by omega, by omega, hw, ht, by rw [hsame.fdTable, hsame.current]; exact hbad⟩
          exact ⟨hrest.1, hsame.trans hrest.2⟩
    · exact ih (fd + 1) found ⟨i, by omega, by omega, hw, ht, hbad⟩

theorem sysSelect_inTable {nfds args : Word} (hs : InTable s) : InTable (sysSelect w nfds args s) := by
  unfold sysSelect
  split
  · exact hs
  split
  · exact hs
  rename_i want _
  have hloop := selectLoop_inTable (w := w) want nfds.toNat 0 [] hs
  split
  · rename_i hr
    rw [hr] at hloop
    exact hloop
  · rename_i hr
    rw [hr] at hloop
    exact hloop

theorem pollLoop_inTable (ps : List Pollfd) (hs : InTable s) : InTable (pollLoop w ps s).2 := by
  induction ps generalizing s with
  | nil => exact hs
  | cons p ps ih =>
    unfold pollLoop
    split
    · exact ih hs
    · exact ih (fdPollCheck_inTable _ hs)

theorem pollLoop_unchanged (ps : List Pollfd) (s : System K) : Unchanged s (pollLoop w ps s).2 := by
  induction ps generalizing s with
  | nil => exact .refl s
  | cons p ps ih =>
    unfold pollLoop
    split
    · exact ih s
    · exact (fdPollCheck_unchanged _ s).trans (ih _)

/-- The record of a bad descriptor says so. -/
theorem pollLoop_bad (ps : List Pollfd) (s : System K)
    (h : ∃ p ∈ ps, 2 < p.fd.toInt ∧ ¬ Open s p.fd) : pollnval ∈ (pollLoop w ps s).1 := by
  induction ps generalizing s with
  | nil =>
    obtain ⟨p, hp, _⟩ := h
    exact absurd hp List.not_mem_nil
  | cons q ps ih =>
    obtain ⟨p, hp, ht, hno⟩ := h
    unfold pollLoop
    obtain rfl | hp := List.mem_cons.mp hp
    · rw [if_neg (by omega)]
      have hnone := fdPollCheck_none (w := w) hno ht
      dsimp only
      rw [hnone]
      exact List.mem_cons_self
    split
    · exact List.mem_cons_of_mem _ (ih s ⟨p, hp, ht, hno⟩)
    · have hsame := fdPollCheck_unchanged (w := w) q.fd.toInt s
      refine List.mem_cons_of_mem _ (ih _ ⟨p, hp, ht, fun ho => hno ?_⟩)
      unfold Open at ho
      rw [hsame.fdTable, hsame.current] at ho
      exact ho

theorem sysPoll_inTable {fds nfds timeout : Word} (hs : InTable s) : InTable (sysPoll w fds nfds timeout s) := by
  unfold sysPoll
  split
  · exact hs
  split
  · exact hs
  split
  · exact hs
  rename_i ps _
  have hloop := pollLoop_inTable (w := w) ps hs
  dsimp only
  split
  · exact hloop
  · exact hloop

theorem sysPoll_nval {fds nfds timeout : Word} {ps : List Pollfd}
    (hargs : w.pollArgs (.poll fds nfds timeout) s.kernel = some ps) (h : ∃ p ∈ ps, 2 < p.fd.toInt ∧ ¬ Open s p.fd) :
    Unchanged s (sysPoll w fds nfds timeout s) := by
  have hsame := pollLoop_unchanged (w := w) ps s
  have hready : 0 < (pollLoop w ps s).1.countP fun r => r != 0 :=
    List.countP_pos_iff.mpr ⟨pollnval, pollLoop_bad ps s h, rfl⟩
  unfold sysPoll
  split
  · exact ret_unchanged s _
  split
  · exact ret_unchanged s _
  rw [hargs]
  dsimp only
  rw [if_pos (Or.inl hready)]
  exact ⟨hsame.fdTable, hsame.current, hsame.exited, hsame.kernel⟩

/-! ## All calls -/

/-- The number of descriptors, or one of those that `sys_select` is to look at. -/
def BadSelect (w : Work K) (s : System K) (nfds args : Word) : Prop :=
  nfds.toInt < 0 ∨ fdSetsize < nfds.toInt ∨
    ∃ want, w.selectArgs (.select nfds args) s.kernel = .ok want ∧
      ∃ i < nfds.toNat, want i = true ∧ 2 < i ∧ ¬ ((i : Int) < fdMax ∧ s.fdTable s.current i ≠ none)

def BadPoll (w : Work K) (s : System K) (fds nfds timeout : Word) : Prop :=
  fdSetsize < nfds.toNat ∨
    ∃ ps, w.pollArgs (.poll fds nfds timeout) s.kernel = some ps ∧ ∃ p ∈ ps, 2 < p.fd.toInt ∧ ¬ Open s p.fd

theorem sysSelect_bad {nfds args : Word} (h : BadSelect w s nfds args) : Unchanged s (sysSelect w nfds args s) := by
  unfold sysSelect
  split
  · exact ret_unchanged s _
  rename_i hrange
  obtain hneg | hmax | ⟨want, hargs, i, hlt, hw, ht, hbad⟩ := h
  · exact absurd (Or.inl hneg) hrange
  · exact absurd (Or.inr hmax) hrange
  obtain ⟨hnone, hsame⟩ := selectLoop_bad (w := w) want nfds.toNat 0 [] ⟨i, Nat.zero_le i, by omega, hw, ht, hbad⟩
  rw [hargs]
  dsimp only
  cases hr : selectLoop w want nfds.toNat 0 [] s with
  | mk o s₁ =>
    rw [hr] at hnone hsame
    obtain rfl : o = none := hnone
    exact hsame.trans (ret_unchanged s₁ _)

theorem sysPoll_bad {fds nfds timeout : Word} (h : BadPoll w s fds nfds timeout) :
    Unchanged s (sysPoll w fds nfds timeout s) := by
  obtain hmax | ⟨ps, hargs, hbad⟩ := h
  · unfold sysPoll
    rw [if_pos hmax]
    exact ret_unchanged s _
  · exact sysPoll_nval hargs hbad

/-- A descriptor that the call cannot use. Some calls take the terminal for the first three; a negative number asks
`sys_dup` for any descriptor, and has `sys_poll` pass over the record. -/
def Invalid (w : Work K) (s : System K) : Call → Prop
  | .read fd _ _ => ¬ Open s fd ∧ fd.toNat ≠ 0
  | .write fd _ _ => ¬ Open s fd ∧ fd.toNat ≠ 1 ∧ fd.toNat ≠ 2
  | .close fd | .lseek fd _ _ | .bind fd _ _ | .listen fd _ | .accept fd _ _ | .connect fd _ _ | .send fd _ _
  | .recv fd _ _ | .shutdown fd _ => ¬ Open s fd
  | .fstat fd _ | .isatty fd | .ptySetattr fd _ | .ptyGetattr fd _ | .ptyWinsize fd _ _ | .ptySetpgrp fd =>
    ¬ Open s fd ∧ 2 < fd.toNat
  | .dup oldfd newfd => ¬ Open s oldfd ∨ fdMax ≤ newfd.toInt
  | .select nfds args => BadSelect w s nfds args
  | .poll fds nfds timeout => BadPoll w s fds nfds timeout

/-- The call keeps to the table, and changes nothing for a descriptor that it cannot use. -/
def Meets (w : Work K) (c : Call) (s : System K) : Prop :=
  InTable (systemCall w c s) ∧ (Invalid w s c → Unchanged s (systemCall w c s))

/-- Three calls rely on a number that is not negative, and `sys_lseek` on an open descriptor. -/
def HoldsWhen (s : System K) : Call → Prop
  | .close fd | .fstat fd _ => 0 ≤ fd.toInt
  | .lseek fd _ _ => Open s fd
  | _ => True

/-- The index of the first use stays among those used. -/
theorem sysClose_index (h : fd.toInt < 0) : fd.toInt ∈ (sysClose w fd s).indexed := by
  unfold sysClose
  rw [if_neg (by omega)]
  split
  · simp [System.ret, System.touch]
  · unfold closeFd
    rw [if_pos (Or.inl h)]
    simp [System.touch]

theorem sysLseek_index {offset whence : Word} (h : fd.toInt < 0) :
    fd.toInt ∈ (sysLseek w fd offset whence s).indexed := by
  unfold sysLseek
  rw [if_neg (by omega)]
  split
  · simp [illegalCall, System.touch]
  dsimp only
  split
  · simp [illegalCall, System.touch]
  split
  · simp [System.ret, System.touch]
  · simp [System.ret, System.change, System.touch]

theorem sysFstat_index {addr : Word} (h : fd.toInt < 0) : fd.toInt ∈ (sysFstat w fd addr s).indexed := by
  have h3 : fd.toInt < 3 := by omega
  unfold sysFstat
  rw [if_neg (by omega)]
  simp only [h3, if_true, true_and]
  split
  · simp [System.ret, System.touch]
  split
  · simp [System.ret, System.touch]
  split
  · simp [System.work, System.touch]
  · simp [System.work, System.touch]

theorem not_inTable (h : fd.toInt < 0) (hin : fd.toInt ∈ s.indexed) : ¬ InTable s := fun hs =>
  absurd (hs _ hin).1 (by omega)

/-- When the calls keep to the table and leave the rest alone. -/
theorem descriptors_bounded (w : Work K) (c : Call) (s : System K) (hrun : s.exited = none) :
    Meets w c s ↔ HoldsWhen s c := by
  have hempty : InTable { s with errno := 0, indexed := [] } := fun i hi => absurd hi List.not_mem_nil
  have hstart : Unchanged s { s with errno := 0, indexed := [] } := ⟨rfl, rfl, rfl, rfl⟩
  have hopen : ∀ fd, Open { s with errno := 0, indexed := [] } fd ↔ Open s fd := fun _ => Iff.rfl
  unfold Meets systemCall
  generalize ({ s with errno := 0, indexed := [] } : System K) = s₀ at hempty hstart hopen ⊢
  -- the calls on sockets, messages and terminals do the same with the descriptor
  have hsocket : ∀ fd c, InTable (sysSocketCall w c fd s₀) ∧ (¬ Open s fd → Unchanged s (sysSocketCall w c fd s₀)) :=
    fun fd c => ⟨sysSocketCall_inTable c hempty, fun hi =>
      hstart.trans (sysSocketCall_unchanged c (mt (hopen fd).mp hi))⟩
  have hmessage : ∀ fd c, InTable (sysMessage w c fd s₀) ∧ (¬ Open s fd → Unchanged s (sysMessage w c fd s₀)) :=
    fun fd c => ⟨sysMessage_inTable c hempty, fun hi =>
      hstart.trans (sysMessage_unchanged c (mt (hopen fd).mp hi))⟩
  have hpty : ∀ fd c, InTable (sysPtyCall w c fd s₀) ∧
      (¬ Open s fd ∧ 2 < fd.toNat → Unchanged s (sysPtyCall w c fd s₀)) :=
    fun fd c => ⟨sysPtyCall_inTable c hempty, fun hi =>
      hstart.trans (sysPtyCall_unchanged c (mt (hopen fd).mp hi.1) hi.2)⟩
  cases c with
  | read fd buf size =>
    exact iff_true_intro ⟨sysTransfer_inTable _ _ hempty, fun hi => hstart.trans
      (@sysTransfer_unchanged _ w _ fd _ (fun i => i == 0) (mt (hopen fd).mp hi.1) (by simpa using hi.2))⟩
  | write fd buf size =>
    exact iff_true_intro ⟨sysTransfer_inTable _ _ hempty, fun hi => hstart.trans
      (@sysTransfer_unchanged _ w _ fd _ (fun i => i == 1 || i == 2) (mt (hopen fd).mp hi.1)
        (by simpa using hi.2))⟩
  | close fd =>
    refine ⟨fun hm => ?_, fun h0 => ⟨sysClose_inTable h0 hempty, fun hi => hstart.trans
      (sysClose_unchanged h0 (mt (hopen fd).mp hi))⟩⟩
    by_contra hneg
    exact not_inTable (Int.not_le.mp hneg) (sysClose_index (Int.not_le.mp hneg)) hm.1
  | lseek fd offset whence =>
    constructor
    · intro hm
      by_contra hno
      by_cases h0 : 0 ≤ fd.toInt
      · have hexit := @sysLseek_exits _ w _ fd offset whence h0 (mt (hopen fd).mp hno)
        exact absurd (hexit.symm.trans ((hm.2 hno).exited.trans hrun)) (by simp)
      · exact not_inTable (Int.not_le.mp h0) (sysLseek_index (Int.not_le.mp h0)) hm.1
    · intro ho
      exact ⟨sysLseek_inTable ho.1 hempty, fun hi => absurd ho hi⟩
  | fstat fd addr =>
    refine ⟨fun hm => ?_, fun h0 => ⟨sysFstat_inTable h0 hempty, fun hi => hstart.trans
      (sysFstat_unchanged h0 (mt (hopen fd).mp hi.1) ?_)⟩⟩
    · by_contra hneg
      exact not_inTable (Int.not_le.mp hneg) (sysFstat_index (Int.not_le.mp hneg)) hm.1
    · have ht := hi.2
      have heq := toNat_of_toInt h0
      omega
  | dup oldfd newfd =>
    exact iff_true_intro ⟨sysDup_inTable hempty, fun hi => hstart.trans
      (sysDup_unchanged (hi.imp_left (mt (hopen oldfd).mp)))⟩
  | bind fd addr len => exact iff_true_intro (hsocket fd _)
  | listen fd backlog => exact iff_true_intro (hsocket fd _)
  | accept fd addr len => exact iff_true_intro (hsocket fd _)
  | connect fd addr len => exact iff_true_intro (hsocket fd _)
  | shutdown fd how => exact iff_true_intro (hsocket fd _)
  | send fd buf len => exact iff_true_intro (hmessage fd _)
  | recv fd buf len => exact iff_true_intro (hmessage fd _)
  | isatty fd =>
    exact iff_true_intro ⟨sysIsatty_inTable hempty, fun hi => hstart.trans
      (sysIsatty_unchanged (mt (hopen fd).mp hi.1) hi.2)⟩
  | ptySetattr fd attr => exact iff_true_intro (hpty fd _)
  | ptyGetattr fd attr => exact iff_true_intro (hpty fd _)
  | ptyWinsize fd ws flag => exact iff_true_intro (hpty fd _)
  | ptySetpgrp fd => exact iff_true_intro (hpty fd _)
  | select nfds args =>
    refine iff_true_intro ⟨sysSelect_inTable hempty, fun hi => hstart.trans (sysSelect_bad ?_)⟩
    unfold BadSelect
    rw [hstart.kernel, hstart.fdTable, hstart.current]
    exact hi
  | poll fds nfds timeout =>
    refine iff_true_intro ⟨sysPoll_inTable hempty, fun hi => hstart.trans (sysPoll_bad ?_)⟩
    obtain hmax | ⟨ps, hargs, p, hp, ht, hno⟩ := hi
    · exact Or.inl hmax
    · exact Or.inr ⟨ps, by rw [hstart.kernel]; exact hargs, p, hp, ht, mt (hopen p.fd).mp hno⟩

end

/-- A kernel of which the calls want nothing. -/
def idleWork : Work Unit where
  handle _ _ k := (k, 0)
  terminal _ k := (k, 0)
  sockOf _ _ := none
  socket _ _ k := .done k 0
  isPty _ _ := false
  pty _ _ k := (k, 0)
  retain _ k := k
  release _ k := k
  offset _ _ := 0
  size _ _ := 0
  setOffset _ _ k := k
  stat _ _ k := (k, 0)
  badStat _ := false
  revents _ _ := none
  stdin _ := 0
  stdout := 4
  selectArgs _ _ := .ok fun _ => false
  selectEnd _ _ k := (k, 0)
  pollArgs _ _ := none
  pollMask _ _ := 0
  pollBlock _ k := (k, 0)

/-- A task with one open file, as descriptor 3. -/
def oneFile : System Unit where
  fdTable _ i := if i = 3 then some 7 else none
  current := 1
  errno := 0
  revents := []
  exited := none
  kernel := ()
  indexed := []

theorem descriptors_bounded_close :
    Meets idleWork (.close 3#32) oneFile ∧ Meets idleWork (.lseek 3#32 5#32 0#32) oneFile :=
  ⟨(descriptors_bounded idleWork (.close 3#32) oneFile rfl).mpr (show 0 ≤ (3#32 : Word).toInt by decide),
    (descriptors_bounded idleWork (.lseek 3#32 5#32 0#32) oneFile rfl).mpr ⟨by decide, by decide, by decide⟩⟩

/-- The descriptor -1 goes before the table. -/
theorem sysClose_minus_one :
    ¬ ∀ (K : Type) (w : Work K) (c : Call) (s : System K), s.exited = none → Meets w c s := by
  intro h
  have hin := (h Unit idleWork (.close (-1#32)) oneFile rfl).1 (-1) (by decide)
  exact absurd hin.1 (by decide)

end Serotonin.Descriptors
