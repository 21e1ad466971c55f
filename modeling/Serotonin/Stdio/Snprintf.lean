import Serotonin.Stdio.Format

/-! `snprintf` stores what fits of the text and returns its length, if the format does not end inside
a conversion, every width is an `int`, and the text neither goes round the end of memory nor is
longer than an `int` can say. In all other cases it does not: it reads behind the format, an `int`
overflows, it writes at the start of memory, or what it returns is negative. -/

namespace Serotonin.Stdio

open List
open ByteMem (u32 int32 u32_of_lt int32_of_lt int32_neg)

variable {m : Machine} {mem : Nat → UInt8} {args : Nat → BitVec 32} {fmt s t : List UInt8} {o : Out} {c : UInt8}
  {str size stop a : Nat}

/-! ## Characters -/

@[simp] theorem out_bufPutchar : (bufPutchar o stop c).out = u32 (o.out + 1) := rfl

theorem written_bufPutchar (h : a ∈ o.written) : a ∈ (bufPutchar o stop c).written := by
  unfold bufPutchar
  dsimp only
  split
  · exact mem_cons_of_mem _ h
  · exact h

theorem written_bufPuts (h : a ∈ o.written) : a ∈ (bufPuts o stop s).written := by
  induction s generalizing o with
  | nil => exact h
  | cons c s ih => exact ih (written_bufPutchar h)

/-- From `str` on the text is in memory, as far as it is before the end, and no more was written. -/
structure Emitted (str stop : Nat) (s : List UInt8) (o : Out) : Prop where
  out : o.out = str + s.length
  stored : ∀ i, str + i < stop → ∀ c, s[i]? = some c → o.mem (str + i) = c
  written : ∀ a ∈ o.written, str ≤ a ∧ a < stop ∧ a < str + s.length

theorem emitted_nil (str stop : Nat) (mem : Nat → UInt8) : Emitted str stop [] ⟨str, mem, []⟩ := ⟨rfl, nofun, nofun⟩

theorem Emitted.bufPutchar (h : Emitted str stop s o) (c : UInt8) (hend : str + s.length + 1 < 2 ^ 32) :
    Emitted str stop (s ++ [c]) (bufPutchar o stop c) := by
  have hout : (Stdio.bufPutchar o stop c).out = str + (s ++ [c]).length := by
    rw [out_bufPutchar, h.out, u32_of_lt hend, length_append]
    rfl
  refine ⟨hout, fun i hi c' hc' => ?_, fun a ha => ?_⟩
  · unfold Stdio.bufPutchar
    dsimp only
    by_cases hlast : i = s.length
    · subst hlast
      rw [List.getElem?_concat_length, Option.some.injEq] at hc'
      rw [if_pos (by rw [h.out]; exact hi)]
      simp [Out.store, h.out, hc']
    · have hlt : i < s.length := by
        have hbound := (List.getElem?_eq_some_iff.mp hc').1
        rw [length_append, length_singleton] at hbound
        omega
      rw [List.getElem?_append_left hlt] at hc'
      have hbefore := h.stored i hi c' hc'
      split
      · have hne : str + i ≠ o.out := by
          rw [h.out]
          omega
        simp [Out.store, hne, hbefore]
      · exact hbefore
  · unfold Stdio.bufPutchar at ha
    dsimp only at ha
    rw [length_append, length_singleton]
    split at ha
    · next hstop =>
      obtain rfl | hold := mem_cons.mp ha
      · rw [h.out] at hstop ⊢
        omega
      · have hbefore := h.written a hold
        omega
    · have hbefore := h.written a ha
      omega

theorem Emitted.bufPuts (h : Emitted str stop s o) (hend : str + (s ++ t).length < 2 ^ 32) :
    Emitted str stop (s ++ t) (bufPuts o stop t) := by
  induction t generalizing s o with
  | nil => rwa [append_nil]
  | cons c t ih =>
    rw [length_append, length_cons] at hend
    have hnext := h.bufPutchar c (by omega)
    rw [append_cons]
    refine ih hnext ?_
    simp only [length_append, length_cons, length_nil]
    omega

/-! ## Round the end of memory -/

theorem out_bufPuts (o : Out) (stop : Nat) (s : List UInt8) (h : o.out < 2 ^ 32) :
    (bufPuts o stop s).out = u32 (o.out + s.length) := by
  induction s generalizing o with
  | nil => exact (u32_of_lt h).symm
  | cons c s ih =>
    refine (ih (bufPutchar o stop c) (ByteMem.u32_lt _)).trans ?_
    rw [out_bufPutchar, length_cons]
    unfold u32
    omega

/-- A text that goes round the end of memory is written at its start. -/
theorem zero_mem_written (h : o.out < 2 ^ 32) (hstop : 0 < stop) (hlong : 2 ^ 32 < o.out + s.length) :
    0 ∈ (bufPuts o stop s).written := by
  obtain ⟨before, c, after, rfl, hbefore⟩ : ∃ before c after, s = before ++ c :: after ∧ o.out + before.length = 2 ^ 32 := by
    have hlt : 2 ^ 32 - o.out < s.length := by omega
    refine ⟨s.take (2 ^ 32 - o.out), s[2 ^ 32 - o.out], s.drop (2 ^ 32 - o.out + 1), ?_, ?_⟩
    · rw [← drop_eq_getElem_cons hlt, take_append_drop]
    · rw [length_take_of_le (Nat.le_of_lt hlt)]
      omega
  have hout : (bufPuts o stop before).out = 0 := by
    rw [out_bufPuts o stop before h, hbefore]
    rfl
  rw [bufPuts_append]
  refine written_bufPuts (s := after) ?_
  show 0 ∈ (bufPutchar (bufPuts o stop before) stop c).written
  unfold bufPutchar
  rw [hout, if_pos hstop]
  exact mem_cons_self

/-! ## The whole call -/

/-- In the buffer there are as much of the text as fits and a terminator, nothing outside of it was
written, and the length of the whole text is returned. -/
structure Holds (str size : Nat) (s : List UInt8) (r : Out × Int) : Prop where
  inside : ∀ a ∈ r.1.written, str ≤ a ∧ a < str + size
  stored : ∀ i < size - 1, ∀ c, s[i]? = some c → r.1.mem (str + i) = c
  terminated : r.1.mem (str + min s.length (size - 1)) = 0
  returned : r.2 = s.length

/-- The text of a format. -/
def rendered (m : Machine) (fmt : List UInt8) (args : Nat → BitVec 32) : List UInt8 :=
  ((pieces fmt).map (text m args 0)).getD []

/-- The end of `sprintf_internal`, for a buffer with a size. -/
def finish (str stop : Nat) (o : Out) : Out × Int :=
  (if o.out ≤ stop then o.store o.out 0 else o.store stop 0, int32 (u32 (o.out + 2 ^ 32 - str)))

theorem snprintf_eq (hstr : 0 < str) (hsize : 0 < size) (hend : str + size ≤ 2 ^ 32) : snprintf m mem str size fmt args =
    ((pieces fmt).filter (·.all Piece.fits)).map fun ps =>
      finish str (str + size - 1) (bufPuts ⟨str, mem, []⟩ (str + size - 1) (text m args 0 ps)) := by
  have hstop : u32 (str + size - 1) = str + size - 1 := u32_of_lt (by omega)
  have hnot : ¬(str = 0 ∨ size = 0) := by omega
  rw [snprintf, if_neg hnot, sprintfInternal, if_pos hsize, hstop, formatLoop_eq, Option.map_map]
  congr 1
  funext ps
  simp only [Function.comp, if_pos hsize]
  rfl

theorem written_finish (h : a ∈ o.written) : a ∈ (finish str stop o).1.written := by
  unfold finish
  dsimp only
  split
  · exact mem_cons_of_mem _ h
  · exact mem_cons_of_mem _ h

theorem returned_finish (h : o.out = str + s.length) (hlt : s.length < 2 ^ 32) : (finish str stop o).2 = int32 s.length := by
  unfold finish
  dsimp only
  congr 1
  rw [h]
  unfold u32
  omega

/-- The terminator is behind the text, or at the end of the buffer. -/
theorem Emitted.finish (h : Emitted str (str + size - 1) s o) (hsize : 0 < size) (hlen : s.length < 2 ^ 31) :
    Holds str size s (finish str (str + size - 1) o) := by
  have hreturned : (Stdio.finish str (str + size - 1) o).2 = s.length := by
    rw [returned_finish h.out (by omega), int32_of_lt hlen]
  unfold Stdio.finish at hreturned ⊢
  have hbefore (i : Nat) (hi : i < size - 1) (c : UInt8) (hc : s[i]? = some c) : o.mem (str + i) = c :=
    h.stored i (by omega) c hc
  split
  · next hfits =>
    rw [h.out] at hfits
    have hmin : min s.length (size - 1) = s.length := by omega
    refine ⟨fun a ha => ?_, fun i hi c hc => ?_, ?_, hreturned⟩
    · obtain rfl | hold := mem_cons.mp ha
      · rw [h.out]
        omega
      · have hwritten := h.written a hold
        omega
    · have hlt := (List.getElem?_eq_some_iff.mp hc).1
      have hne : str + i ≠ o.out := by
        rw [h.out]
        omega
      simp [Out.store, hne, hbefore i hi c hc]
    · simp [Out.store, h.out, hmin]
  · next hlarge =>
    rw [h.out] at hlarge
    have hmin : str + min s.length (size - 1) = str + size - 1 := by omega
    refine ⟨fun a ha => ?_, fun i hi c hc => ?_, ?_, hreturned⟩
    · obtain rfl | hold := mem_cons.mp ha
      · omega
      · have hwritten := h.written a hold
        omega
    · have hne : str + i ≠ str + size - 1 := by omega
      simp [Out.store, hne, hbefore i hi c hc]
    · simp [Out.store, hmin]

theorem finish_holds_iff (hstr : 0 < str) (hsize : 0 < size) (hend : str + size ≤ 2 ^ 32) (s : List UInt8) :
    Holds str size s (finish str (str + size - 1) (bufPuts ⟨str, mem, []⟩ (str + size - 1) s)) ↔
      str + s.length < 2 ^ 32 ∧ s.length < 2 ^ 31 := by
  have hemitted (hlt : str + s.length < 2 ^ 32) : Emitted str (str + size - 1) s (bufPuts ⟨str, mem, []⟩ (str + size - 1) s) :=
    (emitted_nil str _ mem).bufPuts hlt
  refine ⟨fun h => ?_, fun ⟨hlt, hlen⟩ => (hemitted hlt).finish hsize hlen⟩
  have hlt : str + s.length < 2 ^ 32 := by
    by_contra hge
    obtain heq | hlong := Nat.eq_or_lt_of_le (Nat.le_of_not_lt hge)
    · have hout : (bufPuts ⟨str, mem, []⟩ (str + size - 1) s).out = 0 := by
        rw [out_bufPuts _ _ _ (by omega : str < 2 ^ 32), ← heq]
        rfl
      have hzero : 0 ∈ (finish str (str + size - 1) (bufPuts ⟨str, mem, []⟩ (str + size - 1) s)).1.written := by
        unfold finish
        rw [hout, if_pos (Nat.zero_le _)]
        exact mem_cons_self
      exact absurd (h.inside 0 hzero).1 (Nat.not_le.mpr hstr)
    · have hzero := zero_mem_written (o := ⟨str, mem, []⟩) (by omega : str < 2 ^ 32) (by omega : 0 < str + size - 1) hlong
      exact absurd (h.inside 0 (written_finish hzero)).1 (Nat.not_le.mpr hstr)
  refine ⟨hlt, ?_⟩
  by_contra hge
  have hneg := int32_neg (Nat.le_of_not_lt hge) (by omega)
  have hreturned := h.returned
  rw [returned_finish (hemitted hlt).out (by omega)] at hreturned
  omega

/-- A format that `snprintf` does right, for a buffer at an address. -/
structure Printable (m : Machine) (str : Nat) (fmt : List UInt8) (args : Nat → BitVec 32) : Prop where
  closed : pieces fmt ≠ none
  widths : ∀ ps, pieces fmt = some ps → ∀ x ∈ ps, x.fits
  memory : str + (rendered m fmt args).length < 2 ^ 32
  length : (rendered m fmt args).length < 2 ^ 31

theorem snprintf_holds_iff (hstr : 0 < str) (hsize : 0 < size) (hend : str + size ≤ 2 ^ 32) :
    (∃ r, snprintf m mem str size fmt args = some r ∧ Holds str size (rendered m fmt args) r) ↔ Printable m str fmt args := by
  rw [snprintf_eq hstr hsize hend]
  cases hpieces : pieces fmt with
  | none => exact iff_of_false nofun fun h => h.closed hpieces
  | some ps =>
    have hrendered : rendered m fmt args = text m args 0 ps := by
      rw [rendered, hpieces]
      rfl
    by_cases hfits : ps.all Piece.fits
    · simp only [Option.filter, hfits, if_true, Option.map_some, Option.some.injEq, exists_eq_left', hrendered,
        finish_holds_iff hstr hsize hend]
      refine ⟨fun ⟨hmemory, hlength⟩ => ?_, fun h => ?_⟩
      · rw [← hrendered] at hmemory hlength
        refine ⟨by simp [hpieces], fun ps' hps' => ?_, hmemory, hlength⟩
        rw [hpieces, Option.some.injEq] at hps'
        exact hps' ▸ List.all_eq_true.mp hfits
      · rw [← hrendered]
        exact ⟨h.memory, h.length⟩
    · simp only [Option.filter, hfits, if_false, Bool.false_eq_true, Option.map_none]
      exact iff_of_false nofun fun h => hfits (List.all_eq_true.mpr (h.widths ps hpieces))

/-- No strings and no floating point numbers. -/
def plainMachine : Machine := ⟨fun _ => [], fun _ _ => []⟩

theorem snprintf_holds_iff_number :
    (∃ r, snprintf plainMachine (fun _ => 0) 4096 16 [37, 53, 100] (fun _ => 7) = some r ∧
      Holds 4096 16 (rendered plainMachine [37, 53, 100] fun _ => 7) r) ↔
        Printable plainMachine 4096 [37, 53, 100] fun _ => 7 :=
  snprintf_holds_iff (by decide) (by decide) (by decide)

theorem pieces_percent_width : pieces [37, 53] = none := by
  have hend : (options [53]).2 = [] := rfl
  rw [pieces, if_pos ⟨rfl, by decide⟩]
  split
  · rfl
  · next hrest =>
    rw [hend] at hrest
    cases hrest

/-- `%5`: nothing comes behind the width. -/
theorem snprintf_percent_width : ¬∃ r, snprintf plainMachine (fun _ => 0) 4096 16 [37, 53] (fun _ => 7) = some r ∧
    Holds 4096 16 (rendered plainMachine [37, 53] fun _ => 7) r := by
  intro ⟨r, hr, _⟩
  rw [snprintf_eq (by decide) (by decide) (by decide), pieces_percent_width] at hr
  cases hr

/-! ## Without a size -/

/-- `sprintf` stores the whole text of a format that is printable at the address. -/
theorem sprintf_stores (hstr : 0 < str) (h : Printable m str fmt args) : ∃ r, sprintf m mem str fmt args = some r ∧
    (∀ a ∈ r.1.written, str ≤ a ∧ a ≤ str + (rendered m fmt args).length) ∧
    (∀ i c, (rendered m fmt args)[i]? = some c → r.1.mem (str + i) = c) ∧
    r.1.mem (str + (rendered m fmt args).length) = 0 ∧ r.2 = (rendered m fmt args).length := by
  obtain ⟨ps, hpieces⟩ := Option.ne_none_iff_exists'.mp h.closed
  have hrendered : rendered m fmt args = text m args 0 ps := by
    rw [rendered, hpieces]
    rfl
  have hfits : ps.all Piece.fits := all_eq_true.mpr (h.widths ps hpieces)
  have hmemory := h.memory
  have hemitted := (emitted_nil str (2 ^ 32 - 1) mem).bufPuts (t := rendered m fmt args) hmemory
  have hrun : formatLoop m (2 ^ 32 - 1) args 0 ⟨str, mem, []⟩ fmt =
      some (bufPuts ⟨str, mem, []⟩ (2 ^ 32 - 1) (rendered m fmt args)) := by
    rw [formatLoop_eq, hpieces, Option.filter, if_pos hfits, hrendered]
    rfl
  rw [nil_append] at hemitted
  generalize bufPuts ⟨str, mem, []⟩ (2 ^ 32 - 1) (rendered m fmt args) = o at hemitted hrun
  have hvalue : u32 (o.out + 2 ^ 32 - str) = (rendered m fmt args).length := by
    rw [hemitted.out]
    unfold u32
    omega
  refine ⟨(o.store o.out 0, int32 (u32 (o.out + 2 ^ 32 - str))), ?_, fun a ha => ?_, fun i c hc => ?_, ?_, ?_⟩
  · rw [sprintf, sprintfInternal, if_neg (Nat.lt_irrefl 0), hrun]
    simp [Nat.ne_of_gt hstr]
  · obtain rfl | hold := mem_cons.mp ha
    · exact ⟨hemitted.out ▸ Nat.le_add_right .., hemitted.out.le⟩
    · have hwritten := hemitted.written a hold
      omega
  · have hlt := (List.getElem?_eq_some_iff.mp hc).1
    have hne : str + i ≠ o.out := by
      rw [hemitted.out]
      omega
    simp [Out.store, hne, hemitted.stored i (by omega) c hc]
  · simp [Out.store, hemitted.out]
  · rw [hvalue, int32_of_lt h.length]

theorem sprintf_stores_hi : ∃ r, sprintf plainMachine (fun _ => 0) 4096 [72, 105] (fun _ => 7) = some r ∧
    (∀ a ∈ r.1.written, 4096 ≤ a ∧ a ≤ 4096 + (rendered plainMachine [72, 105] fun _ => 7).length) ∧
    (∀ i c, (rendered plainMachine [72, 105] fun _ => 7)[i]? = some c → r.1.mem (4096 + i) = c) ∧
    r.1.mem (4096 + (rendered plainMachine [72, 105] fun _ => 7).length) = 0 ∧
    r.2 = (rendered plainMachine [72, 105] fun _ => 7).length := by
  have hpieces : pieces [72, 105] = some [.plain 72, .plain 105] := by simp [pieces]
  have hrendered : rendered plainMachine [72, 105] (fun _ => 7) = [72, 105] := by
    rw [rendered, hpieces]
    rfl
  refine sprintf_stores (by decide) ⟨by simp [hpieces], fun ps hps => ?_, ?_, ?_⟩
  · rw [hpieces, Option.some.injEq] at hps
    exact hps ▸ by decide
  all_goals
    rw [hrendered]
    decide

end Serotonin.Stdio
