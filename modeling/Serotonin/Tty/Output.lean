import Serotonin.Tty.Rings

/-! What a program writes to a terminal. A write takes as much of its bytes as the ring has
room for in their translated form, and a program that goes on with the rest gets the
translation of all its bytes to the other side, however the reads there come in between. -/

namespace Serotonin.Tty

open List
open Ipc (ptyRingSize ptyRingWrite outputOnlcr)

/-- A newline is sent as two bytes. -/
def onlcrByte (c : UInt8) : List UInt8 := if c = 10 then [13, 10] else [c]

def translate (data : List UInt8) : List UInt8 := data.flatMap onlcrByte

theorem translate_append (data more : List UInt8) : translate (data ++ more) = translate data ++ translate more :=
  flatMap_append

theorem PtyRing.onlcr_spec (data : List UInt8) : ∀ {r : CircBuf UInt8}, PtyRing r →
    (outputOnlcr r data).2 ≤ data.length ∧
      (outputOnlcr r data).1.contents = r.contents ++ translate (data.take (outputOnlcr r data).2) ∧
      ∀ c ∈ data[(outputOnlcr r data).2]?, ptyRingSize < (outputOnlcr r data).1.dataLen + (onlcrByte c).length := by
  induction data with
  | nil =>
    intro r _
    exact ⟨Nat.le_refl _, (append_nil _).symm, by simp⟩
  | cons c cs ih =>
    intro r h
    have hlen := h.ok.valid.len
    rw [h.size] at hlen
    by_cases hroom : ptyRingSize - r.dataLen < (onlcrByte c).length
    · have hstop : outputOnlcr r (c :: cs) = (r, 0) := by
        unfold outputOnlcr
        exact if_pos hroom
      rw [hstop]
      refine ⟨Nat.zero_le _, (append_nil _).symm, fun d hd => ?_⟩
      simp only [List.getElem?_cons_zero, Option.mem_some_iff] at hd
      subst hd
      show ptyRingSize < r.dataLen + _
      omega
    · have hgo : outputOnlcr r (c :: cs) =
          ((outputOnlcr (ptyRingWrite r (onlcrByte c)) cs).1, (outputOnlcr (ptyRingWrite r (onlcrByte c)) cs).2 + 1) := by
        rw [outputOnlcr]
        exact if_neg hroom
      obtain ⟨hn, hc, hstop⟩ := ih (h.write (onlcrByte c)).1
      rw [hgo]
      refine ⟨Nat.succ_le_succ hn, ?_, hstop⟩
      rw [take_succ_cons, hc, h.write_fits (by omega), append_assoc]
      rfl

/-- `n` of the bytes are taken: the ring has their translation behind what it had, and less room
than the next byte would need. -/
structure Emitted (k k' : Kernel) (q : Nat) (data : List UInt8) (n : Nat) : Prop where
  count : n ≤ data.length
  contents : (k'.pty q).outputRing.contents = (k.pty q).outputRing.contents ++ translate (data.take n)
  full : ∀ c ∈ data[n]?, ptyRingSize < (k'.pty q).outputRing.dataLen + (onlcrByte c).length

/-- What makes `q` the terminal of a user, with translation of newlines. -/
structure Translates (k : Kernel) (q : Nat) : Prop where
  user : (k.pty q).kernelVty = false
  onlcr : (k.pty q).attr.onlcr = true

variable {k : Kernel} {q : Nat}

/-- A terminal that differs in its ring and in who waits for it. -/
structure OutputSet (k k' : Kernel) (q : Nat) (r : CircBuf UInt8) : Prop where
  ring : (k'.pty q).outputRing = r
  vty : (k'.pty q).kernelVty = (k.pty q).kernelVty
  attr : (k'.pty q).attr = (k.pty q).attr

theorem outputSet_modify (k : Kernel) (q : Nat) (r : CircBuf UInt8) :
    OutputSet k (k.modify q fun x => { x with outputRing := r }) q r := by
  refine ⟨?_, ?_, ?_⟩ <;> rw [pty_modify_self]

theorem OutputSet.wake {k' : Kernel} {r : CircBuf UInt8} (h : OutputSet k k' q r) :
    OutputSet k (ptyOutputWakeOne k' q) q r := by
  unfold ptyOutputWakeOne
  split
  · exact h
  · refine ⟨?_, ?_, ?_⟩ <;> rw [pty_taskUnblock, pty_modify_self]
    · exact h.ring
    · exact h.vty
    · exact h.attr

theorem OutputSet.translates {k' : Kernel} {r : CircBuf UInt8} (h : OutputSet k k' q r) (ht : Translates k q) :
    Translates k' q := ⟨h.vty.trans ht.user, by rw [h.attr]; exact ht.onlcr⟩

theorem ptyLdiscOutput_eq (h : Translates k q) (data : List UInt8) :
    (ptyLdiscOutput k q data).1 = (outputOnlcr (k.pty q).outputRing data).2 ∧
      OutputSet k (ptyLdiscOutput k q data).2 q (outputOnlcr (k.pty q).outputRing data).1 := by
  have hset := outputSet_modify k q (outputOnlcr (k.pty q).outputRing data).1
  unfold ptyLdiscOutput
  rw [h.user, h.onlcr]
  refine ⟨rfl, ?_⟩
  show OutputSet k (if _ then _ else _) q _
  split
  · exact hset.wake
  · exact hset

theorem emitted_ptyLdiscOutput (h : Translates k q) (hr : RingsOk k) (data : List UInt8) :
    Emitted k (ptyLdiscOutput k q data).2 q data (ptyLdiscOutput k q data).1 ∧
      Translates (ptyLdiscOutput k q data).2 q := by
  obtain ⟨hcount, hset⟩ := ptyLdiscOutput_eq h data
  obtain ⟨hn, hc, hfull⟩ := (hr q).output.onlcr_spec data
  rw [hcount]
  refine ⟨⟨hn, ?_, ?_⟩, hset.translates h⟩
  · rw [hset.ring]
    exact hc
  · rw [hset.ring]
    exact hfull

/-! ## Writing the rest again -/

/-- The program has `rest` still to write; `received` is what the reads of the master returned. -/
structure Writer where
  kernel : Kernel
  rest : List UInt8
  received : List UInt8

/-- The program writes the next `n` bytes of the rest at most, or a task reads from the master. -/
inductive WriterOp where
  | write (n : Nat)
  | masterRead (t : Tid) (size : Nat) (noMem : Bool)

def Writer.next (q : Nat) (w : Writer) : WriterOp → Writer
  | .write n =>
    match ptySlaveWrite w.kernel q (w.rest.take n) with
    | .returns count _ k => { w with kernel := k, rest := w.rest.drop count.toNat }
    | .sleeps k => { w with kernel := k }
  | .masterRead t size noMem =>
    match ptyMasterRead w.kernel t q size noMem with
    | .returns _ bytes k => { w with kernel := k, received := w.received ++ bytes }
    | .sleeps k => { w with kernel := k }

/-- What was taken of `s` is on the master's side, or on the way there behind what the ring had
at first. -/
structure Composed (q : Nat) (before s : List UInt8) (w : Writer) : Prop where
  rings : RingsOk w.kernel
  translates : Translates w.kernel q
  stream : ∃ taken, s = taken ++ w.rest ∧
    w.received ++ (w.kernel.pty q).outputRing.contents = before ++ translate taken

theorem Composed.write {before s : List UInt8} {w : Writer} (h : Composed q before s w) (n : Nat) :
    Composed q before s (w.next q (.write n)) := by
  obtain ⟨taken, hs, hstream⟩ := h.stream
  unfold Writer.next ptySlaveWrite
  simp only
  by_cases hnil : (w.rest.take n).length = 0
  · rw [if_pos hnil]
    exact ⟨h.rings, h.translates, taken, hs, hstream⟩
  · obtain ⟨hem, htr⟩ := emitted_ptyLdiscOutput h.translates h.rings (w.rest.take n)
    rw [if_neg hnil]
    refine ⟨h.rings.ptyLdiscOutput q _, htr, taken ++ w.rest.take (ptyLdiscOutput w.kernel q (w.rest.take n)).1, ?_, ?_⟩
    · simp only [Int.toNat_natCast, append_assoc, take_append_drop]
      exact hs
    · have hle := hem.count
      rw [length_take] at hle
      simp only
      rw [hem.contents, ← append_assoc, hstream, translate_append, append_assoc, take_take,
        Nat.min_eq_left (Nat.le_trans hle (Nat.min_le_left _ _))]

/-- A read of the master takes from the front of the ring, or nothing. -/
theorem ptyMasterRead_cases (k : Kernel) (t : Tid) (q size : Nat) (noMem : Bool) :
    (∃ n, ptyMasterRead k t q size noMem = .returns n [] k) ∨
      (∃ n ≤ (k.pty q).outputRing.dataLen, ptyMasterRead k t q size noMem =
        .returns n ((k.pty q).outputRing.get n).1
          (k.modify q fun x => { x with outputRing := ((k.pty q).outputRing.get n).2 })) ∨
      ptyMasterRead k t q size noMem =
        .sleeps ((k.modify q fun x => { x with outputWaiters := x.outputWaiters ++ [t] }).modifyTask t fun x =>
          { x with blocked := true, reading := none }) := by
  unfold ptyMasterRead
  split
  · exact .inl ⟨_, rfl⟩
  · split
    · exact .inr (.inl ⟨_, Nat.min_le_right _ _, rfl⟩)
    · split
      · exact .inl ⟨_, rfl⟩
      · split
        · exact .inl ⟨_, rfl⟩
        · exact .inr (.inr rfl)

theorem Composed.masterRead {before s : List UInt8} {w : Writer} (h : Composed q before s w) (t : Tid) (size : Nat)
    (noMem : Bool) : Composed q before s (w.next q (.masterRead t size noMem)) := by
  obtain ⟨taken, hs, hstream⟩ := h.stream
  unfold Writer.next
  simp only
  rcases ptyMasterRead_cases w.kernel t q size noMem with ⟨n, heq⟩ | ⟨n, hn, heq⟩ | heq
  · rw [heq]
    simp only [append_nil]
    exact h
  · obtain ⟨hring, _, hget⟩ := (h.rings q).output.get hn
    rw [heq]
    simp only
    refine ⟨h.rings.setOutput q hring, (outputSet_modify ..).translates h.translates, taken, hs, ?_⟩
    rw [pty_modify_self, append_assoc, ← hget]
    exact hstream
  · have hset : RingsOk (w.kernel.modify q fun x => { x with outputWaiters := x.outputWaiters ++ [t] }) :=
      h.rings.modify q ⟨(h.rings q).input, (h.rings q).output⟩
    rw [heq]
    simp only
    refine ⟨hset.modifyTask t fun x => { x with blocked := true, reading := none }, ⟨?_, ?_⟩, taken, hs, ?_⟩
    all_goals rw [pty_modifyTask, pty_modify_self]
    · exact h.translates.user
    · exact h.translates.onlcr
    · exact hstream

theorem Composed.run {before s : List UInt8} (ops : List WriterOp) : ∀ {w : Writer}, Composed q before s w →
    Composed q before s (ops.foldl (Writer.next q) w) := by
  induction ops with
  | nil =>
    intro w h
    exact h
  | cons op ops ih =>
    intro w h
    cases op with
    | write n => exact ih (h.write n)
    | masterRead t size noMem => exact ih (h.masterRead t size noMem)

/-- The reads of the master and the ring have the translation of what is written, whole. -/
def Delivered (k : Kernel) (q : Nat) (s : List UInt8) (w : Writer) : Prop :=
  w.rest = [] → w.received ++ (w.kernel.pty q).outputRing.contents = (k.pty q).outputRing.contents ++ translate s

/-- Each write sends the translation of the bytes it counts, and no less of them than fit; and
writing the rest again until none is left sends the translation of the whole string. -/
theorem output_translated (hk : InUse k) (h : Translates k q) :
    (∀ data, Emitted k (ptyLdiscOutput k q data).2 q data (ptyLdiscOutput k q data).1) ∧
      ∀ (s : List UInt8) (ops : List WriterOp), Delivered k q s (ops.foldl (Writer.next q) ⟨k, s, []⟩) := by
  refine ⟨fun data => (emitted_ptyLdiscOutput h hk.ringsOk data).1, fun s ops hrest => ?_⟩
  have hstart : Composed q (k.pty q).outputRing.contents s ⟨k, s, []⟩ := by
    refine ⟨hk.ringsOk, h, [], rfl, ?_⟩
    simp [translate]
  obtain ⟨taken, hs, hstream⟩ := (hstart.run ops).stream
  rw [hrest, List.append_nil] at hs
  rw [hstream, hs]

/-- Terminals of users, as they are opened. -/
def userTerminal : Kernel :=
  { quietTerminal with pty := fun q => { quietTerminal.pty q with kernelVty := false, masterRefcount := 1 } }

theorem userTerminal_unused : userTerminal.Unused := quietTerminal_unused

/-- A line is written to the slave and read from the master in two parts. -/
theorem output_translated_line :
    Delivered userTerminal 0 [104, 105, 10] ([.write 5, .masterRead 2 1 false, .masterRead 2 9 false].foldl
      (Writer.next 0) ⟨userTerminal, [104, 105, 10], []⟩) :=
  (output_translated (.start userTerminal_unused) ⟨rfl, rfl⟩).2 _ _

end Serotonin.Tty
