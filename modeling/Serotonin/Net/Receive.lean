import Serotonin.Net.Model

/-! What the readers of the tun device get. Every good frame comes to them once and in order, as
long as the driver can follow the lengths in the ring; a reader that had to wait gets nothing. -/

namespace Serotonin.Net

open Function List Option
open Files (einval enomem)

/-! ## The ring -/

/-- Both parts of the copy together are the bytes of the ring from `off` on. -/
theorem rtlRxRingCopy_eq (buf : Nat → UInt8) (off : Nat) {len : Nat} (h : len ≤ rtlRxRingSize) :
    rtlRxRingCopy buf off len = CircBuf.window buf rtlRxRingSize off len := by
  unfold rtlRxRingCopy
  dsimp only
  generalize hfirst : min ((rtlRxRingSize - off % rtlRxRingSize) % 65536) len = first
  have hle : first ≤ len := by omega
  have hsplit : len = first + (len - first) := by omega
  rw [hsplit, CircBuf.window_split, ← hsplit]
  unfold CircBuf.window rtlRxRingSize at *
  congr 1
  · refine map_congr_left fun i hi => ?_
    rw [mem_range] at hi
    congr 1
    omega
  · refine map_congr_left fun i hi => ?_
    rw [mem_range] at hi
    congr 1
    omega

/-- What lies in the ring from the driver's position on. -/
structure RingOk (r : Rtl) (bytes : List UInt8) : Prop where
  rxOffset : r.rxOffset < rtlRxRingSize
  dword : r.rxOffset % 4 = 0
  cbr : r.cbr < rtlRxRingSize
  contents : r.ring.contents = bytes

namespace RingOk

variable {r : Rtl} {bytes : List UInt8}

theorem used_eq (h : RingOk r bytes) : r.used = bytes.length := by
  rw [← h.contents, CircBuf.contents_length]
  rfl

theorem valid (h : RingOk r bytes) : r.ring.Valid where
  size := show 0 < rtlRxRingSize by decide
  len := Nat.le_of_lt (Nat.mod_lt _ (by decide))
  write := by
    have h1 := h.rxOffset
    have h2 := h.cbr
    unfold Rtl.ring Rtl.used rtlRxRingSize at *
    dsimp only
    omega

theorem used_lt (r : Rtl) : r.used < rtlRxRingSize := Nat.mod_lt _ (by decide)

/-- A part of the ring, seen from the driver's position. -/
theorem copy (h : RingOk r bytes) {a n : Nat} (hn : a + n ≤ bytes.length) :
    rtlRxRingCopy r.rxBuffer (r.rxOffset + a) n = (bytes.drop a).take n := by
  have hlt := used_lt r
  rw [h.used_eq] at hlt
  have hsplit : bytes.length = a + (n + (bytes.length - a - n)) := by omega
  have hbytes : bytes = CircBuf.window r.rxBuffer rtlRxRingSize r.rxOffset bytes.length := by
    conv_lhs => rw [← h.contents]
    unfold CircBuf.contents Rtl.ring
    rw [h.used_eq]
  rw [rtlRxRingCopy_eq _ _ (by omega), hbytes, hsplit, CircBuf.window_split, drop_left' (CircBuf.window_length ..),
    CircBuf.window_split, take_left' (CircBuf.window_length ..)]

/-- The card puts a frame behind the others. -/
theorem place (h : RingOk r bytes) {f : Frame} (hroom : r.used + f.bytes.length < rtlRxRingSize) :
    RingOk (r.place f) (bytes ++ f.bytes) := by
  obtain ⟨hwindow, hwrite⟩ := CircBuf.store_window f.bytes h.valid.size h.valid.write (Nat.le_of_lt hroom)
  have hoff := h.rxOffset
  have hcbr : (r.place f).cbr = (r.rxOffset + (r.used + f.bytes.length)) % rtlRxRingSize := hwrite
  have hused : (r.place f).used = r.used + f.bytes.length := by
    show ((r.place f).cbr + rtlRxRingSize - r.rxOffset) % rtlRxRingSize = _
    rw [hcbr]
    unfold rtlRxRingSize at *
    omega
  refine ⟨hoff, h.dword, ?_, ?_⟩
  · rw [hcbr]
    exact Nat.mod_lt _ (by decide)
  · show CircBuf.window (r.place f).rxBuffer rtlRxRingSize r.rxOffset (r.place f).used = _
    rw [hused, ← h.contents]
    exact hwindow

/-- The driver goes on to the next dword behind `n` bytes. -/
theorem advance {front rest : List UInt8} (h : RingOk r (front ++ rest)) {n : Nat} (hn : front.length = (n + 3) / 4 * 4) :
    RingOk (r.advance n) rest := by
  have hoff := h.rxOffset
  have hdword := h.dword
  have hcbr := h.cbr
  have hlt := used_lt r
  have hused := h.used_eq
  rw [length_append] at hused
  have hnext : (r.advance n).rxOffset = (r.rxOffset + front.length) % rtlRxRingSize := by
    unfold Rtl.advance
    dsimp only
    congr 1
    omega
  have hlen : (r.advance n).used = rest.length := by
    show (r.cbr + rtlRxRingSize - (r.advance n).rxOffset) % rtlRxRingSize = _
    rw [hnext]
    unfold Rtl.used rtlRxRingSize at *
    omega
  refine ⟨?_, ?_, hcbr, ?_⟩
  · rw [hnext]
    exact Nat.mod_lt _ (by decide)
  · rw [hnext]
    unfold rtlRxRingSize
    omega
  · show CircBuf.window r.rxBuffer rtlRxRingSize (r.advance n).rxOffset (r.advance n).used = _
    have hcontents := h.contents
    unfold CircBuf.contents Rtl.ring at hcontents
    rw [hused, CircBuf.window_split] at hcontents
    rw [hlen, hnext, CircBuf.window_mod]
    exact (append_inj hcontents (CircBuf.window_length ..)).2

end RingOk

theorem ringOk_start {r : Rtl} (h : r.cbr = 0) (h' : r.rxOffset = 0) : RingOk r [] where
  rxOffset := by rw [h']; decide
  dword := by rw [h']
  cbr := by rw [h]; decide
  contents := by
    have hused : r.used = 0 := by
      unfold Rtl.used
      rw [h, h']
      rfl
    unfold CircBuf.contents Rtl.ring
    rw [hused]
    rfl

/-! ## Frames -/

namespace Frame

/-- What the frame carries, without its CRC. -/
def body (f : Frame) : List UInt8 := f.data.take (f.data.length - 4)

/-- Good frames that have both addresses. -/
def good (f : Frame) : Bool := f.status.toNat % 2 == 1 && decide (12 ≤ f.body.length)

/-- What a reader is to get of the frame. -/
def packet (f : Frame) : Packet where
  dstMac := f.body.take ethAlen
  srcMac := (f.body.drop ethAlen).take ethAlen
  length := f.body.length - 12
  data := f.body.drop 12 ++ List.replicate (ethFrameMax - (f.body.length - 12)) 0

/-- The lengths that the driver believes. -/
def Short (f : Frame) : Prop := 4 ≤ f.data.length ∧ f.data.length ≤ ethFrameMax + 4

theorem bytes_length (f : Frame) : f.bytes.length = (f.data.length + 4 + 3) / 4 * 4 := by
  have h1 := f.pad_lt
  have h2 := f.aligned
  unfold bytes header
  simp only [length_append, length_cons, length_nil]
  omega

theorem halfWord_ofNat {n : Nat} (h : n < 65536) : Kernel.halfWord (.ofNat n) (.ofNat (n / 256)) = n := by
  unfold Kernel.halfWord
  rw [UInt8.toNat_ofNat', UInt8.toNat_ofNat']
  omega

/-- What `dev_rtl8139_push_packet` makes of the frame. -/
theorem slotOf_body {f : Frame} (h : f.Short) : Kernel.slotOf f.body = f.packet := by
  have hlen : f.body.length ≤ ethFrameMax := by
    have := h.2
    unfold body
    rw [length_take]
    omega
  have hmin : min (if 12 < f.body.length then f.body.length - 12 else 0) ethFrameMax = f.body.length - 12 := by
    split <;> omega
  have htake : (f.body.drop 12).take (f.body.length - 12) = f.body.drop 12 := take_of_length_le (by rw [length_drop])
  unfold Kernel.slotOf packet
  rw [hmin]
  dsimp only
  rw [htake]

end Frame

/-! ## Packets -/

/-- The packets of the good frames that found room in the queue. -/
def accepted (placed : List Frame) (fulls : List Bool) : List Packet :=
  ((placed.zip fulls).filter fun x => x.1.good && !x.2).map fun x => x.1.packet

theorem accepted_place {placed : List Frame} {fulls : List Bool} (f : Frame) (h : fulls.length ≤ placed.length) :
    accepted (placed ++ [f]) fulls = accepted placed fulls := by
  have hzip : (placed ++ [f]).zip fulls = placed.zip fulls := by
    have hsplit : placed = placed.take fulls.length ++ placed.drop fulls.length := (take_append_drop ..).symm
    have hlen : (placed.take fulls.length).length = fulls.length := by rw [length_take]; omega
    conv_lhs => rw [hsplit, append_assoc, ← append_nil fulls, zip_append (by simpa using hlen)]
    conv_rhs => rw [hsplit, ← append_nil fulls, zip_append (by simpa using hlen)]
    simp
  unfold accepted
  rw [hzip]

/-- The driver looks at the next frame. -/
theorem accepted_look {placed rest : List Frame} {fulls : List Bool} {f : Frame} (b : Bool)
    (h : placed.drop fulls.length = f :: rest) :
    accepted placed (fulls ++ [b]) = accepted placed fulls ++ if f.good && !b then [f.packet] else [] := by
  have hlt : fulls.length < placed.length := by
    by_contra hge
    rw [drop_eq_nil_of_le (by omega)] at h
    cases h
  have hlen : (placed.take fulls.length).length = fulls.length := by rw [length_take]; omega
  have hsplit : placed = placed.take fulls.length ++ f :: rest := by rw [← h, take_append_drop]
  have hzip : placed.zip fulls = (placed.take fulls.length).zip fulls := by
    conv_lhs => rw [hsplit, ← append_nil fulls, zip_append (by simpa using hlen)]
    simp
  have hzip' : placed.zip (fulls ++ [b]) = placed.zip fulls ++ [(f, b)] := by
    rw [hzip]
    conv_lhs => rw [hsplit, zip_append hlen]
    simp
  unfold accepted
  rw [hzip', filter_append, map_append]
  rw [filter_cons, filter_nil]
  split <;> rfl

namespace Kernel

/-- Every good frame that found room is with the readers or in the queue, once and in order. -/
def Delivered (s : Kernel) : Prop := s.results.flatMap (·.stored) ++ s.tunBuffer.contents = accepted s.placed s.fulls

/-- What holds as long as the frames are short, readers that wait or not. -/
structure Inv (s : Kernel) : Prop where
  short : ∀ f ∈ s.placed, f.Short
  looked : s.fulls.length ≤ s.placed.length
  ring : RingOk s.rtl ((s.placed.drop s.fulls.length).flatMap Frame.bytes)
  valid : s.tunBuffer.Valid
  size : s.tunBuffer.size = rtl8139TunBufferSize
  readPos : s.tunBuffer.readPos < s.tunBuffer.size
  delivered : s.Delivered

/-- Waking a task changes nothing else. -/
theorem wake_eq (s : Kernel) : ∃ q task, s.wake = { s with waitQueue := q, task := task } := by
  unfold wake
  split
  · exact ⟨s.waitQueue, s.task, rfl⟩
  · exact ⟨_, _, rfl⟩

/-- What `dev_rtl8139_push_packet` does with a frame. -/
theorem pushPacket_spec {s : Kernel} (hv : s.tunBuffer.Valid) (hs : s.tunBuffer.size = rtl8139TunBufferSize) (data : List UInt8) :
    ∃ q drops ws task, s.pushPacket data = { s with tunBuffer := q, tunDropFull := drops, waitQueue := ws, task := task } ∧
      q.contents = s.tunBuffer.contents ++ (if 12 ≤ data.length ∧ s.full = false then [slotOf data] else []) ∧
      q.Valid ∧ q.size = s.tunBuffer.size ∧ q.readPos = s.tunBuffer.readPos := by
  unfold pushPacket
  by_cases h12 : data.length < 12
  · rw [if_pos h12, if_neg (by omega), append_nil]
    exact ⟨_, _, _, _, rfl, rfl, hv, rfl, rfl⟩
  rw [if_neg h12]
  by_cases hfull : rtl8139TunBufferSize ≤ s.tunBuffer.dataLen
  · rw [if_pos hfull, if_neg (by simp [full, hfull]), append_nil]
    exact ⟨_, _, _, _, rfl, rfl, hv, rfl, rfl⟩
  · rw [if_neg hfull, if_pos ⟨by omega, by simp [full, hfull]⟩]
    obtain ⟨ws, task, hwake⟩ := wake_eq { s with tunBuffer := s.tunBuffer.put [slotOf data] }
    have hroom : s.tunBuffer.dataLen + [slotOf data].length ≤ s.tunBuffer.size := by
      rw [hs]
      exact Nat.lt_of_not_le hfull
    obtain ⟨hcontents, hvalid⟩ := CircBuf.contents_put hv hroom
    exact ⟨_, _, _, _, hwake, hcontents, hvalid, rfl, rfl⟩

/-- One round of the driver at a short frame. -/
theorem receive_eq {s : Kernel} {f : Frame} {rest : List UInt8} (hring : RingOk s.rtl (f.bytes ++ rest)) (hf : f.Short) :
    ∃ r, RingOk r rest ∧ s.receive =
      if f.good then { s with rtl := r, fulls := s.fulls ++ [s.full] }.pushPacket f.body
      else { s with rtl := r, fulls := s.fulls ++ [s.full] } := by
  have hblen := f.bytes_length
  have hhdr : rtlRxRingCopy s.rtl.rxBuffer s.rtl.rxOffset 4 = f.header :=
    (hring.copy (a := 0) (n := 4) (by rw [length_append]; omega)).trans (by
      rw [drop_zero, Frame.bytes, append_assoc, append_assoc]
      exact take_left' rfl)
  have hbody : rtlRxRingCopy s.rtl.rxBuffer (s.rtl.rxOffset + 4) (f.data.length - 4) = f.body :=
    (hring.copy (a := 4) (n := f.data.length - 4) (by rw [length_append]; omega)).trans (by
      rw [Frame.bytes, append_assoc, append_assoc, drop_left' (show f.header.length = 4 from rfl), take_append_of_le_length (Nat.sub_le _ _)]
      rfl)
  have hstatus : halfWord (f.header.getD 0 0) (f.header.getD 1 0) = f.status.toNat := Frame.halfWord_ofNat f.status.toNat_lt
  have hlength : halfWord (f.header.getD 2 0) (f.header.getD 3 0) = f.data.length := Frame.halfWord_ofNat f.data_lt
  have hadvance : ∀ r : Rtl, r.rxBuffer = s.rtl.rxBuffer → r.cbr = s.rtl.cbr → r.rxOffset = s.rtl.rxOffset →
      RingOk (r.advance (f.data.length + 4)) rest := by
    intro r h1 h2 h3
    have hr : RingOk r (f.bytes ++ rest) := by
      obtain ⟨ho, hd, hc, hcontents⟩ := hring
      refine ⟨h3 ▸ ho, h3 ▸ hd, h2 ▸ hc, ?_⟩
      rw [← hcontents]
      unfold Rtl.ring Rtl.used
      rw [h1, h2, h3]
    exact hr.advance hblen
  have hlen : f.body.length = f.data.length - 4 := by
    unfold Frame.body
    rw [length_take]
    omega
  unfold receive
  dsimp only
  rw [hhdr, hstatus, hlength, hbody, if_neg (by have := hf.1; have := hf.2; omega)]
  by_cases hrok : f.status.toNat % 2 = 0
  · rw [if_pos hrok]
    exact ⟨_, hadvance { s.rtl with rxErrors := s.rtl.rxErrors + 1 } rfl rfl rfl, (if_neg (by simp [Frame.good, hrok])).symm⟩
  rw [if_neg hrok]
  by_cases hpos : 0 < f.data.length - 4 ∧ f.data.length - 4 ≤ ethFrameMax
  · rw [if_pos hpos]
    refine ⟨_, hadvance { s.rtl with rxPackets := s.rtl.rxPackets + 1 } rfl rfl rfl, ?_⟩
    by_cases h12 : 12 ≤ f.body.length
    · rw [if_pos (by simp [Frame.good, h12]; omega)]
    · rw [if_neg (by simp [Frame.good, h12]), pushPacket, if_pos (by omega)]
  · have hshort := hf.2
    rw [if_neg hpos]
    refine ⟨_, hadvance { s.rtl with rxDropped := s.rtl.rxDropped + 1 } rfl rfl rfl, (if_neg ?_).symm⟩
    simp only [Frame.good, Bool.and_eq_true, decide_eq_true_eq]
    omega

theorem Inv.receive {s : Kernel} (h : s.Inv) (hne : s.rtl.cbr ≠ s.rtl.rxOffset) : s.receive.Inv := by
  have hused : 0 < s.rtl.used := by
    have h1 := h.ring.rxOffset
    have h2 := h.ring.cbr
    unfold Rtl.used rtlRxRingSize at *
    omega
  cases hrest : s.placed.drop s.fulls.length with
  | nil =>
    rw [h.ring.used_eq, hrest] at hused
    cases hused
  | cons f rest =>
    have hring := h.ring
    rw [hrest, flatMap_cons] at hring
    have hmem : f ∈ s.placed := mem_of_mem_drop (hrest ▸ mem_cons_self)
    have hlt : s.fulls.length < s.placed.length := by
      by_contra hge
      rw [drop_eq_nil_of_le (by omega)] at hrest
      cases hrest
    have hdrop : s.placed.drop (s.fulls ++ [s.full]).length = rest := by
      rw [length_append, length_singleton, ← drop_drop, hrest]
      rfl
    have hlook := accepted_look s.full hrest
    obtain ⟨r, hr, hreceive⟩ := receive_eq hring (h.short f hmem)
    rw [hreceive]
    cases hgood : f.good with
    | false =>
      rw [if_neg (by simp)]
      refine ⟨h.short, ?_, ?_, h.valid, h.size, h.readPos, ?_⟩
      · rw [length_append]
        exact hlt
      · show RingOk r ((s.placed.drop (s.fulls ++ [s.full]).length).flatMap Frame.bytes)
        rwa [hdrop]
      · show _ = accepted s.placed (s.fulls ++ [s.full])
        rw [hlook, hgood]
        exact h.delivered.trans (append_nil _).symm
    | true =>
      rw [if_pos rfl]
      obtain ⟨q, drops, ws, task, hpush, hcontents, hvalid, hsize, hreadPos⟩ :=
        pushPacket_spec (s := { s with rtl := r, fulls := s.fulls ++ [s.full] }) h.valid h.size f.body
      rw [hpush]
      refine ⟨h.short, ?_, ?_, hvalid, hsize.trans h.size, ?_, ?_⟩
      · rw [length_append]
        exact hlt
      · show RingOk r ((s.placed.drop (s.fulls ++ [s.full]).length).flatMap Frame.bytes)
        rwa [hdrop]
      · show q.readPos < q.size
        rw [hsize, hreadPos]
        exact h.readPos
      · show s.results.flatMap (·.stored) ++ q.contents = accepted s.placed (s.fulls ++ [s.full])
        have h12 : 12 ≤ f.body.length := by
          simp only [Frame.good, Bool.and_eq_true, decide_eq_true_eq] at hgood
          exact hgood.2
        have hfull : full { s with rtl := r, fulls := s.fulls ++ [s.full] } = s.full := rfl
        have hdelivered : s.results.flatMap (·.stored) ++ s.tunBuffer.contents = accepted s.placed s.fulls := h.delivered
        rw [hlook, hcontents, ← append_assoc, Frame.slotOf_body (h.short f hmem), hgood, hfull]
        show s.results.flatMap (·.stored) ++ s.tunBuffer.contents ++ _ = _
        rw [hdelivered]
        cases s.full <;> simp [h12]

/-- A read takes packets from the front of the queue, and its value says how many. -/
theorem readTun_spec {s : Kernel} (hv : s.tunBuffer.Valid) (hr : s.tunBuffer.readPos < s.tunBuffer.size) (t : Tid) (size : Nat)
    (nonblock noBuf noWaiter : Bool) :
    (∃ q, ∃ value : Int, ∃ stored, s.readTun t size nonblock noBuf noWaiter = { s with tunBuffer := q }.back t value stored ∧
      s.tunBuffer.contents = stored ++ q.contents ∧ q.Valid ∧ q.size = s.tunBuffer.size ∧ q.readPos < q.size ∧
      (value = (stored.length * packetSize : Nat) ∨ value < 0 ∧ stored = [])) ∨
    s.readTun t size nonblock noBuf noWaiter = s.block t := by
  have hsame : ∀ value : Int, value < 0 → ∃ q, ∃ value' : Int, ∃ stored, s.back t value [] = { s with tunBuffer := q }.back t value' stored ∧
      s.tunBuffer.contents = stored ++ q.contents ∧ q.Valid ∧ q.size = s.tunBuffer.size ∧ q.readPos < q.size ∧
      (value' = (stored.length * packetSize : Nat) ∨ value' < 0 ∧ stored = []) := fun value hneg =>
    ⟨s.tunBuffer, value, [], rfl, rfl, hv, rfl, hr, .inr ⟨hneg, rfl⟩⟩
  unfold readTun
  split
  · exact .inl (hsame _ (by decide))
  split
  · exact .inl (hsame _ (by decide))
  split
  · generalize hn : min s.tunBuffer.dataLen (min (size / packetSize) rtl8139TunReadBatchMax) = n
    obtain ⟨hcontents, hvalid, hreadPos⟩ := CircBuf.contents_get hv hr (n := n) (by omega)
    have hsize : (s.tunBuffer.get n).2.size = s.tunBuffer.size := (CircBuf.fetch_fields n s.tunBuffer).2.1
    exact .inl ⟨_, _, _, rfl, hcontents, hvalid, hsize, hsize ▸ hreadPos, .inl (by rw [CircBuf.fetch_length])⟩
  split
  · exact .inl (hsame _ (by decide))
  split
  · exact .inl (hsame _ (by decide))
  · exact .inr rfl

theorem Inv.readTun {s : Kernel} (h : s.Inv) (t : Tid) (size : Nat) (nonblock noBuf noWaiter : Bool) :
    (s.readTun t size nonblock noBuf noWaiter).Inv := by
  rcases readTun_spec h.valid h.readPos t size nonblock noBuf noWaiter with
    ⟨q, value, stored, hread, hcontents, hvalid, hsize, hreadPos, -⟩ | hread
  · rw [hread]
    refine ⟨h.short, h.looked, h.ring, hvalid, hsize.trans h.size, hreadPos, ?_⟩
    have hdelivered : s.results.flatMap (·.stored) ++ s.tunBuffer.contents = accepted s.placed s.fulls := h.delivered
    show (s.results ++ [Result.mk t value stored]).flatMap (·.stored) ++ q.contents = accepted s.placed s.fulls
    rw [← hdelivered, hcontents]
    simp
  · rw [hread]
    exact ⟨h.short, h.looked, h.ring, h.valid, h.size, h.readPos, h.delivered⟩

theorem Inv.place {s : Kernel} (h : s.Inv) {f : Frame} (hf : f.Short) (hroom : s.rtl.used + f.bytes.length < rtlRxRingSize) :
    Inv { s with rtl := s.rtl.place f, placed := s.placed ++ [f] } := by
  refine ⟨?_, ?_, ?_, h.valid, h.size, h.readPos, ?_⟩
  · intro g hg
    rcases mem_append.mp hg with hg | hg
    · exact h.short g hg
    · exact mem_singleton.mp hg ▸ hf
  · rw [length_append]
    exact Nat.le_add_right_of_le h.looked
  · have hring := h.ring.place hroom
    show RingOk (s.rtl.place f) (((s.placed ++ [f]).drop s.fulls.length).flatMap Frame.bytes)
    rw [drop_append_of_le_length h.looked, flatMap_append]
    simpa using hring
  · show _ = accepted (s.placed ++ [f]) s.fulls
    rw [accepted_place f h.looked]
    exact h.delivered

end Kernel

/-! ## Runs -/

/-- The value counts the bytes that were stored; a read that is refused stores none. -/
def Result.Right (r : Result) : Prop := r.value = (r.stored.length * packetSize : Nat) ∨ r.value < 0 ∧ r.stored = []

/-- Does the read find no packet, and nothing to refuse it? -/
def Kernel.Waits (s : Kernel) (t : Tid) (size : Nat) (nonblock noBuf noWaiter : Bool) : Prop :=
  s.readTun t size nonblock noBuf noWaiter = s.block t

/-- The readers get what they should: every good frame that found room is with them or in the
queue, the driver has looked at every frame when its ring is empty, and every read has told what
it stored. -/
structure Kernel.Received (s : Kernel) : Prop where
  delivered : s.Delivered
  looked : s.rtl.cbr = s.rtl.rxOffset → s.fulls.length = s.placed.length
  results : ∀ r ∈ s.results, r.Right

theorem Kernel.Inv.start {s : Kernel} (h : Start s) : s.Inv where
  short := by simp [h.placed]
  looked := by simp [h.fulls]
  ring := by simpa [h.placed] using ringOk_start h.cbr h.rxOffset
  valid := ⟨by rw [h.size]; decide, by rw [h.dataLen]; exact Nat.zero_le _, by rw [h.readPos, h.writePos, h.dataLen]; exact (Nat.zero_mod _).symm⟩
  size := h.size
  readPos := by rw [h.readPos, h.size]; decide
  delivered := by
    have hcontents := CircBuf.contents_eq_nil h.dataLen
    unfold Kernel.Delivered
    rw [h.results, hcontents, h.placed]
    rfl

/-- The frames are short, and no reader has to wait. -/
def Fine (s : Kernel) : Op → Prop
  | .place f => f.Short
  | .read t size nonblock noBuf noWaiter => ¬s.Waits t size nonblock noBuf noWaiter
  | _ => True

theorem Kernel.wake_running {s : Kernel} (h : ∀ t, s.task t = .running) : s.wake.task = s.task := by
  unfold wake
  split
  · rfl
  · exact if_neg (by rw [h]; nofun)

theorem Kernel.pushPacket_running {s : Kernel} (h : ∀ t, s.task t = .running) (data : List UInt8) :
    (s.pushPacket data).task = s.task ∧ (s.pushPacket data).results = s.results := by
  unfold pushPacket
  split
  · exact ⟨rfl, rfl⟩
  split
  · exact ⟨rfl, rfl⟩
  · obtain ⟨ws, task, hwake⟩ := wake_eq { s with tunBuffer := s.tunBuffer.put [slotOf data] }
    exact ⟨wake_running (s := { s with tunBuffer := s.tunBuffer.put [slotOf data] }) h, by rw [hwake]⟩

theorem Kernel.receive_running {s : Kernel} (h : ∀ t, s.task t = .running) :
    s.receive.task = s.task ∧ s.receive.results = s.results := by
  unfold receive
  dsimp only
  split
  · exact ⟨rfl, rfl⟩
  split
  · exact ⟨rfl, rfl⟩
  split
  · exact pushPacket_running (s := { s with rtl := _, fulls := s.fulls ++ [s.full] }) h _
  · exact ⟨rfl, rfl⟩

/-- No reader waits, and all reads are right. -/
structure Kernel.Quick (s : Kernel) : Prop where
  inv : s.Inv
  task : ∀ t, s.task t = .running
  results : ∀ r ∈ s.results, r.Right

theorem Kernel.Quick.step {s s' : Kernel} {op : Op} (h : s.Quick) (hfine : Fine s op) (hstep : step s op = some s') : s'.Quick := by
  cases op with
  | place f =>
    obtain ⟨hroom, hs⟩ := ite_none_right_eq_some.mp hstep
    obtain rfl := Option.some.inj hs
    exact ⟨h.inv.place hfine hroom, h.task, h.results⟩
  | receive =>
    obtain ⟨hne, hs⟩ := ite_none_left_eq_some.mp hstep
    obtain rfl := Option.some.inj hs
    obtain ⟨htask, hresults⟩ := receive_running h.task
    exact ⟨h.inv.receive hne, fun t => by rw [htask, h.task], hresults ▸ h.results⟩
  | read t size nonblock noBuf noWaiter =>
    obtain ⟨-, hs⟩ := ite_none_right_eq_some.mp hstep
    obtain rfl := Option.some.inj hs
    have hinv := h.inv.readTun t size nonblock noBuf noWaiter
    rcases readTun_spec h.inv.valid h.inv.readPos t size nonblock noBuf noWaiter with
      ⟨q, value, stored, hread, -, -, -, -, hvalue⟩ | hread
    · rw [hread] at hinv ⊢
      refine ⟨hinv, h.task, fun r hr => ?_⟩
      rcases mem_append.mp hr with hr | hr
      · exact h.results r hr
      · obtain rfl := mem_singleton.mp hr
        exact hvalue
    · exact absurd hread hfine
  | resume t =>
    obtain ⟨hwoken, -⟩ := ite_none_right_eq_some.mp hstep
    rw [h.task t] at hwoken
    cases hwoken

theorem Kernel.Inv.toReceived {s : Kernel} (h : s.Inv) (hresults : ∀ r ∈ s.results, r.Right) : s.Received where
  delivered := h.delivered
  looked hempty := by
    have hused : s.rtl.used = 0 := by
      unfold Rtl.used rtlRxRingSize at *
      omega
    have hbytes := h.ring.used_eq.symm.trans hused
    have hlooked := h.looked
    by_contra hne
    obtain ⟨f, rest, hdrop⟩ := exists_cons_of_ne_nil (ne_nil_of_length_pos (l := s.placed.drop s.fulls.length)
      (by rw [length_drop]; omega))
    rw [hdrop, flatMap_cons, length_append, f.bytes_length] at hbytes
    omega
  results := hresults

def FineStep (s s' : Kernel) : Prop := ∃ op, Fine s op ∧ step s op = some s'

/-- Where the frames have a length that the driver believes, and no reader has to wait, the readers
get what they should. -/
theorem received {s : Kernel} (h : Run.Reachable Start FineStep s) : s.Received := by
  have hquick : s.Quick := by
    refine h.invariant _ (fun s hs => ⟨.start hs, hs.task, by simp [hs.results]⟩) fun s s' hq hstep => ?_
    obtain ⟨op, hfine, hstep⟩ := hstep
    exact hq.step hfine hstep
  exact hquick.inv.toReceived hquick.results

/-! ## Readers that wait -/

/-- The registers of a task that waits hold the number of its call. -/
def Kernel.Saved (s : Kernel) : Prop := ∀ t, s.task t ≠ .running → s.eax t = systemCallRead

theorem Kernel.Saved.wake {s : Kernel} (h : s.Saved) : s.wake.Saved := by
  unfold Kernel.wake
  split
  · exact h
  · rename_i t ts _
    intro u hu
    by_cases hb : s.task t = .blocked
    · simp only [if_pos hb] at hu
      by_cases hut : u = t
      · exact h u (by rw [hut, hb]; nofun)
      · rw [update_of_ne hut] at hu
        exact h u hu
    · simp only [if_neg hb] at hu
      exact h u hu

theorem Kernel.Saved.pushPacket {s : Kernel} (h : s.Saved) (data : List UInt8) : (s.pushPacket data).Saved := by
  unfold Kernel.pushPacket
  split
  · exact h
  split
  · exact h
  · exact Saved.wake (s := { s with tunBuffer := s.tunBuffer.put [slotOf data] }) h

theorem Kernel.Saved.receive {s : Kernel} (h : s.Saved) : s.receive.Saved := by
  unfold Kernel.receive
  dsimp only
  split
  · exact h
  split
  · exact h
  split
  · exact Saved.pushPacket (s := { s with rtl := _, fulls := s.fulls ++ [s.full] }) h _
  · exact h

theorem Kernel.Saved.readTun {s : Kernel} (h : s.Saved) (t : Tid) (size : Nat) (nonblock noBuf noWaiter : Bool) :
    (s.readTun t size nonblock noBuf noWaiter).Saved := by
  have hblock : (s.block t).Saved := by
    intro u hu
    by_cases hut : u = t
    · subst hut
      exact update_self ..
    · exact (update_of_ne hut ..).trans (h u fun hr => hu ((update_of_ne hut ..).trans hr))
  unfold Kernel.readTun
  split
  · exact h
  split
  · exact h
  split
  · exact h
  split
  · exact h
  split
  · exact h
  · exact hblock

def Step (s s' : Kernel) : Prop := ∃ op, step s op = some s'

theorem saved {s : Kernel} (h : Run.Reachable Start Step s) : s.Saved := by
  refine h.invariant _ (fun s hs t hne => absurd (hs.task t) hne) ?_
  rintro s s' hs ⟨op, hstep⟩
  cases op with
  | place f =>
    obtain ⟨-, hs'⟩ := ite_none_right_eq_some.mp hstep
    exact Option.some.inj hs' ▸ hs
  | receive =>
    obtain ⟨-, hs'⟩ := ite_none_left_eq_some.mp hstep
    exact Option.some.inj hs' ▸ hs.receive
  | read t size nonblock noBuf noWaiter =>
    obtain ⟨-, hs'⟩ := ite_none_right_eq_some.mp hstep
    exact Option.some.inj hs' ▸ hs.readTun t size nonblock noBuf noWaiter
  | resume t =>
    obtain ⟨-, hs'⟩ := ite_none_right_eq_some.mp hstep
    obtain rfl := Option.some.inj hs'
    intro u hu
    refine hs u fun hr => hu ?_
    by_cases hut : u = t
    · subst hut
      exact update_self ..
    · exact (update_of_ne hut ..).trans hr

def shortFrame : Frame where
  status := 1
  data := List.replicate 64 7
  pad := []
  data_lt := by decide
  pad_lt := by decide
  aligned := by decide

def quietCard : Kernel where
  rtl := ⟨fun _ => 0, 0, 0, 0, 0, 0⟩
  tunBuffer := ⟨fun _ => ⟨[], [], 0, []⟩, rtl8139TunBufferSize, 0, 0, 0⟩
  tunDropFull := 0
  waitQueue := []
  task := fun _ => .running
  eax := fun _ => 0
  placed := []
  fulls := []
  results := []

theorem quietCard_start : Start quietCard := ⟨rfl, rfl, rfl, rfl, rfl, rfl, rfl, fun _ => rfl, rfl, rfl, rfl⟩

theorem step_place {s : Kernel} {f : Frame} (h : s.rtl.used + f.bytes.length < rtlRxRingSize) :
    step s (.place f) = some { s with rtl := s.rtl.place f, placed := s.placed ++ [f] } := if_pos h

theorem step_receive {s : Kernel} (h : s.rtl.cbr ≠ s.rtl.rxOffset) : step s .receive = some s.receive := if_neg h

theorem step_read {s : Kernel} {t : Tid} (h : s.task t = .running) (size : Nat) (nonblock noBuf noWaiter : Bool) :
    step s (.read t size nonblock noBuf noWaiter) = some (s.readTun t size nonblock noBuf noWaiter) := if_pos h

def placedOne : Kernel := { quietCard with rtl := quietCard.rtl.place shortFrame, placed := quietCard.placed ++ [shortFrame] }

def queuedOne : Kernel := placedOne.receive

theorem queuedOne_reachable : Run.Reachable Start FineStep queuedOne := by
  have hplace : FineStep quietCard placedOne := ⟨.place shortFrame, ⟨by decide, by decide⟩, step_place (by decide)⟩
  have hne : placedOne.rtl.cbr ≠ placedOne.rtl.rxOffset := by decide +kernel
  exact ((Run.Reachable.start quietCard_start).step hplace).step ⟨.receive, True.intro, step_receive hne⟩

/-- A read finds the packet. -/
theorem received_one : (queuedOne.readTun 5 4096 false false false).results.map (·.value) = [1528] ∧
    (queuedOne.readTun 5 4096 false false false).Received := by
  have hresults : (queuedOne.readTun 5 4096 false false false).results.map (·.value) = [1528] := by decide +kernel
  have hblock : (queuedOne.block 5).results.map (·.value) = [] := by decide +kernel
  have hrunning : queuedOne.task 5 = .running := by decide +kernel
  have hfine : Fine queuedOne (.read 5 4096 false false false) := fun hwaits => by
    rw [hwaits, hblock] at hresults
    cases hresults
  exact ⟨hresults, received (queuedOne_reachable.step ⟨_, hfine, step_read hrunning ..⟩)⟩

/-! A reader that comes before the frame. -/

/-- The reader is switched away from and woken by the frame; it goes on with the number of the call
in its register, and with nothing in its buffer. -/
theorem not_received : ∃ s, Run.Reachable Start Step s ∧ ¬s.Received := by
  have hrun : ∃ s, Run.exec step quietCard [.read 5 4096 false false false, .place shortFrame, .receive, .resume 5] = some s ∧
      s.results = [⟨5, 2, []⟩] := by
    have h : (Run.exec step quietCard [.read 5 4096 false false false, .place shortFrame, .receive, .resume 5]).map (·.results) =
        some [⟨5, 2, []⟩] := by decide +kernel
    exact Option.map_eq_some_iff.mp h
  obtain ⟨s, hs, hresults⟩ := hrun
  refine ⟨s, .exec (fun s op t h => ⟨op, h⟩) (.start quietCard_start) hs, fun h => ?_⟩
  exact absurd (h.results _ (by rw [hresults]; exact List.mem_singleton_self _)) (by
    unfold Result.Right
    decide)

end Serotonin.Net
