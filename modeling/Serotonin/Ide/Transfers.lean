import Mathlib.Logic.Function.Basic
import Serotonin.Files.Model
import Serotonin.Lib.ByteMem

/-! Transfers of sectors: `ide_read_sectors` and `ide_write_sectors` of `ide_pci.c`, by DMA in
batches of eight sectors through the bounce buffer of the channel, or by PIO. What the
controller and the drives present (their status registers and the data) is given. -/

namespace Serotonin.Transfers

open Function
open Files (Tid)
open ByteMem (u32 u32_of_lt)

/-! ## The code -/

abbrev Buffer := Nat → UInt8

def ataStatusErr : Nat := 0x01
def ataStatusDrq : Nat := 0x08
def ataStatusDf : Nat := 0x20
def ataStatusBsy : Nat := 0x80
def bmideStatusErr : Nat := 0x02
def bmideStatusIrq : Nat := 0x04

def ataCmdReadSectors : Nat := 0x20
def ataCmdWriteSectors : Nat := 0x30
def ataCmdReadDma : Nat := 0xC8
def ataCmdWriteDma : Nat := 0xCA

def ideMaxDrives : Nat := 4

/-- A bit of a status register is set. -/
def has (status bit : Nat) : Bool := status &&& bit != 0

/-- `ide_drive_t`. -/
structure Drive where
  present : Bool
  channel : Nat
  drive : Nat

/-- The variables of the driver and of the scheduler that it reads. `channelLock` counts the tokens that are out;
`pid0` is the `disk_bytes` of the task with the number 0, if there is one. -/
structure Driver where
  drives : Nat → Drive
  dmaCapable : Nat → Bool
  dmaComplete : Nat → Bool
  dmaError : Nat → Bool
  dmaBuf : Nat → Buffer
  irqMasked : Nat → Bool
  channelLock : Nat → Nat
  multitaskingReady : Bool
  currentTask : Option Tid
  ideWorker : Option Tid
  pid0 : Option Nat

/-- What the registers hold when a command is given. -/
structure Command where
  command : Nat
  drv : Nat
  lba : Nat
  seccount : Nat

/-- The four bits that `ide_select_drive` puts into the register of the drive, and the three bytes below. -/
def lbaRegs (lba : Nat) : Nat :=
  (lba &&& 0xFF) + 256 * (lba >>> 8 &&& 0xFF) + 65536 * (lba >>> 16 &&& 0xFF) + 16777216 * (lba >>> 24 &&& 0x0F)

/-- What `ide_irq_handler` reads: the status of the bus master and that of the drive. -/
structure Irq where
  bm : Nat
  ata : Nat

/-- What is presented during a batch by DMA: the status of the bus master at each poll, the status of the drive after
the last, or the interrupts up to each look at `dma_complete`; and what the bounce buffer holds then. -/
structure DmaTurn where
  polls : Nat → Nat
  ata : Nat
  irqs : List (List Irq)
  data : Buffer

/-- What is presented during a transfer by PIO: the status of the drive at each poll for a sector, and at each poll
after the last sector of a write; and the bytes of the sectors. -/
structure PioTurn where
  polls : Nat → Nat → Nat
  last : Nat → Nat
  data : Nat → Buffer

/-- The controller, with the drives. The batches of a call are numbered by the sectors before them. -/
structure Controller where
  dma : Nat → Command → DmaTurn
  pio : Command → PioTurn

/-- A loop of at most `n` polls that ends at the first status that decides. -/
def pollStatus {α : Type} (decides : Nat → Option α) (polls : Nat → Nat) : Nat → Nat → Option α
  | 0, _ => none
  | n + 1, i =>
    match decides (polls i) with
    | some r => some r
    | none => pollStatus decides polls n (i + 1)

def polledReady (s : Nat) : Option Int :=
  if has s ataStatusBsy then none
  else if has s ataStatusErr then some (-1)
  else if has s ataStatusDf then some (-1)
  else if has s ataStatusDrq then some 0 else none

def idePolls : Nat := 500000

def idePoll (polls : Nat → Nat) : Int := (pollStatus polledReady polls idePolls 0).getD (-1)

def polledIdle (s : Nat) : Option Int :=
  if has s ataStatusBsy then none
  else if has s ataStatusErr then some (-1)
  else if has s ataStatusDf then some (-1) else some 0

def idePollBsy (polls : Nat → Nat) : Int := (pollStatus polledIdle polls idePolls 0).getD (-1)

/-- `len` bytes from `src` on into a buffer, at `off`. -/
def copyTo (buf : Buffer) (off : Nat) (src : Buffer) (len : Nat) : Buffer := fun i =>
  if off ≤ i ∧ i < off + len then src (i - off) else buf i

def pioReadLoop (t : PioTurn) : Nat → Nat → Buffer → Buffer × Int
  | 0, _, buf => (buf, 0)
  | n + 1, s, buf =>
    if idePoll (t.polls s) ≠ 0 then (buf, -1) else pioReadLoop t n (s + 1) (copyTo buf (s * 512) (t.data s) 512)

def idePioReadSectors (dev : Controller) (drv lba count : Nat) (buf : Buffer) : Buffer × Int :=
  pioReadLoop (dev.pio ⟨ataCmdReadSectors, drv, lbaRegs lba, count⟩) count 0 buf

def pioWriteLoop (t : PioTurn) : Nat → Nat → Int
  | 0, _ => if idePollBsy t.last ≠ 0 then -1 else 0
  | n + 1, s => if idePoll (t.polls s) ≠ 0 then -1 else pioWriteLoop t n (s + 1)

def idePioWriteSectors (dev : Controller) (drv lba count : Nat) : Int :=
  pioWriteLoop (dev.pio ⟨ataCmdWriteSectors, drv, lbaRegs lba, count⟩) count 0

def ideIrqHandler (c : Nat) (s : Driver) (i : Irq) : Driver :=
  if has i.bm bmideStatusIrq then
    { s with
      dmaError := if has i.bm bmideStatusErr then update s.dmaError c true else s.dmaError
      dmaComplete := update s.dmaComplete c true }
  else s

/-- The worker's wait for its interrupt: `none` if it goes on for ever. -/
def awaitIrq (c : Nat) : List (List Irq) → Driver → Option Driver
  | [], _ => none
  | g :: gs, s =>
    let s := g.foldl (ideIrqHandler c) s
    if s.dmaComplete c then some s else awaitIrq c gs s

/-- Of a poll of the bus master: the error first. -/
def polledDma (s : Nat) : Option Int :=
  if has s bmideStatusErr then some (-1) else if has s bmideStatusIrq then some 0 else none

def dmaPolls : Nat := 1000000

def useIrq (s : Driver) : Bool := s.multitaskingReady && s.currentTask == s.ideWorker

def maskIrq (s : Driver) (c : Nat) (masked : Bool) : Driver :=
  { s with irqMasked := update s.irqMasked c masked }

/-- The flags of the channel before the command is given. -/
def dmaStart (s : Driver) (c : Nat) : Driver :=
  let s := { s with
    dmaComplete := update s.dmaComplete c false
    dmaError := update s.dmaError c false }
  if useIrq s then s else maskIrq s c true

/-- From the command to the end of the wait. A loop of polls that runs out goes on like one that has seen the
interrupt. -/
def dmaWait (s : Driver) (c : Nat) (t : DmaTurn) : Option (Driver × Int) :=
  if useIrq s then
    (awaitIrq c t.irqs s).map fun s => (s, if s.dmaError c then -1 else 0)
  else
    match pollStatus polledDma t.polls dmaPolls 0 with
    | some r => some (maskIrq s c false, r)
    | none => some (maskIrq s c false, 0)

def ideDmaReadSectors (s : Driver) (dev : Controller) (c drv lba count no : Nat) (buf : Buffer) :
    Option ((Driver × Buffer) × Int) :=
  let byteCount := count * 512 % 2 ^ 16
  let t := dev.dma no ⟨ataCmdReadDma, drv, lbaRegs lba, count⟩
  (dmaWait (dmaStart s c) c t).map fun (s, r) =>
    let s := { s with dmaBuf := update s.dmaBuf c t.data }
    if r ≠ 0 then ((s, buf), -1) else ((s, copyTo buf (no * 512) (s.dmaBuf c) byteCount), 0)

def ideDmaWriteSectors (s : Driver) (dev : Controller) (c drv lba count no : Nat) (buf : Buffer) :
    Option (Driver × Int) :=
  let byteCount := count * 512 % 2 ^ 16
  let s := dmaStart s c
  let s := { s with
    dmaBuf := update s.dmaBuf c (copyTo (s.dmaBuf c) 0 (fun i => buf (no * 512 + i)) byteCount) }
  (dmaWait s c (dev.dma no ⟨ataCmdWriteDma, drv, lbaRegs lba, count⟩)).map fun (s, r) =>
    if r ≠ 0 then (s, -1) else (s, 0)

/-- The loop over the batches of a call: `transfer` is given the sectors done and the length of the batch. -/
def batchLoop {σ : Type} (transfer : σ → Nat → Nat → Option (σ × Int)) (count : Nat) : Nat → σ → Nat → Option (σ × Int)
  | 0, s, _ => some (s, 0)
  | n + 1, s, done =>
    if done < count then
      let batch := if 8 < count - done then 8 else count - done
      match transfer s done batch with
      | none => none
      | some (s, r) => if r ≠ 0 then some (s, r) else batchLoop transfer count n s ((done + batch) % 2 ^ 8)
    else some (s, 0)

def channelAcquire (s : Driver) (c : Nat) : Driver :=
  if s.multitaskingReady then { s with channelLock := update s.channelLock c (s.channelLock c + 1) } else s

def channelRelease (s : Driver) (c : Nat) : Driver :=
  if s.multitaskingReady then { s with channelLock := update s.channelLock c (s.channelLock c - 1) } else s

/-- What is charged to the task with the number 0. -/
def charge (s : Driver) (r : Int) (count : Nat) : Driver :=
  if r = 0 ∧ s.currentTask ≠ none ∧ s.currentTask ≠ s.ideWorker then
    { s with pid0 := s.pid0.map fun bytes => u32 (bytes + count * 512) }
  else s

/-- A drive that the calls refuse, and a count. -/
def refused (s : Driver) (drive count : Nat) : Bool := ideMaxDrives ≤ drive || !(s.drives drive).present || count == 0

/-- `none` if the call does not return. -/
def ideReadSectors (s : Driver) (dev : Controller) (drive lba count : Nat) (buf : Buffer) :
    Option ((Driver × Buffer) × Int) :=
  if refused s drive count then some ((s, buf), -1)
  else
    let drv := s.drives drive
    let s := channelAcquire s drv.channel
    let r :=
      if s.dmaCapable drv.channel then
        batchLoop (fun (s, buf) done batch =>
            ideDmaReadSectors s dev drv.channel drv.drive (u32 (lba + done)) batch done buf)
          count count (s, buf) 0
      else
        let (buf, r) := idePioReadSectors dev drv.drive lba count buf
        some ((s, buf), r)
    r.map fun ((s, buf), r) => ((charge (channelRelease s drv.channel) r count, buf), r)

def ideWriteSectors (s : Driver) (dev : Controller) (drive lba count : Nat) (buf : Buffer) : Option (Driver × Int) :=
  if refused s drive count then some (s, -1)
  else
    let drv := s.drives drive
    let s := channelAcquire s drv.channel
    let r :=
      if s.dmaCapable drv.channel then
        batchLoop (fun s done batch => ideDmaWriteSectors s dev drv.channel drv.drive (u32 (lba + done)) batch done buf)
          count count s 0
      else some (s, idePioWriteSectors dev drv.drive lba count)
    r.map fun (s, r) => (channelRelease (charge s r count) drv.channel, r)

/-! ## How a transfer ends -/

/-- The drive reports an error or a fault. -/
def driveError (s : Nat) : Bool := has s ataStatusErr || has s ataStatusDf

/-- The drive has the data of a sector, or wants it, before the polls run out, and reports nothing else before. -/
def ReadyClean (polls : Nat → Nat) : Prop :=
  ∃ k < idePolls,
    (has (polls k) ataStatusBsy = false ∧ driveError (polls k) = false ∧ has (polls k) ataStatusDrq = true) ∧
    ∀ j < k, has (polls j) ataStatusBsy = true ∨ driveError (polls j) = false ∧ has (polls j) ataStatusDrq = false

/-- The drive is done before the polls run out. -/
def IdleClean (polls : Nat → Nat) : Prop :=
  ∃ k < idePolls, (has (polls k) ataStatusBsy = false ∧ driveError (polls k) = false) ∧
    ∀ j < k, has (polls j) ataStatusBsy = true

/-- The interrupts up to the look that finds the transfer complete. -/
def DmaTurn.completion (t : DmaTurn) : Option (List Irq) := t.irqs.find? fun g => g.any fun i => has i.bm bmideStatusIrq

/-- The wait ends, with or without an interrupt. -/
def DmaTurn.Ends (t : DmaTurn) (irq : Bool) : Prop := irq = true → t.completion ≠ none

/-- The batch ends with an interrupt, and neither the bus master nor the drive reports an error. -/
def DmaTurn.Clean (t : DmaTurn) (irq : Bool) : Prop :=
  if irq then
    ∃ g, t.completion = some g ∧
      ∀ i ∈ g, has i.bm bmideStatusIrq = true → has i.bm bmideStatusErr = false ∧ driveError i.ata = false
  else
    ∃ k < dmaPolls,
      (has (t.polls k) bmideStatusIrq = true ∧ has (t.polls k) bmideStatusErr = false ∧ driveError t.ata = false) ∧
      ∀ j < k, has (t.polls j) bmideStatusIrq = false ∧ has (t.polls j) bmideStatusErr = false

/-- The bus master reports an error before the wait ends. -/
def DmaTurn.Failed (t : DmaTurn) (irq : Bool) : Prop :=
  if irq then
    ∃ g, t.completion = some g ∧ ∃ i ∈ g, has i.bm bmideStatusIrq = true ∧ has i.bm bmideStatusErr = true
  else
    ∃ k < dmaPolls, has (t.polls k) bmideStatusErr = true ∧
      ∀ j < k, has (t.polls j) bmideStatusIrq = false ∧ has (t.polls j) bmideStatusErr = false

/-! ## Polls -/

theorem pollStatus_eq_some {α : Type} {decides : Nat → Option α} {polls : Nat → Nat} {n i : Nat} {r : α} :
    pollStatus decides polls n i = some r ↔
      ∃ k < n, decides (polls (i + k)) = some r ∧ ∀ j < k, decides (polls (i + j)) = none := by
  induction n generalizing i with
  | zero => simp [pollStatus]
  | succ n ih =>
    unfold pollStatus
    cases hd : decides (polls i) with
    | some r' =>
      constructor
      · intro h
        refine ⟨0, Nat.succ_pos n, hd.trans h, fun j hj => absurd hj (Nat.not_lt_zero j)⟩
      · intro ⟨k, _, hk, hbefore⟩
        cases k with
        | zero => exact hd.symm.trans hk
        | succ k => exact absurd ((hbefore 0 (Nat.succ_pos k)).symm.trans hd) (by simp)
    | none =>
      simp only [ih]
      constructor
      · intro ⟨k, hk, hr, hbefore⟩
        refine ⟨k + 1, Nat.succ_lt_succ hk, ?_, fun j hj => ?_⟩
        · rw [← hr]
          congr 2
          omega
        · cases j with
          | zero => exact hd
          | succ j =>
            have hj' := hbefore j (Nat.lt_of_succ_lt_succ hj)
            rw [← hj']
            congr 2
            omega
      · intro ⟨k, hk, hr, hbefore⟩
        cases k with
        | zero => exact absurd (hd.symm.trans hr) (by simp)
        | succ k =>
          refine ⟨k, Nat.lt_of_succ_lt_succ hk, ?_, fun j hj => ?_⟩
          · rw [← hr]
            congr 2
            omega
          · have hj' := hbefore (j + 1) (Nat.succ_lt_succ hj)
            rw [← hj']
            congr 2
            omega

theorem polledReady_zero (s : Nat) :
    polledReady s = some 0 ↔ has s ataStatusBsy = false ∧ driveError s = false ∧ has s ataStatusDrq = true := by
  unfold polledReady driveError
  cases has s ataStatusBsy <;> cases has s ataStatusErr <;> cases has s ataStatusDf <;> cases has s ataStatusDrq <;> simp

theorem polledReady_none (s : Nat) :
    polledReady s = none ↔ has s ataStatusBsy = true ∨ driveError s = false ∧ has s ataStatusDrq = false := by
  unfold polledReady driveError
  cases has s ataStatusBsy <;> cases has s ataStatusErr <;> cases has s ataStatusDf <;> cases has s ataStatusDrq <;> simp

theorem polledIdle_zero (s : Nat) : polledIdle s = some 0 ↔ has s ataStatusBsy = false ∧ driveError s = false := by
  unfold polledIdle driveError
  cases has s ataStatusBsy <;> cases has s ataStatusErr <;> cases has s ataStatusDf <;> simp

theorem polledIdle_none (s : Nat) : polledIdle s = none ↔ has s ataStatusBsy = true := by
  unfold polledIdle
  cases has s ataStatusBsy <;> cases has s ataStatusErr <;> cases has s ataStatusDf <;> simp

theorem polledDma_fail (s : Nat) : polledDma s = some (-1) ↔ has s bmideStatusErr = true := by
  unfold polledDma
  cases has s bmideStatusErr <;> cases has s bmideStatusIrq <;> simp

theorem polledDma_none (s : Nat) :
    polledDma s = none ↔ has s bmideStatusIrq = false ∧ has s bmideStatusErr = false := by
  unfold polledDma
  cases has s bmideStatusErr <;> cases has s bmideStatusIrq <;> simp

/-- A default of -1 does not look like a zero. -/
theorem getD_eq_zero (o : Option Int) : o.getD (-1) = 0 ↔ o = some 0 := by
  cases o <;> simp

theorem idePoll_zero (polls : Nat → Nat) : idePoll polls = 0 ↔ ReadyClean polls := by
  unfold idePoll ReadyClean
  rw [getD_eq_zero, pollStatus_eq_some]
  simp only [Nat.zero_add, polledReady_zero, polledReady_none]

theorem idePollBsy_zero (polls : Nat → Nat) : idePollBsy polls = 0 ↔ IdleClean polls := by
  unfold idePollBsy IdleClean
  rw [getD_eq_zero, pollStatus_eq_some]
  simp only [Nat.zero_add, polledIdle_zero, polledIdle_none]

/-! ## One batch -/

/-- What a batch leaves alone. -/
structure Kept (s s' : Driver) : Prop where
  drives : s'.drives = s.drives
  dmaCapable : s'.dmaCapable = s.dmaCapable
  channelLock : s'.channelLock = s.channelLock
  multitaskingReady : s'.multitaskingReady = s.multitaskingReady
  currentTask : s'.currentTask = s.currentTask
  ideWorker : s'.ideWorker = s.ideWorker
  pid0 : s'.pid0 = s.pid0

section
variable {s s' s'' : Driver} {c : Nat} {t : DmaTurn}

theorem Kept.refl (s : Driver) : Kept s s := ⟨rfl, rfl, rfl, rfl, rfl, rfl, rfl⟩

theorem Kept.trans (h : Kept s s') (h' : Kept s' s'') : Kept s s'' :=
  ⟨h'.drives.trans h.drives, h'.dmaCapable.trans h.dmaCapable, h'.channelLock.trans h.channelLock,
    h'.multitaskingReady.trans h.multitaskingReady, h'.currentTask.trans h.currentTask, h'.ideWorker.trans h.ideWorker,
    h'.pid0.trans h.pid0⟩

theorem Kept.useIrq (h : Kept s s') : useIrq s' = useIrq s := by
  unfold Transfers.useIrq
  rw [h.multitaskingReady, h.currentTask, h.ideWorker]

theorem ideIrqHandler_kept (c : Nat) (s : Driver) (i : Irq) : Kept s (ideIrqHandler c s i) := by
  unfold ideIrqHandler
  split
  · exact ⟨rfl, rfl, rfl, rfl, rfl, rfl, rfl⟩
  · exact .refl s

/-- Some interrupts of a channel, one after the other. -/
theorem irqs_spec (c : Nat) (g : List Irq) (s : Driver) :
    Kept s (g.foldl (ideIrqHandler c) s) ∧
      (g.foldl (ideIrqHandler c) s).dmaComplete c = (s.dmaComplete c || g.any fun i => has i.bm bmideStatusIrq) ∧
      (g.foldl (ideIrqHandler c) s).dmaError c =
        (s.dmaError c || g.any fun i => has i.bm bmideStatusIrq && has i.bm bmideStatusErr) := by
  induction g generalizing s with
  | nil => exact ⟨.refl s, by simp, by simp⟩
  | cons i g ih =>
    obtain ⟨hkept, hcomplete, herror⟩ := ih (ideIrqHandler c s i)
    rw [List.foldl_cons]
    refine ⟨(ideIrqHandler_kept c s i).trans hkept, ?_, ?_⟩
    · rw [hcomplete]
      unfold ideIrqHandler
      cases hi : has i.bm bmideStatusIrq <;> simp [hi]
    · rw [herror]
      unfold ideIrqHandler
      cases hi : has i.bm bmideStatusIrq <;> cases he : has i.bm bmideStatusErr <;> simp [hi, he]

theorem awaitIrq_spec (hcomplete : s.dmaComplete c = false) (herror : s.dmaError c = false) (irqs : List (List Irq)) :
    match irqs.find? fun g => g.any fun i => has i.bm bmideStatusIrq with
    | none => awaitIrq c irqs s = none
    | some g => ∃ s', awaitIrq c irqs s = some s' ∧ Kept s s' ∧
        s'.dmaError c = g.any fun i => has i.bm bmideStatusIrq && has i.bm bmideStatusErr := by
  induction irqs generalizing s with
  | nil => rfl
  | cons g gs ih =>
    obtain ⟨hkept, hgc, hge⟩ := irqs_spec c g s
    rw [hcomplete, Bool.false_or] at hgc
    rw [herror, Bool.false_or] at hge
    unfold awaitIrq
    rw [List.find?_cons]
    cases hg : g.any fun i => has i.bm bmideStatusIrq with
    | true =>
      rw [hg] at hgc
      exact ⟨_, if_pos hgc, hkept, hge⟩
    | false =>
      rw [hg] at hgc
      have hnone : (g.any fun i => has i.bm bmideStatusIrq && has i.bm bmideStatusErr) = false := by
        rw [List.any_eq_false] at hg ⊢
        intro i hi h
        exact hg i hi (Bool.and_eq_true _ _ ▸ h).1
      have hrest := ih hgc (hge.trans hnone)
      dsimp only
      rw [hgc, if_neg (by simp)]
      cases hf : gs.find? fun g => g.any fun i => has i.bm bmideStatusIrq with
      | none =>
        rw [hf] at hrest
        exact hrest
      | some g' =>
        rw [hf] at hrest
        obtain ⟨s', hs', hkept', he'⟩ := hrest
        exact ⟨s', hs', hkept.trans hkept', he'⟩

theorem maskIrq_kept (s : Driver) (c : Nat) (masked : Bool) : Kept s (maskIrq s c masked) :=
  ⟨rfl, rfl, rfl, rfl, rfl, rfl, rfl⟩

theorem dmaStart_spec (s : Driver) (c : Nat) :
    Kept s (dmaStart s c) ∧ (dmaStart s c).dmaComplete c = false ∧ (dmaStart s c).dmaError c = false := by
  unfold dmaStart
  dsimp only
  split
  · exact ⟨⟨rfl, rfl, rfl, rfl, rfl, rfl, rfl⟩, update_self .., update_self ..⟩
  · exact ⟨⟨rfl, rfl, rfl, rfl, rfl, rfl, rfl⟩, update_self .., update_self ..⟩

theorem DmaTurn.Clean.ends {irq : Bool} (h : t.Clean irq) : t.Ends irq := by
  intro hirq
  unfold DmaTurn.Clean at h
  rw [if_pos hirq] at h
  obtain ⟨g, hg, _⟩ := h
  rw [hg]
  simp

theorem DmaTurn.Failed.ends {irq : Bool} (h : t.Failed irq) : t.Ends irq := by
  intro hirq
  unfold DmaTurn.Failed at h
  rw [if_pos hirq] at h
  obtain ⟨g, hg, _⟩ := h
  rw [hg]
  simp

/-- What comes of a transfer: a reported error, no end, or success. -/
def Comes {σ : Type} (fails stuck complete : Prop) (J I : σ → Prop) : Option (σ × Int) → Prop
  | none => stuck
  | some (x, r) => r = -1 ∧ fails ∧ J x ∨ r = 0 ∧ complete ∧ I x

theorem Comes.map {σ τ : Type} {fails stuck complete : Prop} {J I : σ → Prop} {J' I' : τ → Prop} {o : Option (σ × Int)}
    (h : Comes fails stuck complete J I o) {f : σ × Int → τ × Int} (hJ : ∀ x, J x → ∃ y, f (x, -1) = (y, -1) ∧ J' y)
    (hI : ∀ x, I x → ∃ y, f (x, 0) = (y, 0) ∧ I' y) : Comes fails stuck complete J' I' (o.map f) := by
  obtain _ | ⟨x, r⟩ := o
  · exact h
  · obtain ⟨rfl, hf, hx⟩ | ⟨rfl, hc, hx⟩ := h
    · obtain ⟨y, hy, hy'⟩ := hJ x hx
      rw [Option.map_some, hy]
      exact Or.inl ⟨rfl, hf, hy'⟩
    · obtain ⟨y, hy, hy'⟩ := hI x hx
      rw [Option.map_some, hy]
      exact Or.inr ⟨rfl, hc, hy'⟩

theorem Comes.imp {σ : Type} {fails stuck complete : Prop} {J I J' I' : σ → Prop} {o : Option (σ × Int)}
    (h : Comes fails stuck complete J I o) (hJ : ∀ x, J x → J' x) (hI : ∀ x, I x → I' x) : Comes fails stuck complete J' I' o := by
  have hmap := h.map (f := id) (fun x hx => ⟨x, rfl, hJ x hx⟩) fun x hx => ⟨x, rfl, hI x hx⟩
  rwa [Option.map_id] at hmap

/-- What comes of a batch: with an error that the bus master has reported, never, or as if it was complete. -/
def DmaTurn.Comes {σ : Type} (t : DmaTurn) (irq : Bool) : (J I : σ → Prop) → Option (σ × Int) → Prop :=
  Transfers.Comes (t.Failed irq) (¬ t.Ends irq) (t.Ends irq ∧ ¬ t.Failed irq)

theorem dmaWait_spec (hcomplete : s.dmaComplete c = false) (herror : s.dmaError c = false) (t : DmaTurn) :
    t.Comes (useIrq s) (Kept s) (Kept s) (dmaWait s c t) := by
  unfold dmaWait DmaTurn.Comes DmaTurn.Failed DmaTurn.Ends
  cases hu : useIrq s with
  | true =>
    have h := awaitIrq_spec hcomplete herror t.irqs
    rw [if_pos rfl, if_pos rfl]
    change match t.completion with
      | none => _
      | some g => _ at h
    cases hg : t.completion with
    | none =>
      rw [hg] at h
      rw [h]
      exact fun hne => hne rfl rfl
    | some g =>
      rw [hg] at h
      obtain ⟨s', hs', hkept, he⟩ := h
      rw [hs', Option.map_some, he]
      cases hany : g.any fun i => has i.bm bmideStatusIrq && has i.bm bmideStatusErr with
      | true =>
        obtain ⟨i, hi, hb⟩ := List.any_eq_true.mp hany
        exact Or.inl ⟨rfl, ⟨g, rfl, i, hi, by simpa using hb⟩, hkept⟩
      | false =>
        refine Or.inr ⟨rfl, ⟨fun _ => by simp, ?_⟩, hkept⟩
        intro ⟨g', hg', i, hi, hb⟩
        obtain rfl := Option.some.inj hg'
        exact List.any_eq_false.mp hany i hi (by simpa using hb)
  | false =>
    rw [if_neg (by simp), if_neg (by simp)]
    have hfail := @pollStatus_eq_some _ polledDma t.polls dmaPolls 0 (-1)
    simp only [Nat.zero_add, polledDma_fail, polledDma_none] at hfail
    have hkept := maskIrq_kept s c false
    have hends : false = true → t.completion ≠ none := fun h => absurd h (by simp)
    cases hp : pollStatus polledDma t.polls dmaPolls 0 with
    | none =>
      rw [hp] at hfail
      exact Or.inr ⟨rfl, ⟨hends, fun h => absurd (hfail.mpr h) (by simp)⟩, hkept⟩
    | some r =>
      rw [hp] at hfail
      by_cases hr : r = -1
      · subst hr
        exact Or.inl ⟨rfl, hfail.mp rfl, hkept⟩
      · refine Or.inr ⟨?_, ⟨hends, fun h => hr (Option.some.inj (hfail.mpr h))⟩, hkept⟩
        obtain ⟨k, _, hk, _⟩ := pollStatus_eq_some.mp hp
        unfold polledDma at hk
        split at hk
        · exact absurd (Option.some.inj hk).symm hr
        split at hk
        · exact (Option.some.inj hk).symm
        · exact absurd hk (by simp)

end

/-! ## The loop over the batches -/

/-- Some batch is reported as failed, and the waits before it end. -/
def Reported (Fails Ends : Nat → Prop) (count done : Nat) : Prop :=
  ∃ e, done ≤ e ∧ e % 8 = 0 ∧ e < count ∧ Fails e ∧ ∀ k, done ≤ k → k % 8 = 0 → k < e → Ends k

/-- The loop waits for ever in some batch. -/
def Stuck (Fails Ends : Nat → Prop) (count done : Nat) : Prop :=
  ∃ e, done ≤ e ∧ e % 8 = 0 ∧ e < count ∧ ¬ Ends e ∧ ∀ k, done ≤ k → k % 8 = 0 → k < e → ¬ Fails k

section
variable {σ : Type} {transfer : σ → Nat → Nat → Option (σ × Int)} {count : Nat} {Fails Ends : Nat → Prop}

/-- From the batch at `done` to the rest of them. -/
theorem Reported.next {done next : Nat} (hnext : ∀ e, done < e → e % 8 = 0 → e < count → next ≤ e)
    (hle : done ≤ next) (hends : Ends done) (h : Reported Fails Ends count next) : Reported Fails Ends count done := by
  obtain ⟨e, hne, he8, hec, hfails, hbefore⟩ := h
  refine ⟨e, Nat.le_trans hle hne, he8, hec, hfails, fun k hk hk8 hke => ?_⟩
  by_cases hkd : k = done
  · exact hkd ▸ hends
  · exact hbefore k (hnext k (by omega) hk8 (by omega)) hk8 hke

theorem Stuck.next {done next : Nat} (hnext : ∀ e, done < e → e % 8 = 0 → e < count → next ≤ e)
    (hle : done ≤ next) (hfails : ¬ Fails done) (h : Stuck Fails Ends count next) : Stuck Fails Ends count done := by
  obtain ⟨e, hne, he8, hec, hends, hbefore⟩ := h
  refine ⟨e, Nat.le_trans hle hne, he8, hec, hends, fun k hk hk8 hke => ?_⟩
  by_cases hkd : k = done
  · exact hkd ▸ hfails
  · exact hbefore k (hnext k (by omega) hk8 (by omega)) hk8 hke

/-- What a loop makes of what comes of each batch. -/
theorem batchLoop_spec (I : σ → Nat → Prop) (J : σ → Prop) (hcount : count < 2 ^ 8)
    (hstep : ∀ s done, I s done → done < count → done % 8 = 0 → ∀ batch, (if 8 < count - done then 8 else count - done) = batch →
      Comes (Fails done) (¬ Ends done) (Ends done ∧ ¬ Fails done) J (I · (done + batch)) (transfer s done batch))
    (n : Nat) {s : σ} {done : Nat} (hn : count ≤ done + n) (hle : done ≤ count) (h8 : done < count → done % 8 = 0)
    (hI : I s done) :
    Comes (Reported Fails Ends count done) (Stuck Fails Ends count done)
      (∀ e, done ≤ e → e % 8 = 0 → e < count → Ends e ∧ ¬ Fails e) J (I · count) (batchLoop transfer count n s done) := by
  induction n generalizing s done with
  | zero =>
    obtain rfl : done = count := Nat.le_antisymm hle hn
    exact Or.inr ⟨rfl, fun e he _ hec => absurd hec (Nat.not_lt_of_le he), hI⟩
  | succ n ih =>
    unfold batchLoop
    by_cases hlt : done < count
    case neg =>
      obtain rfl : done = count := Nat.le_antisymm hle (Nat.le_of_not_lt hlt)
      rw [if_neg hlt]
      exact Or.inr ⟨rfl, fun e he _ hec => absurd hec (Nat.not_lt_of_le he), hI⟩
    rw [if_pos hlt]
    dsimp only
    have h8d := h8 hlt
    have hfirst : ∀ P : Nat → Prop, ∀ k, done ≤ k → k % 8 = 0 → k < done → P k := fun _ k hk _ hke =>
      absurd hke (Nat.not_lt_of_le hk)
    have hcomes := hstep s done hI hlt h8d _ rfl
    generalize hb : (if 8 < count - done then 8 else count - done) = batch at hcomes ⊢
    obtain ⟨hgt, hnle, hn8, hnext⟩ : done < done + batch ∧ done + batch ≤ count ∧ (done + batch < count → (done + batch) % 8 = 0) ∧
        ∀ e, done < e → e % 8 = 0 → e < count → done + batch ≤ e := by
      split at hb
      · refine ⟨by omega, by omega, by omega, by omega⟩
      · refine ⟨by omega, by omega, by omega, by omega⟩
    cases ht : transfer s done batch with
    | none =>
      rw [ht] at hcomes
      exact ⟨done, Nat.le_refl done, h8d, hlt, hcomes, hfirst _⟩
    | some x =>
      rw [ht] at hcomes
      obtain ⟨s', r⟩ := x
      obtain ⟨rfl, hfails, hJ⟩ | ⟨rfl, ⟨hends, hfails⟩, hI'⟩ := hcomes
      · exact Or.inl ⟨rfl, ⟨done, Nat.le_refl done, h8d, hlt, hfails, hfirst _⟩, hJ⟩
      · have hne : ¬ (0 : Int) ≠ 0 := fun h => h rfl
        dsimp only
        rw [if_neg hne, Nat.mod_eq_of_lt (Nat.lt_of_le_of_lt hnle hcount)]
        have hrest := ih (by omega) hnle hn8 hI'
        cases hl : batchLoop transfer count n s' (done + batch) with
        | none =>
          rw [hl] at hrest
          exact hrest.next hnext (Nat.le_of_lt hgt) hfails
        | some y =>
          rw [hl] at hrest
          obtain ⟨hy, hr, hJ⟩ | ⟨hy, hr, hI⟩ := hrest
          · exact Or.inl ⟨hy, hr.next hnext (Nat.le_of_lt hgt) hends, hJ⟩
          · refine Or.inr ⟨hy, fun e he he8 hec => ?_, hI⟩
            by_cases hed : e = done
            · exact hed ▸ ⟨hends, hfails⟩
            · exact hr e (hnext e (by omega) he8 hec) he8 hec

end

end Serotonin.Transfers
