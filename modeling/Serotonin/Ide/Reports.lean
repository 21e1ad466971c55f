import Serotonin.Ide.Transfers

/-! What `ide_read_sectors` and `ide_write_sectors` report: success for a complete transfer, by DMA
only if the bus master itself has the error of one that is not. The channel is free after each
call that returns. -/

namespace Serotonin.Transfers

open Function
open ByteMem (u32 u32_of_lt)

/-! ## The calls -/

/-- What is presented in the batch after `done` sectors of a call. -/
def dmaTurn (dev : Controller) (command : Nat) (drv lba count done : Nat) : DmaTurn :=
  dev.dma done ⟨command, drv, lbaRegs (u32 (lba + done)), if 8 < count - done then 8 else count - done⟩

/-- Every batch of a call completes without an error. -/
def BatchesClean (s : Driver) (dev : Controller) (command : Nat) (drv lba count : Nat) : Prop :=
  ∀ e, e % 8 = 0 → e < count → (dmaTurn dev command drv lba count e).Clean (useIrq s)

/-- The bus master reports an error in some batch, and the waits before it end. -/
def BatchReported (s : Driver) (dev : Controller) (command : Nat) (drv lba count : Nat) : Prop :=
  Reported (fun e => (dmaTurn dev command drv lba count e).Failed (useIrq s))
    (fun e => (dmaTurn dev command drv lba count e).Ends (useIrq s)) count 0

def pioReadTurn (dev : Controller) (drv lba count : Nat) : PioTurn :=
  dev.pio ⟨ataCmdReadSectors, drv, lbaRegs lba, count⟩

def pioWriteTurn (dev : Controller) (drv lba count : Nat) : PioTurn :=
  dev.pio ⟨ataCmdWriteSectors, drv, lbaRegs lba, count⟩

/-- The whole transfer of `ide_read_sectors` completes without an error. -/
def ReadClean (s : Driver) (dev : Controller) (drive lba count : Nat) : Prop :=
  let d := s.drives drive
  if s.dmaCapable d.channel then BatchesClean s dev ataCmdReadDma d.drive lba count
  else ∀ k < count, ReadyClean ((pioReadTurn dev d.drive lba count).polls k)

def WriteClean (s : Driver) (dev : Controller) (drive lba count : Nat) : Prop :=
  let d := s.drives drive
  if s.dmaCapable d.channel then BatchesClean s dev ataCmdWriteDma d.drive lba count
  else
    (∀ k < count, ReadyClean ((pioWriteTurn dev d.drive lba count).polls k)) ∧
      IdleClean (pioWriteTurn dev d.drive lba count).last

/-- The sectors of the drives of a channel, by the drive and the address of 28 bits. A transfer that completes without
an error has the sectors that the registers name. -/
structure Faithful (dev : Controller) (disk : Nat → Nat → Buffer) : Prop where
  dma : ∀ no cmd irq, cmd.command = ataCmdReadDma → (dev.dma no cmd).Clean irq →
    ∀ i < cmd.seccount * 512, (dev.dma no cmd).data i = disk cmd.drv (cmd.lba + i / 512) (i % 512)
  pio : ∀ cmd, cmd.command = ataCmdReadSectors → ∀ k < cmd.seccount,
    (∀ j ≤ k, ReadyClean ((dev.pio cmd).polls j)) → ∀ i < 512, (dev.pio cmd).data k i = disk cmd.drv (cmd.lba + k) i

/-- The buffer has the sectors, all of them sectors that a drive can have, and is otherwise as before. -/
def Filled (sectors : Nat → Buffer) (lba count : Nat) (buf buf' : Buffer) : Prop :=
  (∀ k < count, lba + k < 2 ^ 28) ∧
    ∀ i, buf' i = if i < count * 512 then sectors (lba + i / 512) (i % 512) else buf i

/-- The call returns, with success only if the transfer is complete, and the channel is free again. -/
def ReadTruthful (s : Driver) (dev : Controller) (disk : Nat → Nat → Buffer) (drive lba count : Nat) (buf : Buffer) :
    Prop :=
  ∃ s' buf' r, ideReadSectors s dev drive lba count buf = some ((s', buf'), r) ∧
    (r = 0 → ReadClean s dev drive lba count ∧ Filled (disk (s.drives drive).drive) lba count buf buf') ∧
      s'.channelLock = s.channelLock

def WriteTruthful (s : Driver) (dev : Controller) (drive lba count : Nat) (buf : Buffer) : Prop :=
  ∃ s' r, ideWriteSectors s dev drive lba count buf = some (s', r) ∧ (r = 0 → WriteClean s dev drive lba count) ∧
    s'.channelLock = s.channelLock

theorem lbaRegs_eq (lba : Nat) : lbaRegs lba = lba % 2 ^ 28 := by
  have h8 : ∀ n, n &&& 0xFF = n % 2 ^ 8 := fun n => Nat.and_two_pow_sub_one_eq_mod n 8
  have h4 : ∀ n, n &&& 0x0F = n % 2 ^ 4 := fun n => Nat.and_two_pow_sub_one_eq_mod n 4
  unfold lbaRegs
  rw [h8, h8, h8, h4, Nat.shiftRight_eq_div_pow, Nat.shiftRight_eq_div_pow, Nat.shiftRight_eq_div_pow]
  omega

section
variable {s : Driver} {dev : Controller} {disk : Nat → Nat → Buffer} {drive drv lba count : Nat} {buf : Buffer}

theorem acquire_kept (s : Driver) (c : Nat) :
    (channelAcquire s c).dmaCapable = s.dmaCapable ∧ useIrq (channelAcquire s c) = useIrq s := by
  unfold channelAcquire
  split <;> exact ⟨rfl, rfl⟩

theorem charge_lock (s : Driver) (r : Int) (count : Nat) : (charge s r count).channelLock = s.channelLock := by
  unfold charge
  split <;> rfl

theorem charge_ready (s : Driver) (r : Int) (count : Nat) :
    (charge s r count).multitaskingReady = s.multitaskingReady := by
  unfold charge
  split <;> rfl

/-- The token goes back. -/
theorem release_lock {s' : Driver} {c : Nat} (hlock : s'.channelLock = (channelAcquire s c).channelLock)
    (hready : s'.multitaskingReady = (channelAcquire s c).multitaskingReady) :
    (channelRelease s' c).channelLock = s.channelLock := by
  unfold channelAcquire at hlock hready
  unfold channelRelease
  cases hm : s.multitaskingReady with
  | false =>
    rw [hm, if_neg (by simp)] at hlock hready
    rw [hready, hm, if_neg (by simp)]
    exact hlock
  | true =>
    rw [hm, if_pos rfl] at hlock hready
    have hr : s'.multitaskingReady = true := hready
    rw [if_pos hr]
    dsimp only
    rw [hlock]
    dsimp only
    rw [update_self, Nat.add_sub_cancel, update_idem, update_eq_self]

/-- One batch of a read. -/
theorem ideDmaReadSectors_spec {c no n : Nat} (hn : n ≤ 8) (s : Driver) (buf : Buffer) {t : DmaTurn}
    (ht : dev.dma no ⟨ataCmdReadDma, drv, lbaRegs lba, n⟩ = t) :
    t.Comes (useIrq s) (fun x => Kept s x.1) (fun x => Kept s x.1 ∧ x.2 = copyTo buf (no * 512) t.data (n * 512))
      (ideDmaReadSectors s dev c drv lba n no buf) := by
  obtain ⟨hstart, hcomplete, herror⟩ := dmaStart_spec s c
  have hwait := dmaWait_spec hcomplete herror t
  rw [hstart.useIrq] at hwait
  have hkept : ∀ s', Kept (dmaStart s c) s' → Kept s { s' with dmaBuf := update s'.dmaBuf c t.data } := fun _ h =>
    hstart.trans (h.trans ⟨rfl, rfl, rfl, rfl, rfl, rfl, rfl⟩)
  unfold ideDmaReadSectors
  dsimp only
  rw [ht, Nat.mod_eq_of_lt (by omega : n * 512 < 2 ^ 16)]
  refine hwait.map (fun s' h => ⟨_, rfl, hkept s' h⟩) fun s' h => ⟨_, rfl, hkept s' h, ?_⟩
  dsimp only
  rw [update_self]

theorem ideDmaWriteSectors_spec {c no n : Nat} (s : Driver) (buf : Buffer) :
    (dev.dma no ⟨ataCmdWriteDma, drv, lbaRegs lba, n⟩).Comes (useIrq s) (Kept s) (Kept s)
      (ideDmaWriteSectors s dev c drv lba n no buf) := by
  obtain ⟨hstart, hcomplete, herror⟩ := dmaStart_spec s c
  unfold ideDmaWriteSectors
  dsimp only
  generalize hs₁ : ({ dmaStart s c with dmaBuf := update (dmaStart s c).dmaBuf c _ } : Driver) = s₁
  have hkept₁ : Kept s s₁ := hstart.trans (hs₁ ▸ ⟨rfl, rfl, rfl, rfl, rfl, rfl, rfl⟩)
  have hwait := dmaWait_spec (s := s₁) (c := c) (hs₁ ▸ hcomplete) (hs₁ ▸ herror)
    (dev.dma no ⟨ataCmdWriteDma, drv, lbaRegs lba, n⟩)
  rw [hkept₁.useIrq] at hwait
  exact hwait.map (fun s' h => ⟨_, rfl, hkept₁.trans h⟩) fun s' h => ⟨_, rfl, hkept₁.trans h⟩

/-- A loop cannot both come to a reported batch and wait for ever. -/
theorem Reported.not_stuck {Fails Ends : Nat → Prop} {done : Nat} (hfe : ∀ e, Fails e → Ends e)
    (h : Reported Fails Ends count done) : ¬ Stuck Fails Ends count done := by
  intro ⟨e', he', h8', hc', hends', hbefore'⟩
  obtain ⟨e, he, h8, hc, hfails, hbefore⟩ := h
  rcases Nat.lt_trichotomy e e' with hlt | heq | hlt
  · exact hbefore' e he h8 hlt hfails
  · exact hends' (heq ▸ hfe e hfails)
  · exact hends' (hbefore e' he' h8' hlt)

/-- What comes of the batches of a call. -/
def BatchesCome {σ : Type} (s : Driver) (dev : Controller) (command drv lba count : Nat) : (J I : σ → Prop) →
    Option (σ × Int) → Prop :=
  Comes (BatchReported s dev command drv lba count)
    (Stuck (fun e => (dmaTurn dev command drv lba count e).Failed (useIrq s))
      (fun e => (dmaTurn dev command drv lba count e).Ends (useIrq s)) count 0)
    (∀ e, 0 ≤ e → e % 8 = 0 → e < count → (dmaTurn dev command drv lba count e).Ends (useIrq s) ∧
      ¬ (dmaTurn dev command drv lba count e).Failed (useIrq s))

/-- The bytes of the batches in the order of the sectors. -/
def InOrder (dev : Controller) (drv lba count : Nat) (buf : Buffer) (done : Nat) (buf' : Buffer) : Prop :=
  ∀ i, buf' i = if i < done * 512 then (dmaTurn dev ataCmdReadDma drv lba count (i / 4096 * 8)).data (i % 4096) else buf i

theorem readBatches_spec {c : Nat} (hcount : count < 2 ^ 8) (s : Driver) (buf : Buffer) :
    BatchesCome s dev ataCmdReadDma drv lba count (fun x => Kept s x.1)
      (fun x => Kept s x.1 ∧ InOrder dev drv lba count buf count x.2)
      (batchLoop (fun (s, buf) done batch => ideDmaReadSectors s dev c drv (u32 (lba + done)) batch done buf)
        count count (s, buf) 0) := by
  refine batchLoop_spec (I := fun (x : Driver × Buffer) done => Kept s x.1 ∧ InOrder dev drv lba count buf done x.2)
    (J := fun (x : Driver × Buffer) => Kept s x.1) hcount ?_ count (by omega) (Nat.zero_le count) (fun _ => rfl)
    ⟨.refl s, fun i => by rw [if_neg (by omega)]⟩
  intro ⟨s₁, buf₁⟩ done ⟨hkept, hbuf⟩ hlt h8 batch hbatch
  have hle : batch ≤ 8 := by
    split at hbatch <;> omega
  have ht : dev.dma done ⟨ataCmdReadDma, drv, lbaRegs (u32 (lba + done)), batch⟩ = dmaTurn dev ataCmdReadDma drv lba count done := by
    rw [dmaTurn, hbatch]
  have hspec := ideDmaReadSectors_spec (c := c) hle s₁ buf₁ ht
  rw [hkept.useIrq] at hspec
  refine hspec.imp (fun x h => hkept.trans h) fun x ⟨hk, hx⟩ => ⟨hkept.trans hk, fun i => ?_⟩
  have hbuf₁ : buf₁ i = if i < 512 * done then (dmaTurn dev ataCmdReadDma drv lba count (i / 4096 * 8)).data (i % 4096)
      else buf i := Nat.mul_comm 512 done ▸ hbuf i
  rw [hx]
  unfold copyTo
  simp only [Nat.mul_comm _ 512]
  by_cases hin : 512 * done ≤ i ∧ i < 512 * done + 512 * batch
  · have hno : i / 4096 * 8 = done := by omega
    have hoff : i % 4096 = i - 512 * done := by omega
    rw [if_pos hin, if_pos (by omega), hno, hoff]
  · rw [if_neg hin, hbuf₁]
    by_cases hbelow : i < 512 * done
    · rw [if_pos hbelow, if_pos (by omega)]
    · rw [if_neg hbelow, if_neg (by omega)]

theorem writeBatches_spec {c : Nat} (hcount : count < 2 ^ 8) (s : Driver) (buf : Buffer) :
    BatchesCome s dev ataCmdWriteDma drv lba count (Kept s) (Kept s)
      (batchLoop (fun s done batch => ideDmaWriteSectors s dev c drv (u32 (lba + done)) batch done buf) count count s 0) := by
  refine batchLoop_spec (I := fun x _ => Kept s x) (J := Kept s) hcount ?_ count (by omega) (Nat.zero_le count)
    (fun _ => rfl) (.refl s)
  intro s₁ done hkept hlt h8 batch hbatch
  have hspec := @ideDmaWriteSectors_spec dev drv (u32 (lba + done)) c done batch s₁ buf
  rw [hkept.useIrq, ← hbatch] at hspec
  exact hbatch ▸ hspec.imp (fun x h => hkept.trans h) fun x h => hkept.trans h

theorem pioReadLoop_zero (t : PioTurn) (n k : Nat) (buf : Buffer) :
    (pioReadLoop t n k buf).2 = 0 ↔ ∀ j, k ≤ j → j < k + n → ReadyClean (t.polls j) := by
  induction n generalizing k buf with
  | zero => exact ⟨fun _ j hk hj => absurd hj (Nat.not_lt_of_le hk), fun _ => rfl⟩
  | succ n ih =>
    unfold pioReadLoop
    by_cases hp : idePoll (t.polls k) = 0
    · rw [if_neg (fun h => h hp), ih]
      constructor
      · intro h j hj hjn
        by_cases hjk : j = k
        · exact hjk ▸ (idePoll_zero _).mp hp
        · exact h j (by omega) (by omega)
      · intro h j hj hjn
        exact h j (by omega) (by omega)
    · rw [if_pos hp]
      refine ⟨fun h => absurd h (by simp), fun h => absurd ((idePoll_zero _).mpr (h k (Nat.le_refl k) (by omega))) hp⟩

/-- The sectors that have come, one after the other. -/
theorem pioReadLoop_data (t : PioTurn) (n k : Nat) (buf : Buffer) (h : (pioReadLoop t n k buf).2 = 0) (i : Nat) :
    (pioReadLoop t n k buf).1 i = if k * 512 ≤ i ∧ i < (k + n) * 512 then t.data (i / 512) (i % 512) else buf i := by
  induction n generalizing k buf with
  | zero =>
    rw [if_neg (by omega)]
    rfl
  | succ n ih =>
    unfold pioReadLoop at h ⊢
    by_cases hp : idePoll (t.polls k) = 0
    · rw [if_neg (fun h => h hp)] at h ⊢
      rw [ih _ _ h]
      unfold copyTo
      simp only [Nat.mul_comm _ 512]
      by_cases hlater : 512 * (k + 1) ≤ i ∧ i < 512 * (k + 1 + n)
      · rw [if_pos hlater, if_pos (by omega)]
      rw [if_neg hlater]
      by_cases hhere : 512 * k ≤ i ∧ i < 512 * k + 512
      · have hsector : i / 512 = k := by omega
        have hoff : i % 512 = i - 512 * k := by omega
        rw [if_pos hhere, if_pos (by omega), hsector, hoff]
      · rw [if_neg hhere, if_neg (by omega)]
    · rw [if_pos hp] at h
      exact absurd h (by simp)

theorem pioWriteLoop_zero (t : PioTurn) (n k : Nat) :
    pioWriteLoop t n k = 0 ↔ (∀ j, k ≤ j → j < k + n → ReadyClean (t.polls j)) ∧ IdleClean t.last := by
  induction n generalizing k with
  | zero =>
    unfold pioWriteLoop
    rw [← idePollBsy_zero]
    by_cases hp : idePollBsy t.last = 0
    · rw [if_neg (fun h => h hp)]
      exact ⟨fun _ => ⟨fun j hk hj => absurd hj (Nat.not_lt_of_le hk), hp⟩, fun _ => rfl⟩
    · rw [if_pos hp]
      exact ⟨fun h => absurd h (by decide), fun h => absurd h.2 hp⟩
  | succ n ih =>
    unfold pioWriteLoop
    by_cases hp : idePoll (t.polls k) = 0
    · rw [if_neg (fun h => h hp), ih]
      refine and_congr_left fun _ => ⟨fun h j hj hjn => ?_, fun h j hj hjn => h j (by omega) (by omega)⟩
      by_cases hjk : j = k
      · exact hjk ▸ (idePoll_zero _).mp hp
      · exact h j (by omega) (by omega)
    · rw [if_pos hp]
      refine ⟨fun h => absurd h (by decide), fun h => ?_⟩
      exact absurd ((idePoll_zero _).mpr (h.1 k (Nat.le_refl k) (by omega))) hp

end

/-! ## What the calls report -/

/-- By DMA, success is only reported for a complete transfer if the bus master has an error for one that is not. -/
def ReadHolds (s : Driver) (dev : Controller) (drive lba count : Nat) : Prop :=
  let d := s.drives drive
  refused s drive count = true ∨
    if s.dmaCapable d.channel then
      BatchReported s dev ataCmdReadDma d.drive lba count ∨
        BatchesClean s dev ataCmdReadDma d.drive lba count ∧ lba + count ≤ 2 ^ 28
    else (∀ k < count, ReadyClean ((pioReadTurn dev d.drive lba count).polls k)) → lba + count ≤ 2 ^ 28

def WriteHolds (s : Driver) (dev : Controller) (drive lba count : Nat) : Prop :=
  let d := s.drives drive
  refused s drive count = true ∨
    (s.dmaCapable d.channel = true →
      BatchReported s dev ataCmdWriteDma d.drive lba count ∨ BatchesClean s dev ataCmdWriteDma d.drive lba count)

section
variable {s : Driver} {dev : Controller} {disk : Nat → Nat → Buffer} {drive drv lba count : Nat} {buf : Buffer}

theorem BatchesClean.not_stuck {command : Nat} (h : BatchesClean s dev command drv lba count) :
    ¬ Stuck (fun e => (dmaTurn dev command drv lba count e).Failed (useIrq s))
      (fun e => (dmaTurn dev command drv lba count e).Ends (useIrq s)) count 0 := by
  intro ⟨e, _, h8, hc, he, _⟩
  exact he (h e h8 hc).ends

theorem filled_lba {sectors : Nat → Buffer} {buf' : Buffer} (hcount : count ≠ 0)
    (h : Filled sectors lba count buf buf') :
    lba + count ≤ 2 ^ 28 := by
  have hlast := h.1 (count - 1) (by omega)
  omega

theorem not_refused_count (h : refused s drive count = false) : count ≠ 0 := by
  intro hc
  unfold refused at h
  simp [hc] at h

/-- The sectors of the batches. -/
theorem filled_dma (hf : Faithful dev disk) (hclean : BatchesClean s dev ataCmdReadDma drv lba count)
    (hlba : lba + count ≤ 2 ^ 28) {buf' : Buffer}
    (hbuf : ∀ i, buf' i = if i < count * 512 then (dmaTurn dev ataCmdReadDma drv lba count (i / 4096 * 8)).data (i % 4096)
      else buf i) : Filled (disk drv) lba count buf buf' := by
  refine ⟨fun k hk => by omega, fun i => ?_⟩
  rw [hbuf]
  by_cases hi : i < count * 512
  case neg => rw [if_neg hi, if_neg hi]
  rw [if_pos hi, if_pos hi]
  have hlt : i / 4096 * 8 < count := by omega
  have hregs : lbaRegs (u32 (lba + i / 4096 * 8)) = lba + i / 4096 * 8 := by
    rw [u32_of_lt (by omega), lbaRegs_eq, Nat.mod_eq_of_lt (by omega)]
  have hin : i % 4096 < (if 8 < count - i / 4096 * 8 then 8 else count - i / 4096 * 8) * 512 := by
    split <;> omega
  have hdata := hf.dma (i / 4096 * 8) ⟨ataCmdReadDma, drv, lbaRegs (u32 (lba + i / 4096 * 8)),
    if 8 < count - i / 4096 * 8 then 8 else count - i / 4096 * 8⟩ (useIrq s) rfl (hclean _ (by omega) hlt) (i % 4096) hin
  have hsector : lba + i / 4096 * 8 + i % 4096 / 512 = lba + i / 512 := by omega
  have hbyte : i % 4096 % 512 = i % 512 := by omega
  unfold dmaTurn
  rw [hdata]
  dsimp only
  rw [hregs, hsector, hbyte]

theorem filled_pio (hf : Faithful dev disk)
    (hclean : ∀ k < count, ReadyClean ((pioReadTurn dev drv lba count).polls k)) (hlba : lba + count ≤ 2 ^ 28) :
    Filled (disk drv) lba count buf (pioReadLoop (pioReadTurn dev drv lba count) count 0 buf).1 := by
  refine ⟨fun k hk => by omega, fun i => ?_⟩
  have hzero := (pioReadLoop_zero (pioReadTurn dev drv lba count) count 0 buf).mpr fun j _ hj => hclean j (by omega)
  rw [pioReadLoop_data _ _ _ _ hzero, Nat.zero_mul, Nat.zero_add]
  by_cases hi : i < count * 512
  case neg => rw [if_neg hi, if_neg (fun h => hi h.2)]
  rw [if_pos hi, if_pos ⟨Nat.zero_le i, hi⟩]
  have hlt : i / 512 < count := by omega
  by_cases hcount : count = 0
  · exact absurd hlt (by omega)
  have hregs : lbaRegs lba = lba := by
    rw [lbaRegs_eq, Nat.mod_eq_of_lt (by omega)]
  have hdata := hf.pio ⟨ataCmdReadSectors, drv, lbaRegs lba, count⟩ rfl (i / 512) hlt (fun j hj => hclean j (by omega))
    (i % 512) (Nat.mod_lt i (by simp))
  unfold pioReadTurn
  rw [hdata]
  dsimp only
  rw [hregs]

theorem ideReadSectors_iff (hf : Faithful dev disk) (hcount : count < 2 ^ 8) :
    ReadTruthful s dev disk drive lba count buf ↔ ReadHolds s dev drive lba count := by
  unfold ReadTruthful ReadHolds
  dsimp only
  cases hr : refused s drive count with
  | true =>
    refine ⟨fun _ => Or.inl rfl, fun _ => ⟨s, buf, -1, ?_, fun h => absurd h (by decide), rfl⟩⟩
    unfold ideReadSectors
    rw [if_pos hr]
  | false =>
    have hpos := not_refused_count hr
    have hdma := (acquire_kept s (s.drives drive).channel).1
    have hirq := (acquire_kept s (s.drives drive).channel).2
    unfold ideReadSectors ReadClean
    rw [hr, if_neg (by simp)]
    dsimp only
    rw [hdma]
    simp only [Bool.false_eq_true, false_or]
    cases hcap : s.dmaCapable (s.drives drive).channel with
    | true =>
      simp only [if_true]
      have hspec := @readBatches_spec dev (s.drives drive).drive lba _ (s.drives drive).channel hcount
        (channelAcquire s (s.drives drive).channel) buf
      unfold BatchesCome BatchReported at hspec
      rw [hirq] at hspec
      have hlock : ∀ {s' : Driver} (r : Int), Kept (channelAcquire s (s.drives drive).channel) s' →
          (charge (channelRelease s' (s.drives drive).channel) r count).channelLock = s.channelLock := by
        intro s' r hk
        rw [charge_lock]
        exact release_lock hk.channelLock hk.multitaskingReady
      generalize batchLoop _ count count _ 0 = o at hspec ⊢
      obtain _ | ⟨⟨s', buf'⟩, _⟩ := o
      · constructor
        · intro ⟨_, _, _, hnone, _⟩
          exact absurd hnone (by simp)
        · rintro (hrep | ⟨hclean, _⟩)
          · exact absurd hspec (Reported.not_stuck (fun _ => DmaTurn.Failed.ends) hrep)
          · exact absurd hspec hclean.not_stuck
      obtain ⟨rfl, hrep, hk⟩ | ⟨rfl, hall, hk, hbuf⟩ := hspec
      · exact ⟨fun _ => Or.inl hrep, fun _ => ⟨_, buf', -1, rfl, fun h => absurd h (by decide), hlock _ hk⟩⟩
      · constructor
        · intro ⟨s'', buf'', r, hret, hzero, _⟩
          rw [Option.map_some] at hret
          obtain ⟨⟨rfl, rfl⟩, rfl⟩ := Prod.mk.inj (Option.some.inj hret) |>.imp_left Prod.mk.inj
          obtain ⟨hclean, hfilled⟩ := hzero rfl
          exact Or.inr ⟨hclean, filled_lba hpos hfilled⟩
        · rintro (⟨e, he, h8, hc, hfail, _⟩ | ⟨hclean, hlba⟩)
          · exact absurd hfail (hall e he h8 hc).2
          · exact ⟨_, buf', 0, rfl, fun _ => ⟨hclean, filled_dma hf hclean hlba hbuf⟩, hlock _ hk⟩
    | false =>
      simp only [Bool.false_eq_true, if_false]
      have hlock : ∀ r : Int, (charge (channelRelease (channelAcquire s (s.drives drive).channel) (s.drives drive).channel)
          r count).channelLock = s.channelLock := by
        intro r
        rw [charge_lock]
        exact release_lock rfl rfl
      have hzero := pioReadLoop_zero (pioReadTurn dev (s.drives drive).drive lba count) count 0 buf
      simp only [Nat.zero_le, Nat.zero_add, forall_true_left] at hzero
      constructor
      · intro ⟨s', buf', r, hret, hok, _⟩ hclean
        rw [Option.map_some] at hret
        obtain ⟨⟨rfl, rfl⟩, rfl⟩ := Prod.mk.inj (Option.some.inj hret) |>.imp_left Prod.mk.inj
        exact filled_lba hpos (hok (hzero.mpr hclean)).2
      · intro hlba
        refine ⟨_, _, _, rfl, fun h => ?_, hlock _⟩
        have hclean := hzero.mp h
        exact ⟨hclean, filled_pio hf hclean (hlba hclean)⟩

theorem ideWriteSectors_iff (hcount : count < 2 ^ 8) :
    WriteTruthful s dev drive lba count buf ↔ WriteHolds s dev drive lba count := by
  unfold WriteTruthful WriteHolds
  dsimp only
  cases hr : refused s drive count with
  | true =>
    refine ⟨fun _ => Or.inl rfl, fun _ => ⟨s, -1, ?_, fun h => absurd h (by decide), rfl⟩⟩
    unfold ideWriteSectors
    rw [if_pos hr]
  | false =>
    have hdma := (acquire_kept s (s.drives drive).channel).1
    have hirq := (acquire_kept s (s.drives drive).channel).2
    unfold ideWriteSectors WriteClean
    rw [hr, if_neg (by simp)]
    dsimp only
    rw [hdma]
    simp only [Bool.false_eq_true, false_or]
    have hlock : ∀ {s' : Driver} (r : Int), Kept (channelAcquire s (s.drives drive).channel) s' →
        (channelRelease (charge s' r count) (s.drives drive).channel).channelLock = s.channelLock := by
      intro s' r hk
      exact release_lock ((charge_lock s' r count).trans hk.channelLock)
        ((charge_ready s' r count).trans hk.multitaskingReady)
    cases hcap : s.dmaCapable (s.drives drive).channel with
    | true =>
      simp only [if_true, forall_true_left]
      have hspec := @writeBatches_spec dev (s.drives drive).drive lba _ (s.drives drive).channel hcount
        (channelAcquire s (s.drives drive).channel) buf
      unfold BatchesCome BatchReported at hspec
      rw [hirq] at hspec
      generalize batchLoop _ count count _ 0 = o at hspec ⊢
      obtain _ | ⟨s', _⟩ := o
      · constructor
        · intro ⟨_, _, hnone, _⟩
          exact absurd hnone (by simp)
        · rintro (hrep | hclean)
          · exact absurd hspec (Reported.not_stuck (fun _ => DmaTurn.Failed.ends) hrep)
          · exact absurd hspec hclean.not_stuck
      obtain ⟨rfl, hrep, hk⟩ | ⟨rfl, hall, hk⟩ := hspec
      · exact ⟨fun _ => Or.inl hrep, fun _ => ⟨_, -1, rfl, fun h => absurd h (by decide), hlock _ hk⟩⟩
      · constructor
        · intro ⟨s'', r, hret, hzero, _⟩
          rw [Option.map_some] at hret
          obtain ⟨rfl, rfl⟩ := Prod.mk.inj (Option.some.inj hret)
          exact Or.inr (hzero rfl)
        · rintro (⟨e, he, h8, hc, hfail, _⟩ | hclean)
          · exact absurd hfail (hall e he h8 hc).2
          · exact ⟨_, 0, rfl, fun _ => hclean, hlock _ hk⟩
    | false =>
      simp only [Bool.false_eq_true, if_false, false_implies, iff_true]
      have hzero := pioWriteLoop_zero (pioWriteTurn dev (s.drives drive).drive lba count) count 0
      simp only [Nat.zero_le, Nat.zero_add, forall_true_left] at hzero
      exact ⟨_, _, rfl, fun h => hzero.mp h, hlock _ (.refl _)⟩

/-- When the two calls tell the truth. -/
theorem ideSectors_truthful (hf : Faithful dev disk) (hcount : count < 2 ^ 8) :
    (ReadTruthful s dev disk drive lba count buf ↔ ReadHolds s dev drive lba count) ∧
      (WriteTruthful s dev drive lba count buf ↔ WriteHolds s dev drive lba count) :=
  ⟨ideReadSectors_iff hf hcount, ideWriteSectors_iff hcount⟩

end

/-- A driver with one drive, before the worker runs. -/
def oneDrive : Driver where
  drives n := ⟨n == 0, 0, 0⟩
  dmaCapable _ := true
  dmaComplete _ := false
  dmaError _ := false
  dmaBuf _ _ := 0
  irqMasked _ := false
  channelLock _ := 0
  multitaskingReady := false
  currentTask := none
  ideWorker := none
  pid0 := none

/-- A controller that has each transfer complete at the first poll. -/
def promptController (disk : Nat → Nat → Buffer) : Controller where
  dma _ cmd := ⟨fun _ => 0x04, 0x50, [], fun i => disk cmd.drv (cmd.lba + i / 512) (i % 512)⟩
  pio cmd := ⟨fun _ _ => 0x58, fun _ => 0x50, fun k i => disk cmd.drv (cmd.lba + k) i⟩

/-- One that never presents anything. -/
def silentController : Controller where
  dma _ _ := ⟨fun _ => 0, 0, [], fun _ => 0⟩
  pio _ := ⟨fun _ _ => 0, fun _ => 0, fun _ _ => 0⟩

theorem ideSectors_truthful_prompt :
    ReadTruthful oneDrive (promptController fun _ lba i => UInt8.ofNat (lba + i)) (fun _ lba i => UInt8.ofNat (lba + i)) 0
      2048 20 (fun _ => 0) := by
  have hf : Faithful (promptController fun _ lba i => UInt8.ofNat (lba + i)) (fun _ lba i => UInt8.ofNat (lba + i)) :=
    ⟨fun _ _ _ _ _ _ _ => rfl, fun _ _ _ _ _ _ _ => rfl⟩
  refine (ideSectors_truthful hf (by decide)).1.mpr (Or.inr (Or.inr ⟨fun e _ _ => ?_, by decide⟩))
  have hready : driveError 0x50 = false := by decide
  have hirq : has 0x04 bmideStatusIrq = true := by decide
  have herr : has 0x04 bmideStatusErr = false := by decide
  exact ⟨0, by decide, ⟨hirq, herr, hready⟩, fun j hj => absurd hj (Nat.not_lt_zero j)⟩

/-- The polls run out, and the call reports success. -/
theorem ideSectors_silent :
    ¬ ∀ (s : Driver) (dev : Controller) (disk : Nat → Nat → Buffer) (drive lba count : Nat) (buf : Buffer),
      Faithful dev disk → count < 2 ^ 8 →
      ReadTruthful s dev disk drive lba count buf ∧ WriteTruthful s dev drive lba count buf := by
  intro h
  have hirq : has 0 bmideStatusIrq ≠ true := by decide
  have herr : has 0 bmideStatusErr ≠ true := by decide
  have hdrq : has 0 ataStatusDrq ≠ true := by decide
  have hnotClean : ∀ no cmd irq, ¬ (silentController.dma no cmd).Clean irq := by
    intro no cmd irq hclean
    cases irq with
    | true =>
      obtain ⟨g, hg, _⟩ := hclean
      exact absurd hg (by simp [DmaTurn.completion, silentController])
    | false =>
      obtain ⟨k, _, ⟨hk, _, _⟩, _⟩ := hclean
      exact hirq hk
  have hf : Faithful silentController fun _ _ _ => 0 := by
    refine ⟨fun no cmd irq _ hclean => absurd hclean (hnotClean no cmd irq), fun cmd _ k _ hready => ?_⟩
    obtain ⟨i, _, ⟨_, _, hi⟩, _⟩ := hready k (Nat.le_refl k)
    exact absurd hi hdrq
  have hread := (ideReadSectors_iff hf (by decide)).mp (h oneDrive silentController _ 0 0 1 (fun _ => 0) hf (by decide)).1
  obtain hrefused | ⟨e, _, _, _, hfail, _⟩ | ⟨hclean, _⟩ := hread
  · exact absurd hrefused (by decide)
  · obtain ⟨k, _, hk, _⟩ := hfail
    exact herr hk
  · exact hnotClean _ _ _ (hclean 0 rfl (by decide))

end Serotonin.Transfers
