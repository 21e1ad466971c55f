import Serotonin.Syscall.Handlers

/-! Which calls keep to user memory. The copies check every page, so a handler built from
them is contained whatever its arguments are; a direct store is contained exactly where the
task has mapped what it points to. -/

namespace Serotonin.Syscall

open List
open ByteMem (Mem u32)

/-- At the end of a call: every byte was stored in a user page, all other memory is as it
was, and the call fails if a copy was refused. -/
structure Clean (mem : Mem) (errno : Int) (s : Machine) : Prop where
  user : ∀ st ∈ s.stores, st.2.user = true
  kernel : ∀ x, (∀ st ∈ s.stores, st.2.user = true → ¬st.2.Covers x) → s.mem x = mem x
  fails : s.refused = true → errno < 0

def Contained (mem : Mem) (r : Option (Int × Machine)) : Prop := ∃ errno s, r = some (errno, s) ∧ Clean mem errno s

def start (mem : Mem) : Machine := { mem := mem, stores := [], refused := false }

/-! ## Steps and calls -/

variable {α : Type}

/-- `m` keeps to user memory, nothing is refused, and its value has the property. -/
def Does (m : UserM α) (Q : α → Prop) : Prop :=
  ∀ s, s.refused = false → ∃ a s', m s = some (a, s') ∧ Within s s' ∧ s'.refused = false ∧ Q a

/-- `m` keeps to user memory, and its value is negative if a copy was refused. -/
def Honest (m : UserM Int) : Prop :=
  ∀ s, s.refused = false → ∃ e s', m s = some (e, s') ∧ Within s s' ∧ (s'.refused = true → e < 0)

theorem Honest.pure (e : Int) : Honest (pure e) := by
  intro s hs
  refine ⟨e, s, rfl, .refl s, fun h => ?_⟩
  rw [hs] at h
  cases h

theorem Does.bind {m : UserM α} {Q : α → Prop} {k : α → UserM Int} (hm : Does m Q) (hk : ∀ a, Q a → Honest (k a)) :
    Honest (m >>= k) := by
  intro s hs
  obtain ⟨a, s', heq, hw, hs', hq⟩ := hm s hs
  obtain ⟨e, r, heq', hw', hneg⟩ := hk a hq s' hs'
  refine ⟨e, r, ?_, hw.trans hw', hneg⟩
  show (m s).bind (fun p => k p.1 p.2) = some (e, r)
  rw [heq]
  exact heq'

theorem Honest.contained {m : UserM Int} (h : Honest m) (mem : Mem) : Contained mem (m (start mem)) := by
  obtain ⟨e, s, heq, hw, hneg⟩ := h (start mem) rfl
  have huser : ∀ st ∈ s.stores, st.2.user = true := fun st hst =>
    (hw.stores st hst).resolve_left not_mem_nil
  exact ⟨e, s, heq, huser, fun x hx => hw.mem x fun st hst => hx st hst (huser st hst), hneg⟩

theorem Honest.copy {sp : Space} {dst : Nat} {src : List UInt8} {m : UserM Int} {e : Int} (hm : Honest m)
    (he : e < 0) : Honest (do if ← copyToUser sp dst src then m else return e) := by
  intro s hs
  obtain ⟨b, s', heq, hw, hkept, -, -⟩ := copyToUser_spec sp dst src s
  cases b with
  | true =>
    obtain ⟨e', r, heq', hw', hneg⟩ := hm s' ((hkept rfl).trans hs)
    refine ⟨e', r, ?_, hw.trans hw', hneg⟩
    show (copyToUser sp dst src s).bind _ = some (e', r)
    rw [heq]
    exact heq'
  | false =>
    refine ⟨e, s', ?_, hw, fun _ => he⟩
    show (copyToUser sp dst src s).bind _ = some (e, s')
    rw [heq]
    rfl

theorem does_copyFromUser (sp : Space) (src len : Nat) (hlen : len < 2 ^ 32) :
    Does (copyFromUser sp src len)
      (fun r => (r.isSome = true ↔ Copyable sp src len) ∧ ∀ bytes, r = some bytes → bytes.length = len) := by
  intro s hs
  obtain ⟨r, heq, hr⟩ := copyFromUser_spec sp src len hlen s
  exact ⟨r, s, heq, .refl s, hs, hr⟩

theorem does_copyToUser {sp : Space} {dst : Nat} {src : List UInt8} (h : Copyable sp dst (u32 src.length)) :
    Does (copyToUser sp dst src) (fun _ => True) := by
  intro s hs
  obtain ⟨b, s', heq, hw, hkept, hok, -⟩ := copyToUser_spec sp dst src s
  exact ⟨b, s', heq, hw, (hkept (hok.mpr h)).trans hs, trivial⟩

theorem honest_handOver (sp : Space) (dst : Nat) (record : List UInt8) (ok : Int) :
    Honest (handOver sp dst record ok) :=
  (Honest.pure ok).copy (by decide)

/-! ## Handlers that copy -/

theorem honest_ite {c : Prop} [Decidable c] {m m' : UserM Int} (h : c → Honest m) (h' : ¬c → Honest m') :
    Honest (if c then m else m') := by
  by_cases hc : c
  · rw [if_pos hc]
    exact h hc
  · rw [if_neg hc]
    exact h' hc

theorem honest_pairOut (sp : Space) (addr : Nat) (made : Except Int (Nat × Nat)) : Honest (pairOut sp addr made) := by
  refine honest_ite (fun _ => .pure _) fun _ => ?_
  cases made with
  | error e => exact .pure e
  | ok p => exact honest_handOver _ _ _ _

theorem honest_sysFstat (sp : Space) (statAddr : Nat) (record : Option (List UInt8)) (size : Nat) :
    Honest (sysFstat sp statAddr record size) := by
  cases record with
  | none => exact .pure _
  | some record => exact honest_ite (fun _ => .pure _) fun _ => honest_handOver _ _ _ _

theorem honest_sysStat (sp : Space) (statAddr : Nat) (pathOk : Bool) (record : Option (List UInt8)) (size : Nat) :
    Honest (sysStat sp statAddr pathOk record size) := by
  refine honest_ite (fun _ => .pure _) fun _ => honest_ite (fun _ => .pure _) fun _ => ?_
  cases record with
  | none => exact .pure _
  | some record => exact honest_handOver _ _ _ _

theorem honest_sys5htPtyWinsize (sp : Space) (wsPtr getFlag : Nat) (winsize : Option (List UInt8)) :
    Honest (sys5htPtyWinsize sp wsPtr getFlag winsize) := by
  cases winsize with
  | none => exact .pure _
  | some winsize =>
    refine honest_ite (fun _ => honest_handOver _ _ _ _) fun _ => ?_
    refine (does_copyFromUser sp wsPtr _ (ByteMem.u32_lt _)).bind fun r _ => ?_
    cases r with
    | none => exact .pure _
    | some _ => exact .pure _

theorem honest_sysWaitpid (sp : Space) (statusPtr : Nat) (target : WaitTarget) :
    Honest (sysWaitpid sp statusPtr target) := by
  cases target with
  | missing => exact .pure _
  | terminated => exact .pure _
  | exits pid exitCode => exact honest_ite (fun _ => honest_handOver _ _ _ _) fun _ => .pure _

/-- The configuration of a layer is read and the record of the layer handed over. -/
theorem honest_prepare (sp : Space) (cfgPtr addr cfgSize : Nat)
    (prepare : List UInt8 → Except Int (Space × List UInt8)) :
    Honest (do
      match ← copyFromUser sp cfgPtr (u32 cfgSize) with
      | none => return -Files.efault
      | some cfg =>
        match prepare cfg with
        | .error e => return e
        | .ok (sp', info) => handOver sp' addr info 0) := by
  refine (does_copyFromUser sp cfgPtr _ (ByteMem.u32_lt _)).bind fun r _ => ?_
  cases r with
  | none => exact .pure _
  | some cfg =>
    dsimp only
    cases prepare cfg with
    | error e => exact .pure e
    | ok p => exact honest_handOver _ _ _ _

theorem honest_sys5htReqBuf (sp : Space) (id cfgPtr addr cfgSize : Nat) (state : LayerState)
    (prepare : List UInt8 → Except Int (Space × List UInt8)) :
    Honest (sys5htReqBuf sp id cfgPtr addr cfgSize state prepare) := by
  refine honest_ite (fun _ => .pure _) fun _ => ?_
  cases state with
  | foreign => exact .pure _
  | owned info => exact honest_handOver _ _ _ _
  | unallocated => exact honest_prepare sp cfgPtr addr cfgSize prepare

theorem honest_sys5htRcfgLayer (sp : Space) (id cfgPtr addr cfgSize : Nat) (state : LayerState)
    (prepare : List UInt8 → Except Int (Space × List UInt8)) :
    Honest (sys5htRcfgLayer sp id cfgPtr addr cfgSize state prepare) := by
  refine honest_ite (fun _ => .pure _) fun _ => ?_
  cases state with
  | foreign => exact .pure _
  | owned info => exact honest_prepare sp cfgPtr addr cfgSize prepare
  | unallocated => exact .pure _

theorem honest_listdirLoop (sp : Space) (buf size : Nat) (names : List (List UInt8)) :
    ∀ off, Honest (listdirLoop sp buf size names off) := by
  induction names with
  | nil =>
    intro off
    exact honest_ite (fun _ => honest_handOver _ _ _ _) fun _ => .pure _
  | cons name names ih =>
    intro off
    exact honest_ite (fun _ => .pure _) fun _ => ((ih _).copy (by decide)).copy (by decide)

theorem honest_sysListdir (sp : Space) (buf size : Nat) (names : Except Int (List (List UInt8))) :
    Honest (sysListdir sp buf size names) := by
  refine honest_ite (fun _ => .pure _) fun _ => ?_
  cases names with
  | error e => exact .pure e
  | ok names => exact honest_listdirLoop sp buf size names 0

theorem honest_listProcLoop (sp : Space) (buf max : Nat) (records : List (List UInt8)) :
    ∀ count, Honest (listProcLoop sp buf max records count) := by
  induction records with
  | nil => intro count; exact .pure _
  | cons record records ih =>
    intro count
    exact honest_ite (fun _ => .pure _) fun _ => (ih _).copy (by decide)

theorem honest_pushEvent (sp : Space) (buffer bufferSize : Nat) (eax : Int) (event : List UInt8) :
    Honest (pushEvent sp buffer bufferSize eax event) :=
  honest_ite (fun _ => (Honest.pure _).copy (by decide)) fun _ => .pure _

theorem honest_ideProcessWork (sp : Space) (userBuf : Nat) (allocated : Bool) (r : DriverRead) :
    Honest (ideProcessWork sp userBuf allocated r) := by
  cases r with
  | failed rc => exact .pure _
  | data bytes =>
    exact honest_ite (fun _ => .pure _) fun _ => honest_ite (fun _ => .pure _) fun _ => honest_handOver _ _ _ _

/-! ## select and poll -/

/-- A set is put back where it was read from. -/
theorem does_putSet {sp : Space} {ptr : Nat} (h : ptr ≠ 0 → Copyable sp ptr 8) (x : FdSet) :
    Does (putSet sp ptr x) (fun _ => True) := by
  intro s hs
  unfold putSet
  by_cases hp : ptr = 0
  · rw [if_neg (not_not_intro hp)]
    exact ⟨(), s, rfl, .refl s, hs, trivial⟩
  · rw [if_pos hp]
    have hcopy : Copyable sp ptr (u32 x.bytes.length) := h hp
    obtain ⟨b, s', heq, hw, hs', -⟩ := does_copyToUser hcopy s hs
    refine ⟨(), s', ?_, hw, hs', trivial⟩
    show (copyToUser sp ptr x.bytes s).bind _ = some ((), s')
    rw [heq]
    rfl

theorem does_getOptional (sp : Space) (ptr len : Nat) (hlen : len < 2 ^ 32) :
    Does (getOptional sp ptr len) (fun b => b = true → ptr ≠ 0 → Copyable sp ptr len) := by
  intro s hs
  unfold getOptional
  by_cases hp : ptr = 0
  · rw [if_neg (not_not_intro hp)]
    exact ⟨true, s, rfl, .refl s, hs, fun _ hne => absurd hp hne⟩
  · rw [if_pos hp]
    obtain ⟨r, s', heq, hw, hs', hr, -⟩ := does_copyFromUser sp ptr len hlen s hs
    refine ⟨r.isSome, s', ?_, hw, hs', fun h _ => hr.mp h⟩
    show (copyFromUser sp ptr len s).bind _ = some (r.isSome, s')
    rw [heq]
    rfl

theorem honest_sysSelect (sp : Space) (nfds argsPtr : Nat) (outcome : SelectOutcome) :
    Honest (sysSelect sp nfds argsPtr outcome) := by
  refine honest_ite (fun _ => .pure _) fun _ => ?_
  refine (does_copyFromUser sp argsPtr 16 (by decide)).bind fun r _ => ?_
  cases r with
  | none => exact .pure _
  | some args =>
    refine (does_getOptional sp (wordAt args 0) 8 (by decide)).bind fun r hr => honest_ite (fun _ => .pure _) fun h0 => ?_
    refine (does_getOptional sp (wordAt args 1) 8 (by decide)).bind fun w hw => honest_ite (fun _ => .pure _) fun h1 => ?_
    refine (does_getOptional sp (wordAt args 2) 8 (by decide)).bind fun e he => honest_ite (fun _ => .pure _) fun h2 => ?_
    refine (does_getOptional sp (wordAt args 3) 8 (by decide)).bind fun t _ => honest_ite (fun _ => .pure _) fun _ => ?_
    cases outcome with
    | failed errno => exact .pure _
    | ready n rs ws es =>
      -- each pointer was read through before
      refine (does_putSet (hr (by simpa using h0)) rs).bind fun _ _ => ?_
      refine (does_putSet (hw (by simpa using h1)) ws).bind fun _ _ => ?_
      exact (does_putSet (he (by simpa using h2)) es).bind fun _ _ => .pure _

theorem honest_sysPoll (sp : Space) (fdsPtr nfds : Nat) (ready : Option Nat) (revents : Nat → UInt16) :
    Honest (sysPoll sp fdsPtr nfds ready revents) := by
  refine honest_ite (fun _ => .pure _) fun hn => honest_ite (fun _ => .pure _) fun _ => ?_
  have hsize : nfds * 8 < 2 ^ 32 := by
    unfold fdSetsize at hn
    omega
  refine (does_copyFromUser sp fdsPtr _ hsize).bind fun r hr => ?_
  cases r with
  | none => exact .pure _
  | some pfds =>
    cases ready with
    | none => exact .pure _
    | some n =>
      have hlen : u32 (fillRevents pfds revents).length = nfds * 8 := by
        rw [fillRevents, length_mapIdx, hr.2 pfds rfl, ByteMem.u32_of_lt hsize]
      exact (does_copyToUser (hlen ▸ hr.1.mp rfl)).bind fun _ _ => .pure _

/-! ## Direct stores -/

/-- The task has mapped every byte of the range, which may wrap. -/
def Mapped (sp : Space) (a len : Nat) : Prop := ∀ i < len, sp.User (u32 (a + i))

/-- A store has left user memory, or the kernel has panicked. -/
def Strayed : Option (Unit × Machine) → Prop
  | none => True
  | some (_, s) => ∃ st ∈ s.stores, st.2.user = false

theorem mapped_succ {sp : Space} {a n : Nat} : Mapped sp a (n + 1) ↔ sp.User (u32 a) ∧ Mapped sp (a + 1) n := by
  constructor
  · intro h
    refine ⟨h 0 (Nat.succ_pos n), fun i hi => ?_⟩
    have hnext := h (i + 1) (by omega)
    rwa [show a + (i + 1) = a + 1 + i by omega] at hnext
  · rintro ⟨h0, h⟩ i hi
    cases i with
    | zero => exact h0
    | succ i =>
      have hnext := h i (by omega)
      rwa [show a + 1 + i = a + (i + 1) by omega] at hnext

theorem storeUser_cons (sp : Space) (a : Nat) (b : UInt8) (bytes : List UInt8) (s : Machine) :
    storeUser sp a (b :: bytes) s = match sp.page (u32 a / pageSize) with
      | none => none
      | some p => storeUser sp (a + 1) bytes (s.write p (u32 a) [b]) := by
  rw [storeUser]
  cases sp.page (u32 a / pageSize) with
  | none => rfl
  | some p => rfl

theorem storeUser_append (sp : Space) (xs ys : List UInt8) : ∀ a,
    storeUser sp a (xs ++ ys) = (do storeUser sp a xs; storeUser sp (a + xs.length) ys) := by
  induction xs with
  | nil =>
    intro a
    rfl
  | cons b xs ih =>
    intro a
    funext s
    rw [cons_append, storeUser_cons, ih (a + 1), length_cons, show a + (xs.length + 1) = a + 1 + xs.length by omega]
    show _ = (storeUser sp a (b :: xs) s).bind fun p => storeUser sp (a + 1 + xs.length) ys p.2
    rw [storeUser_cons]
    cases sp.page (u32 a / pageSize) with
    | none => rfl
    | some p => rfl

theorem storeUser_grows (sp : Space) (bytes : List UInt8) : ∀ a s s',
    storeUser sp a bytes s = some ((), s') → ∀ st ∈ s.stores, st ∈ s'.stores := by
  induction bytes with
  | nil =>
    intro a s s' h st hst
    cases h
    exact hst
  | cons b bytes ih =>
    intro a s s' h st hst
    rw [storeUser_cons] at h
    split at h
    · cases h
    · exact ih _ _ _ h st (mem_append_right _ hst)

theorem does_storeUser (sp : Space) (bytes : List UInt8) : ∀ a, Mapped sp a bytes.length →
    Does (storeUser sp a bytes) (fun _ => True) := by
  induction bytes with
  | nil =>
    intro a _ s hs
    exact ⟨(), s, rfl, .refl s, hs, trivial⟩
  | cons b bytes ih =>
    intro a hm s hs
    obtain ⟨⟨p, hp, hu⟩, hm⟩ := mapped_succ.mp hm
    obtain ⟨_, s', heq, hw, hs', -⟩ := ih (a + 1) hm (s.write p (u32 a) [b]) hs
    refine ⟨(), s', ?_, (within_write hu (cons_ne_nil b []) ?_).trans hw, hs', trivial⟩
    · rw [storeUser_cons, hp]
      exact heq
    · unfold pageSize
      have hlt := Nat.mod_lt (u32 a) (show 0 < 4096 by decide)
      rw [length_singleton]
      omega

theorem storeUser_strays (sp : Space) (bytes : List UInt8) : ∀ a s, ¬Mapped sp a bytes.length →
    Strayed (storeUser sp a bytes s) := by
  induction bytes with
  | nil =>
    intro a s h
    exact absurd (fun i hi => absurd hi (Nat.not_lt_zero i)) h
  | cons b bytes ih =>
    intro a s h
    rw [storeUser_cons]
    cases hp : sp.page (u32 a / pageSize) with
    | none => exact trivial
    | some p =>
      dsimp only
      by_cases hu : p.user = true
      · exact ih (a + 1) _ fun hm => h (mapped_succ.mpr ⟨⟨p, hp, hu⟩, hm⟩)
      · cases hr : storeUser sp (a + 1) bytes (s.write p (u32 a) [b]) with
        | none => exact trivial
        | some r =>
          have hfirst : (u32 a, p) ∈ (s.write p (u32 a) [b]).stores := mem_cons_self
          exact ⟨(u32 a, p), storeUser_grows sp bytes _ _ _ hr _ hfirst, by simpa using hu⟩

/-- A call that ends with a direct store keeps to user memory where all of it is mapped. -/
theorem contained_storeUser {sp : Space} {mem : Mem} {a : Nat} {bytes : List UInt8} {e : Int} :
    Contained mem ((do storeUser sp a bytes; return e : UserM Int) (start mem)) ↔ Mapped sp a bytes.length := by
  constructor
  · rintro ⟨errno, s, heq, hclean⟩
    by_contra hm
    have hs := storeUser_strays sp bytes a (start mem) hm
    cases hr : storeUser sp a bytes (start mem) with
    | none =>
      have hnone : ((storeUser sp a bytes (start mem)).bind fun p => (pure e : UserM Int) p.2) = some (errno, s) := heq
      rw [hr] at hnone
      cases hnone
    | some r =>
      have hsome : ((storeUser sp a bytes (start mem)).bind fun p => (pure e : UserM Int) p.2) = some (errno, s) := heq
      rw [hr] at hs hsome
      cases hsome
      obtain ⟨st, hst, hu⟩ := hs
      have hclean := hclean.user st hst
      rw [hu] at hclean
      cases hclean
  · intro hm
    exact ((does_storeUser sp bytes a hm).bind fun _ _ => .pure e).contained mem

/-! ## Blocked readers -/

theorem copyChunks_spec (sp : Space) (n : Nat) : ∀ (dst : Nat) (bytes : List UInt8) (s : Machine),
    bytes.length ≤ n → ∃ s', copyChunks sp n dst bytes s = some ((), s') ∧ Within s s' ∧
      (s'.refused = true ↔ s.refused = true ∨ ¬Copyable sp dst bytes.length) := by
  have hnil : ∀ (dst : Nat) (s : Machine), s.refused = true ↔ s.refused = true ∨ ¬Copyable sp dst 0 := by
    intro dst s
    exact ⟨.inl, fun h => h.resolve_right fun hno => hno fun i hi => absurd hi (Nat.not_lt_zero i)⟩
  induction n with
  | zero =>
    intro dst bytes s hn
    have hb := length_eq_zero_iff.mp (Nat.le_zero.mp hn)
    subst hb
    exact ⟨s, rfl, .refl s, hnil dst s⟩
  | succ n ih =>
    intro dst bytes s hn
    rw [copyChunks]
    by_cases hb : bytes = []
    · subst hb
      exact ⟨s, rfl, .refl s, hnil dst s⟩
    have hpos : 0 < bytes.length := length_pos_iff.mpr hb
    rw [if_neg hb]
    have htake : u32 (bytes.take 256).length = min 256 bytes.length := by
      rw [length_take, ByteMem.u32_of_lt (by omega)]
    obtain ⟨b, s₁, heq, hw, hkept, hok, hrefused⟩ := copyToUser_spec sp dst (bytes.take 256) s
    obtain ⟨s', heq', hw', hiff⟩ := ih (u32 (dst + 256)) (bytes.drop 256) s₁ (by rw [length_drop]; omega)
    refine ⟨s', ?_, hw.trans hw', ?_⟩
    · show (copyToUser sp dst (bytes.take 256) s).bind (fun p => copyChunks sp n (u32 (dst + 256)) (bytes.drop 256) p.2) = _
      rw [heq]
      exact heq'
    · rw [htake] at hok
      have hsplit : Copyable sp dst (min 256 bytes.length + (bytes.length - min 256 bytes.length)) ↔ _ :=
        copyable_add
      rw [Nat.add_sub_of_le (Nat.min_le_right _ _)] at hsplit
      rw [hiff, length_drop, hsplit]
      cases b with
      | false =>
        rw [hrefused rfl]
        exact ⟨fun _ => .inr fun h => absurd (hok.mpr h.1) Bool.false_ne_true, fun _ => .inl rfl⟩
      | true =>
        have hfirst := hok.mp rfl
        rw [hkept rfl]
        by_cases hlong : bytes.length ≤ 256
        · -- this was the last chunk
          have hzero : bytes.length - 256 = 0 ∧ bytes.length - min 256 bytes.length = 0 := by omega
          rw [hzero.1, hzero.2]
          exact or_congr_right (not_congr ⟨fun _ => ⟨hfirst, fun i hi => absurd hi (Nat.not_lt_zero i)⟩,
            fun _ i hi => absurd hi (Nat.not_lt_zero i)⟩)
        · have hmin : min 256 bytes.length = 256 := by omega
          have hlast := (hfirst 255 (by omega)).2.1
          have hnext : u32 (dst + 256) = dst + 256 := by
            unfold userSpaceEnd at hlast
            exact ByteMem.u32_of_lt (by omega)
          rw [hnext, hmin]
          rw [hmin] at hfirst
          exact or_congr_right (not_congr ⟨fun h => ⟨hfirst, h⟩, fun h => h.2⟩)

/-- A reader that is woken with bytes is handed all of them. -/
def WakeOk (sp : Space) (buf bufSize : Nat) : VfsRead → Prop
  | .ring bytes => buf ≠ 0 → Copyable sp buf (min bufSize bytes.length)
  | _ => True

theorem contained_wakeOne {sp : Space} {mem : Mem} {buf bufSize : Nat} {ring : List UInt8} :
    Contained mem (wakeOne sp buf bufSize ring (start mem)) ↔ (buf ≠ 0 → Copyable sp buf (min bufSize ring.length)) := by
  unfold wakeOne
  by_cases hc : 0 < min bufSize ring.length ∧ buf ≠ 0
  · rw [if_pos hc]
    have hlen : (ring.take (min bufSize ring.length)).length = min bufSize ring.length := by
      rw [length_take]
      omega
    obtain ⟨s, heq, hw, hiff⟩ := copyChunks_spec sp _ buf _ (start mem) (Nat.le_of_eq hlen)
    rw [hlen] at hiff
    have hrun : (do copyChunks sp (min bufSize ring.length) buf (ring.take (min bufSize ring.length))
                    return ((min bufSize ring.length : Nat) : Int) : UserM Int) (start mem) =
        some (((min bufSize ring.length : Nat) : Int), s) := by
      show (copyChunks sp (min bufSize ring.length) buf (ring.take (min bufSize ring.length)) (start mem)).bind _ = _
      rw [heq]
      rfl
    constructor
    · rintro ⟨errno, r, her, hclean⟩ _
      obtain ⟨rfl, rfl⟩ := Prod.mk.inj (Option.some.inj (hrun.symm.trans her))
      by_contra hno
      have hneg := hclean.fails (hiff.mpr (.inr hno))
      omega
    · intro h
      have huser : ∀ st ∈ s.stores, st.2.user = true := fun st hst =>
        (hw.stores st hst).resolve_left not_mem_nil
      refine ⟨_, s, hrun, huser, fun x hx => hw.mem x fun st hst => hx st hst (huser st hst), fun hr => ?_⟩
      obtain hr | hr := hiff.mp hr
      · cases hr
      · exact absurd (h hc.2) hr
  · rw [if_neg hc]
    refine iff_of_true ((Honest.pure _).contained mem) fun hb i hi => ?_
    exact absurd ⟨by omega, hb⟩ hc

theorem contained_awaken {sp : Space} {mem : Mem} {buf bufSize : Nat} {eax : Int} {r : VfsRead} :
    Contained mem (awaken sp buf bufSize eax r (start mem)) ↔ WakeOk sp buf bufSize r := by
  cases r with
  | ring bytes => exact contained_wakeOne
  | event record => exact iff_of_true ((honest_pushEvent _ _ _ _ _).contained mem) trivial
  | returns r => exact iff_of_true ((Honest.pure _).contained mem) trivial
  | asleep => exact iff_of_true ((Honest.pure _).contained mem) trivial

/-! ## Every call -/

/-- The direct stores of the call go to bytes that the task has mapped, and a read that
blocks on a terminal or a socket has a buffer that is mapped. -/
def Guarded (sp : Space) : Request → Prop
  | .gettimeofday timestr _ => Mapped sp timestr.toNat 8
  | .getgroups size list groups =>
    toInt size.toNat ≠ 0 → groups.length ≤ toInt size.toNat → Mapped sp list.toNat (2 * groups.length)
  | .deliverSignals t espAtTrap =>
    ∀ sig, t.next = some sig → t.handler sig ≠ 0 → Mapped sp (espAtTrap.toNat + 2 ^ 32 - 8) 8
  | .recv buf len (some r) allocated =>
    badRange buf.toNat len.toNat = false → allocated = true → WakeOk sp buf.toNat len.toNat r
  | .read fd buf bufSize (some (.node access r)) allocated _ =>
    fd.toNat < fdMax → access ≠ oWronly → ¬(syscallStackBuf < bufSize.toNat ∧ !allocated) →
      WakeOk sp buf.toNat bufSize.toNat r
  | .read fd buf bufSize none allocated terminal =>
    fd.toNat = readStdin → ¬(buf.toNat = 0 ∨ bufSize.toNat = 0) →
      ¬(u32 (buf.toNat + bufSize.toNat - 1) < buf.toNat ∨ badRange buf.toNat bufSize.toNat = true) →
      allocated = true → WakeOk sp buf.toNat bufSize.toNat terminal
  | _ => True

variable {sp : Space} {mem : Mem}

theorem contained_ite {c : Prop} [Decidable c] {m m' : UserM Int} {P : Prop} (hm : Honest m)
    (h : ¬c → (Contained mem (m' (start mem)) ↔ P)) :
    Contained mem ((if c then m else m') (start mem)) ↔ (¬c → P) := by
  by_cases hc : c
  · rw [if_pos hc]
    exact iff_of_true (hm.contained mem) fun hn => absurd hc hn
  · rw [if_neg hc, h hc]
    exact ⟨fun hp _ => hp, fun hp => hp hc⟩

theorem contained_sysGetgroups {size list : Nat} {groups : List UInt16} :
    Contained mem (sysGetgroups sp size list groups (start mem)) ↔
      (¬toInt size = 0 → ¬toInt size < groups.length → Mapped sp list (2 * groups.length)) := by
  refine contained_ite (.pure _) fun _ => contained_ite (.pure _) fun _ => ?_
  have hlen : (groups.flatMap fun g => [UInt8.ofNat g.toNat, .ofNat (g.toNat / 256)]).length = 2 * groups.length := by
    rw [length_flatMap]
    simp [Nat.mul_comm]
  rw [← hlen]
  exact contained_storeUser

theorem contained_sysGettimeofday {timestr ticks : Nat} :
    Contained mem (sysGettimeofday sp timestr ticks (start mem)) ↔ Mapped sp timestr 8 := by
  have hboth : sysGettimeofday sp timestr ticks = (do
      storeUser sp timestr (word (u32 ticks / 1000) ++ word (u32 ticks % 1000 * 1000))
      return 0) := by
    rw [storeUser_append, bind_assoc]
    rfl
  rw [hboth]
  exact contained_storeUser

theorem contained_deliverSignals {t : Signals} {esp : Nat} (hesp : esp < 2 ^ 32) :
    Contained mem (taskIpcDeliverSignals sp t esp (start mem)) ↔
      ∀ sig, t.next = some sig → t.handler sig ≠ 0 → Mapped sp (esp + 2 ^ 32 - 8) 8 := by
  unfold taskIpcDeliverSignals
  cases hn : t.next with
  | none => exact iff_of_true ((Honest.pure _).contained mem) fun sig h => nomatch h
  | some sig =>
    have hboth : (do
        storeUser sp (esp + 2 ^ 32 - 8) (word signalTrampolineAddr)
        storeUser sp (esp + 2 ^ 32 - 4) (word sig)
        return 0 : UserM Int) = (do
          storeUser sp (esp + 2 ^ 32 - 8) (word signalTrampolineAddr ++ word sig)
          return 0) := by
      have hlen : (word signalTrampolineAddr).length = 4 := rfl
      rw [storeUser_append, bind_assoc, hlen, show esp + 2 ^ 32 - 8 + 4 = esp + 2 ^ 32 - 4 by omega]
    have hsig : Contained mem ((if t.handler sig = 0 then pure (-1) else do
        storeUser sp (esp + 2 ^ 32 - 8) (word signalTrampolineAddr ++ word sig)
        return 0 : UserM Int) (start mem)) ↔ (¬t.handler sig = 0 → Mapped sp (esp + 2 ^ 32 - 8) 8) :=
      contained_ite (.pure _) fun _ => contained_storeUser
    rw [← hboth] at hsig
    refine hsig.trans ⟨fun h sig' hs => ?_, fun h => h sig rfl⟩
    cases hs
    exact h

theorem contained_sysRecv {buf len : Nat} {r : VfsRead} {allocated : Bool} :
    Contained mem (sysRecv sp buf len (some r) allocated (start mem)) ↔
      (¬badRange buf len = true → ¬(!allocated) = true → WakeOk sp buf len r) := by
  refine contained_ite (.pure _) fun _ => contained_ite (.pure _) fun _ => ?_
  cases r with
  | returns r =>
    cases r with
    | failed rc => exact iff_of_true ((Honest.pure _).contained mem) trivial
    | data bytes =>
      exact iff_of_true ((honest_ite (fun _ => .pure _) fun _ => honest_handOver _ _ _ _).contained mem) trivial
  | event record => exact contained_awaken
  | ring bytes => exact contained_awaken
  | asleep => exact contained_awaken

theorem contained_sysRead_node {fd buf bufSize access : Nat} {r : VfsRead} {allocated : Bool} (terminal : VfsRead) :
    Contained mem (sysRead sp fd buf bufSize (some (.node access r)) allocated terminal (start mem)) ↔
      (¬fdMax ≤ fd → ¬access = oWronly → ¬(syscallStackBuf < bufSize ∧ (!allocated) = true) →
        WakeOk sp buf bufSize r) := by
  refine contained_ite (.pure _) fun _ => contained_ite (.pure _) fun _ => contained_ite (.pure _) fun _ => ?_
  cases r with
  | returns r =>
    cases r with
    | failed rc => exact iff_of_true ((Honest.pure _).contained mem) trivial
    | data bytes => exact iff_of_true ((honest_handOver _ _ _ _).contained mem) trivial
  | event record => exact contained_awaken
  | ring bytes => exact contained_awaken
  | asleep => exact contained_awaken

theorem contained_sysRead_none {fd buf bufSize : Nat} {terminal : VfsRead} {allocated : Bool} :
    Contained mem (sysRead sp fd buf bufSize none allocated terminal (start mem)) ↔
      (¬fdMax ≤ fd → fd = readStdin → ¬(buf = 0 ∨ bufSize = 0) →
        ¬(u32 (buf + bufSize - 1) < buf ∨ badRange buf bufSize = true) → ¬(!allocated) = true →
        WakeOk sp buf bufSize terminal) := by
  refine contained_ite (.pure _) fun _ => ?_
  by_cases hfd : fd = readStdin
  · rw [if_pos hfd]
    refine Iff.trans ?_ ⟨fun h _ => h, fun h => h hfd⟩
    refine contained_ite (.pure _) fun _ => contained_ite (.pure _) fun _ => contained_ite (.pure _) fun _ => ?_
    cases terminal with
    | returns r =>
      cases r with
      | failed rc => exact iff_of_true ((Honest.pure _).contained mem) trivial
      | data bytes => exact iff_of_true ((honest_handOver _ _ _ _).contained mem) trivial
    | event record => exact contained_awaken
    | ring bytes => exact contained_awaken
    | asleep => exact contained_awaken
  · rw [if_neg hfd]
    exact iff_of_true ((Honest.pure _).contained mem) fun h => absurd h hfd

/-- A call keeps to user memory exactly where it is guarded. -/
theorem contained_iff (sp : Space) (mem : Mem) (r : Request) :
    Contained mem (serve sp r (start mem)) ↔ Guarded sp r := by
  have hcopies : ∀ {m : UserM Int}, Honest m → (Contained mem (m (start mem)) ↔ True) :=
    fun h => iff_of_true (h.contained mem) trivial
  cases r with
  | read fd buf bufSize file allocated terminal =>
    cases file with
    | none =>
      refine contained_sysRead_none.trans ?_
      unfold Guarded
      rw [Bool.not_eq_true', Bool.not_eq_false]
      constructor
      · intro h hfd
        refine h ?_ hfd
        rw [hfd]
        decide
      · intro h _ hfd
        exact h hfd
    | some f =>
      cases f with
      | disk access r =>
        exact hcopies (honest_ite (fun _ => .pure _) fun _ => honest_ite (fun _ => .pure _) fun _ =>
          honest_ideProcessWork _ _ _ _)
      | node access r =>
        refine (contained_sysRead_node terminal).trans ?_
        unfold Guarded
        rw [Nat.not_le]
  | recv buf len file allocated =>
    cases file with
    | none => exact hcopies (.pure _)
    | some r =>
      refine contained_sysRecv.trans ?_
      unfold Guarded
      simp
  | pipe pipeAddr made => exact hcopies (honest_pairOut _ _ _)
  | ptyOpen outPtr made => exact hcopies (honest_pairOut _ _ _)
  | socketpair typeOk svAddr made => exact hcopies (honest_ite (fun _ => .pure _) fun _ => honest_pairOut _ _ _)
  | fstat statAddr record size => exact hcopies (honest_sysFstat _ _ _ _)
  | stat statAddr pathOk record size => exact hcopies (honest_sysStat _ _ _ _ _)
  | getcwd buffer size cwd =>
    exact hcopies (honest_ite (fun _ => .pure _) fun _ => honest_ite (fun _ => .pure _) fun _ => honest_handOver _ _ _ _)
  | uname addr utsname => exact hcopies (honest_handOver _ _ _ _)
  | sysinfo addr sysinfo => exact hcopies (honest_handOver _ _ _ _)
  | queryInfo addr info => exact hcopies (honest_ite (fun _ => .pure _) fun _ => honest_handOver _ _ _ _)
  | ptyGetattr attrPtr attr =>
    cases attr with
    | none => exact hcopies (.pure _)
    | some attr => exact hcopies (honest_handOver _ _ _ _)
  | ptyWinsize wsPtr getFlag winsize => exact hcopies (honest_sys5htPtyWinsize _ _ _ _)
  | waitpid statusPtr target => exact hcopies (honest_sysWaitpid _ _ _)
  | queryLayer id addr info => exact hcopies (honest_ite (fun _ => .pure _) fun _ => honest_handOver _ _ _ _)
  | reqBuf id cfgPtr addr cfgSize state prepare => exact hcopies (honest_sys5htReqBuf _ _ _ _ _ _ _)
  | rcfgLayer id cfgPtr addr cfgSize state prepare => exact hcopies (honest_sys5htRcfgLayer _ _ _ _ _ _ _)
  | listdir buf size names => exact hcopies (honest_sysListdir _ _ _ _)
  | listProc buf max records => exact hcopies (honest_listProcLoop _ _ _ _ _)
  | select nfds argsPtr outcome => exact hcopies (honest_sysSelect _ _ _ _)
  | poll fdsPtr nfds ready revents => exact hcopies (honest_sysPoll _ _ _ _ _)
  | gettimeofday timestr ticks => exact contained_sysGettimeofday
  | getgroups size list groups =>
    refine contained_sysGetgroups.trans ?_
    unfold Guarded
    rw [Int.not_lt]
  | deliverSignals t espAtTrap => exact contained_deliverSignals espAtTrap.toNat_lt
  | other eax => exact hcopies (.pure _)

/-! ## A store into the kernel -/

/-- One user page, and one of the kernel. -/
def smallSpace : Space where
  page n := if n = 0x401 then some ⟨0x500000, true⟩ else if n = 0xC0100 then some ⟨0x100000, false⟩ else none
  user_of_range := by
    intro n p hp hlo hhi
    unfold userSpaceEnd pageSize at hhi
    split at hp
    · cases hp
      exact ⟨rfl, by decide⟩
    · split at hp
      · omega
      · cases hp

/-- `gettimeofday` with an address of the kernel stores the time there. -/
theorem not_always_contained : ¬∀ (sp : Space) (mem : Mem) (r : Request), Contained mem (serve sp r (start mem)) := by
  intro h
  obtain ⟨errno, s, heq, hclean⟩ := h smallSpace (fun _ => 0) (.gettimeofday 0xC0100010 5000)
  have hstores : (serve smallSpace (.gettimeofday 0xC0100010 5000) (start fun _ => 0)).map (fun r => r.2.stores.head?) =
      some (some (0xC0100017, ⟨0x100000, false⟩)) := by decide
  rw [heq, Option.map_some] at hstores
  have hst := hclean.user _ (List.mem_of_mem_head? (Option.some.inj hstores))
  cases hst

end Serotonin.Syscall
