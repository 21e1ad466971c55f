import Mathlib.Data.List.Count
import Serotonin.Schedule.Conservation
import Serotonin.Schedule.Tasks

/-! `sys_waitpid` and the exits it waits for. The kernel keeps no record of a task that has
exited, and `task_exit` tells those only that wait for just this pid at that moment; a
wait for -1 is never told. What the calls returned and who exited is noted in a log beside
the scheduler's state. -/

namespace Serotonin.Waitpid

open Function List Option
open Schedule

/-- `asked` is the argument of the call, and `own` says whether it was then the pid of a child
of the caller. An exit is noted with the parent, if it is still on the task list, and with
whether the parent was in a wait for this pid or for -1. -/
inductive Event where
  | returned (caller asked : Nat) (own : Bool) (value : Int) (status : Option Nat)
  | interrupted (caller asked : Nat)
  | exited (pid exit : Nat) (parent : Option Nat) (awaited : Bool)
deriving DecidableEq

/-- `parentOf`, by pids, `inWait`, the argument of the wait a task is blocked in, and the
log, newest first, are no part of the kernel. -/
structure WaitState where
  sched : Sched
  parentOf : Nat → Option Nat
  inWait : Tid → Option Nat
  log : List Event

/-- The tasks in `sys_waitpid` that the loop of `task_exit` wakes. -/
def woken (w : WaitState) (pid : Nat) : List Tid :=
  w.sched.taskList.filter fun u => (w.inWait u).isSome && (w.sched.pcb u).waitingOn == pid

/-- The parent, as long as it is on the list. -/
def listedParent (w : WaitState) (pid : Nat) : Option Nat :=
  (w.parentOf pid).filter fun p => w.sched.taskList.any fun u => (w.sched.pcb u).pid == p

def isOwn (w : WaitState) (caller asked : Nat) : Bool := w.parentOf asked == some caller

def parentWaits (w : WaitState) (pid : Nat) : Bool :=
  w.sched.taskList.any fun u =>
    listedParent w pid == some (w.sched.pcb u).pid && (w.inWait u == some pid || w.inWait u == some noPid)

/-- Each woken call returns what the loop stored. -/
def noteExit (w : WaitState) (t : Tid) (exit : Nat) (copyFails : Tid → Bool) (s' : Sched) : WaitState :=
  let s := w.sched
  let pid := (s.pcb t).pid
  let r := s.taskList.foldl (notifyWaiter t exit copyFails) s
  let returns := (woken w pid).map fun u =>
    let asked := (w.inWait u).getD 0
    .returned (s.pcb u).pid asked (isOwn w (s.pcb u).pid asked) (r.pcb u).eax (r.pcb u).statusWord
  { w with
    sched := s'
    inWait := fun u => if u ∈ woken w pid then none else w.inWait u
    log := returns ++ .exited pid exit (listedParent w pid) (parentWaits w pid) :: w.log }

/-- What a step of the scheduler adds to the log. -/
def note (w : WaitState) (op : Op) (s' : Sched) : WaitState :=
  match op with
  | .waitpid pid _ =>
    let caller := (w.sched.pcb w.sched.current).pid
    if s'.mode = .running then
      { w with sched := s', log := .returned caller pid (isOwn w caller pid) s'.errno none :: w.log }
    else { w with sched := s', inWait := update w.inWait w.sched.current (some pid) }
  | .pickNext =>
    match s'.mode, w.inWait s'.current with
    | .running, some asked =>
      { w with
        sched := s'
        inWait := update w.inWait s'.current none
        log := .interrupted (s'.pcb s'.current).pid asked :: w.log }
    | _, _ => { w with sched := s' }
  | .exitNotify copyFails =>
    match w.sched.mode with
    | .exiting t exit => noteExit w t exit copyFails s'
    | _ => { w with sched := s' }
  | .create t _ _ => { w with sched := s', inWait := update w.inWait t none }
  | .fork t =>
    if s'.nextPid = w.sched.nextPid then { w with sched := s' }
    else
      { w with
        sched := s'
        inWait := update w.inWait t none
        parentOf := update w.parentOf w.sched.nextPid (some (w.sched.pcb w.sched.current).pid) }
  | _ => { w with sched := s' }

def step (w : WaitState) (op : Op) : Option WaitState := (Schedule.step w.sched op).map (note w op)

/-! ## The protocol -/

/-- A call of `parent` returned the pid of the child and stored the status. -/
def isDelivery (parent child status : Nat) : Event → Bool
  | .returned p _ _ v (some st) => p == parent && v == child && st == status
  | _ => false

/-- How often the exit of a child has been delivered to its parent. -/
def deliveries (log : List Event) (parent child exit : Nat) : Nat :=
  log.countP (isDelivery parent child (exit % 256 * 256))

/-- A call fails for want of such a child only if its exit has been delivered before. -/
def Found (log : List Event) : Prop := ∀ p c st earlier,
  .returned p c true (-esrch) st :: earlier <:+ log → ∃ e, 0 < deliveries earlier p c e

structure Protocol (w : WaitState) : Prop where
  once : ∀ c e p b, .exited c e (some p) b ∈ w.log → deliveries w.log p c e ≤ 1
  /-- A wait for the child, or for any, that was made before the exit. -/
  before : ∀ c e p, .exited c e (some p) true ∈ w.log → deliveries w.log p c e = 1
  /-- One that was made after it. -/
  after : ∀ t ∈ w.sched.taskList, ∀ a, w.inWait t = some a → ∀ c e b, a = c ∨ a = noPid →
    .exited c e (some (w.sched.pcb t).pid) b ∈ w.log → deliveries w.log (w.sched.pcb t).pid c e = 1
  found : Found w.log

structure Init (w : WaitState) : Prop where
  known : Known w.sched
  pos : 0 < w.sched.nextPid
  waitingOn : ∀ t ∈ w.sched.taskList, (w.sched.pcb t).waitingOn = 0
  inWait : ∀ t, w.inWait t = none
  log : w.log = []

/-- A wait is not for -1 or the caller, nor for a child whose exit was missed; the status of
an exit can be stored for the parent, if it waits; and pids have not run out. -/
def Guarded (w : WaitState) : Op → Prop
  | .waitpid pid _ =>
    let caller := (w.sched.pcb w.sched.current).pid
    pid ≠ noPid ∧ pid ≠ caller ∧ (taskLookupByPid w.sched pid = none → isOwn w caller pid →
      ∃ e, 0 < deliveries w.log caller pid e)
  | .exitNotify copyFails => ∀ t exit, w.sched.mode = .exiting t exit →
    ∀ u ∈ woken w (w.sched.pcb t).pid, listedParent w (w.sched.pcb t).pid = some (w.sched.pcb u).pid →
      (w.sched.pcb u).statusPtr.isSome ∧ copyFails u = false
  | .create _ _ _ => w.sched.nextPid < noPid
  | .fork _ => w.sched.nextPid < noPid
  | _ => True

structure Inv (w : WaitState) : Prop where
  known : Known w.sched
  pos : 0 < w.sched.nextPid
  low : ∀ t ∈ w.sched.taskList,
    (w.sched.pcb t).waitingOn < w.sched.nextPid ∨ (w.sched.pcb t).waitingOn = noPid
  asked : ∀ t ∈ w.sched.taskList, ∀ a, w.inWait t = some a → (w.sched.pcb t).waitingOn = a ∧ a ≠ noPid ∧
    ∀ e p b, .exited a e p b ∉ w.log
  gone : ∀ c e p b, .exited c e p b ∈ w.log →
    c < w.sched.nextPid ∧ ∀ t ∈ w.sched.taskList, (w.sched.pcb t).pid ≠ c
  delivered : ∀ p a o (c : Nat) st, .returned p a o c (some st) ∈ w.log →
    ∃ e q b, .exited c e q b ∈ w.log
  once : ∀ c e p b, .exited c e (some p) b ∈ w.log →
    deliveries w.log p c e ≤ 1 ∧ (b = true → deliveries w.log p c e = 1)
  found : Found w.log

theorem Init.inv {w : WaitState} (h : Init w) : Inv w := by
  have hnil : ∀ e, e ∉ w.log := fun e he => by rw [h.log] at he; cases he
  refine ⟨h.known, h.pos, fun t ht => .inl (by rw [h.waitingOn t ht]; exact h.pos),
    fun t _ a ha => (by rw [h.inWait t] at ha; cases ha), fun _ _ _ _ he => absurd he (hnil _),
    fun _ _ _ _ _ he => absurd he (hnil _), fun _ _ _ _ he => absurd he (hnil _), fun _ _ _ _ he => ?_⟩
  rw [h.log] at he
  exact absurd (suffix_nil.mp he) (cons_ne_nil _ _)

theorem Inv.protocol {w : WaitState} (h : Inv w) : Protocol w where
  once c e p b he := (h.once c e p b he).1
  before c e p he := (h.once c e p true he).2 rfl
  after t ht a ha c e b hc he := by
    obtain ⟨-, hany, hnot⟩ := h.asked t ht a ha
    rcases hc with hc | hc
    · exact absurd (hc ▸ he) (hnot e _ b)
    · exact absurd hc hany
  found := h.found

/-! ## Steps that tell nobody of an exit -/

theorem Found.cons {l : List Event} (h : Found l) {ev : Event}
    (hev : ∀ p c st, ev = .returned p c true (-esrch) st → ∃ e, 0 < deliveries l p c e) : Found (ev :: l) := by
  intro p c st earlier hs
  rcases suffix_cons_iff.mp hs with he | hs
  · obtain ⟨he, hrest⟩ := List.cons.inj he
    rw [hrest]
    exact hev p c st he.symm
  · exact h p c st earlier hs

theorem Found.append {l : List Event} (h : Found l) : ∀ {xs : List Event},
    (∀ ev ∈ xs, ∀ p c st, ev ≠ .returned p c true (-esrch) st) → Found (xs ++ l)
  | [], _ => h
  | _ :: _, hxs => (h.append fun ev he => hxs ev (mem_cons_of_mem _ he)).cons fun p c st he =>
    absurd he (hxs _ mem_cons_self p c st)

/-- No exit, no status and no wrong failure is added. -/
structure SameNews (l l' : List Event) : Prop where
  exited : ∀ c e p b, .exited c e p b ∈ l' ↔ .exited c e p b ∈ l
  returned : ∀ p a o v st, .returned p a o v (some st) ∈ l' → .returned p a o v (some st) ∈ l
  found : Found l → Found l'
  deliveries : ∀ p c e, deliveries l' p c e = deliveries l p c e

theorem SameNews.refl (l : List Event) : SameNews l l :=
  ⟨fun _ _ _ _ => Iff.rfl, fun _ _ _ _ _ h => h, id, fun _ _ _ => rfl⟩

theorem sameNews_interrupted (l : List Event) (p a : Nat) : SameNews l (.interrupted p a :: l) := by
  refine ⟨fun c e q b => ?_, fun q c o v st h => ?_, fun h => ?_, fun q c e => ?_⟩
  · rw [mem_cons]
    exact or_iff_right fun he => nomatch he
  · exact (mem_cons.mp h).resolve_left fun he => nomatch he
  · exact h.cons fun _ _ _ he => nomatch he
  · exact countP_cons_of_neg (by simp [isDelivery])

theorem sameNews_returned (l : List Event) (p a : Nat) (o : Bool) (v : Int)
    (hv : v = -esrch → o = true → ∃ e, 0 < deliveries l p a e) : SameNews l (.returned p a o v none :: l) := by
  refine ⟨fun c e q b => ?_, fun q c o v st h => ?_, fun h => ?_, fun q c e => ?_⟩
  · rw [mem_cons]
    exact or_iff_right fun he => nomatch he
  · exact (mem_cons.mp h).resolve_left fun he => nomatch he
  · refine h.cons fun q c st he => ?_
    cases he
    exact hv rfl rfl
  · exact countP_cons_of_neg (by simp [isDelivery])

theorem Inv.keep {w w' : WaitState} (h : Inv w) (hk : Known w'.sched) (hl : SameList w.sched w'.sched)
    (hin : ∀ t a, w'.inWait t = some a → w.inWait t = some a) (hlog : SameNews w.log w'.log) : Inv w' := by
  refine ⟨hk, ?_, ?_, ?_, ?_, ?_, ?_, ?_⟩
  · rw [hl.nextPid]
    exact h.pos
  · rw [hl.taskList, hl.nextPid]
    intro t ht
    rw [hl.waitingOn]
    exact h.low t ht
  · rw [hl.taskList]
    intro t ht a ha
    obtain ⟨hw, hany, hnot⟩ := h.asked t ht a (hin t a ha)
    rw [hl.waitingOn]
    exact ⟨hw, hany, fun e p b he => hnot e p b ((hlog.exited ..).mp he)⟩
  · rw [hl.taskList, hl.nextPid]
    intro c e p b he
    obtain ⟨hlt, hnone⟩ := h.gone c e p b ((hlog.exited ..).mp he)
    refine ⟨hlt, fun t ht => ?_⟩
    rw [hl.pid]
    exact hnone t ht
  · intro p a o c st hr
    obtain ⟨e, q, b, he⟩ := h.delivered p a o c st (hlog.returned _ _ _ _ _ hr)
    exact ⟨e, q, b, (hlog.exited ..).mpr he⟩
  · intro c e p b he
    rw [hlog.deliveries]
    exact h.once c e p b ((hlog.exited ..).mp he)
  · exact hlog.found h.found

/-! ## A wait -/

/-- The current task blocks until a listed task exits. -/
theorem Inv.block {w : WaitState} (h : Inv w) (hm : w.sched.mode = .running) {pid : Nat} {target : Tid}
    (hlisted : target ∈ w.sched.taskList) (hpid : (w.sched.pcb target).pid = pid) (hany : pid ≠ noPid)
    (hself : pid ≠ (w.sched.pcb w.sched.current).pid) (statusPtr : Option Nat) :
    Inv { w with
      sched := taskYield (taskBlock (w.sched.modify w.sched.current fun x =>
        { x with waitingOn := pid, statusPtr := statusPtr }))
      inWait := update w.inWait w.sched.current (some pid) } := by
  have hcur := h.known.current (.inl hm)
  have hme : ∀ u x, w.sched.mode ≠ .exiting u x := fun u x he => by rw [hm] at he; cases he
  let s1 := w.sched.modify w.sched.current fun x => { x with waitingOn := pid, statusPtr := statusPtr }
  have hk1 : Known s1 := h.known.modify hcur _ (fun _ => rfl) hme hself
  have hpcb : ∀ t, (s1.pcb t).pid = (w.sched.pcb t).pid := modify_pcb_field _ fun _ => rfl
  have hinv : Inv { w with sched := s1, inWait := update w.inWait w.sched.current (some pid) } := by
    refine ⟨hk1, h.pos, fun t ht => ?_, fun t ht a ha => ?_, fun c e p b he => ?_, h.delivered, h.once, h.found⟩
    · by_cases htc : t = w.sched.current
      · refine .inl ?_
        show (s1.pcb t).waitingOn < _
        rw [htc, modify_pcb_self, ← hpid]
        exact h.known.lt target hlisted
      · show (s1.pcb t).waitingOn < _ ∨ _
        rw [modify_pcb_ne htc]
        exact h.low t ht
    · by_cases htc : t = w.sched.current
      · dsimp only at ha ⊢
        rw [htc, update_self, Option.some.injEq] at ha
        subst ha
        rw [htc, modify_pcb_self]
        exact ⟨rfl, hany, fun e p b he => (h.gone _ e p b he).2 target hlisted hpid⟩
      · dsimp only at ha ⊢
        rw [update_of_ne htc] at ha
        rw [modify_pcb_ne htc]
        exact h.asked t ht a ha
    · refine ⟨(h.gone c e p b he).1, fun t ht => ?_⟩
      rw [hpcb]
      exact (h.gone c e p b he).2 t ht
  obtain ⟨hkb, hlb⟩ := hk1.taskBlock hm
  exact hinv.keep (hkb.quiet (quiet_taskYield _)) (hlb.trans (quiet_taskYield _).sameList)
    (fun _ _ ha => ha) (.refl _)

theorem Inv.waitpid {w : WaitState} (h : Inv w) {pid : Nat} {statusPtr : Option Nat}
    (hm : w.sched.mode = .running) (hg : Guarded w (.waitpid pid statusPtr)) :
    Inv (note w (.waitpid pid statusPtr) (sysWaitpid w.sched pid statusPtr)) := by
  obtain ⟨hany, hself, hfound⟩ := hg
  -- the call returns at once
  have hreturn : ∀ n, (n = -esrch → isOwn w (w.sched.pcb w.sched.current).pid pid = true →
      ∃ e, 0 < deliveries w.log (w.sched.pcb w.sched.current).pid pid e) →
      Inv (note w (.waitpid pid statusPtr) { w.sched with errno := n }) := by
    intro n hn
    have hq : Quiet w.sched { w.sched with errno := n } :=
      ⟨fun _ => rfl, fun _ => rfl, fun _ => rfl, fun _ ha => ha, rfl, rfl, rfl, .inl rfl⟩
    unfold note
    dsimp only
    rw [if_pos hm]
    exact h.keep (h.known.quiet hq) hq.sameList (fun _ _ ha => ha) (sameNews_returned _ _ _ _ _ hn)
  unfold sysWaitpid
  rw [if_neg hany]
  cases htarget : taskLookupByPid w.sched pid with
  | none => exact hreturn _ fun _ hown => hfound htarget hown
  | some target =>
    have hlisted : target ∈ w.sched.taskList := mem_of_find?_eq_some htarget
    have hpid : (w.sched.pcb target).pid = pid := by
      have hp := List.find?_some htarget
      exact eq_of_beq hp
    dsimp only
    by_cases hterm : w.sched.state target = .terminated
    · rw [if_pos hterm]
      exact hreturn _ fun he => absurd he (by decide)
    · rw [if_neg hterm]
      have hblock := h.block hm hlisted hpid hany hself statusPtr
      unfold note
      dsimp only
      rw [if_neg (by rw [taskYield_mode]; exact fun he => nomatch he)]
      exact hblock

/-! ## An exit -/

def statusFails (w : WaitState) (copyFails : Tid → Bool) (u : Tid) : Bool :=
  (w.sched.pcb u).statusPtr.isNone || copyFails u

/-- What a woken call returns. -/
def delivery (w : WaitState) (pid exit : Nat) (fails : Tid → Bool) (u : Tid) : Event :=
  .returned (w.sched.pcb u).pid pid (isOwn w (w.sched.pcb u).pid pid) (if fails u then -efault else pid)
    (if fails u then (w.sched.pcb u).statusWord else some (exit % 256 * 256))

theorem Inv.mem_woken {w : WaitState} (h : Inv w) {pid : Nat} {u : Tid} :
    u ∈ woken w pid ↔ u ∈ w.sched.taskList ∧ w.inWait u = some pid := by
  unfold woken
  rw [mem_filter, Bool.and_eq_true, beq_iff_eq]
  constructor
  · intro ⟨hu, hin, hw⟩
    obtain ⟨a, ha⟩ := isSome_iff_exists.mp hin
    refine ⟨hu, ha.trans (congrArg some ?_)⟩
    exact (h.asked u hu a ha).1.symm.trans hw
  · intro ⟨hu, ha⟩
    exact ⟨hu, isSome_iff_exists.mpr ⟨pid, ha⟩, (h.asked u hu pid ha).1⟩

theorem Inv.nodup {w : WaitState} (h : Inv w) : w.sched.taskList.Nodup :=
  List.Nodup.of_map _ h.known.pids

theorem Inv.noteExit_log {w : WaitState} (h : Inv w) (t : Tid) (exit : Nat) (copyFails : Tid → Bool)
    (s' : Sched) :
    (noteExit w t exit copyFails s').log =
      (woken w (w.sched.pcb t).pid).map (delivery w (w.sched.pcb t).pid exit (statusFails w copyFails)) ++
        .exited (w.sched.pcb t).pid exit (listedParent w (w.sched.pcb t).pid)
          (parentWaits w (w.sched.pcb t).pid) :: w.log := by
  unfold noteExit
  dsimp only
  congr 1
  refine map_congr_left fun u hu => ?_
  obtain ⟨hlisted, hin⟩ := h.mem_woken.mp hu
  obtain ⟨n, hn⟩ := notifyWaiters_pcb t exit copyFails w.sched h.nodup u
  have hpcb : notified w.sched t exit copyFails w.sched.taskList u =
      (w.sched.pcb u).awaited (w.sched.pcb t).pid exit (statusFails w copyFails u) := by
    unfold notified
    rw [if_pos ⟨hlisted, (h.asked u hlisted _ hin).1⟩]
    rfl
  rw [hn, hpcb, hin]
  rfl

theorem isDelivery_delivery (w : WaitState) (pid exit : Nat) (fails : Tid → Bool) (p c status : Nat) (u : Tid) :
    isDelivery p c status (delivery w pid exit fails u) = true ↔
      fails u = false ∧ (w.sched.pcb u).pid = p ∧ pid = c ∧ exit % 256 * 256 = status := by
  unfold delivery
  cases hf : fails u with
  | true =>
    -- the error is no pid
    have hneg : -efault ≠ (c : Int) := by
      unfold efault
      omega
    rw [if_pos rfl, if_pos rfl]
    refine ⟨fun hd => ?_, fun hd => nomatch hd.1⟩
    cases hw : (w.sched.pcb u).statusWord with
    | none =>
      rw [hw] at hd
      cases hd
    | some st =>
      rw [hw] at hd
      exact absurd (eq_of_beq (Bool.and_eq_true_iff.mp (Bool.and_eq_true_iff.mp hd).1).2) hneg
  | false =>
    rw [if_neg Bool.false_ne_true, if_neg Bool.false_ne_true]
    unfold isDelivery
    simp only [Bool.and_eq_true, beq_iff_eq, Int.natCast_inj, true_and, and_assoc]

/-- Pids tell the woken tasks apart. -/
theorem Inv.countP_woken_le {w : WaitState} (h : Inv w) (pid p : Nat) :
    (woken w pid).countP (fun u => (w.sched.pcb u).pid == p) ≤ 1 := by
  have hnd : ((woken w pid).map fun u => (w.sched.pcb u).pid).Nodup :=
    h.known.pids.sublist (filter_sublist.map _)
  have hcount := nodup_iff_count_le_one.mp hnd p
  rw [List.count, countP_map] at hcount
  exact hcount

theorem deliveries_new (w : WaitState) (pid exit : Nat) (fails : Tid → Bool) (us : List Tid)
    (parent : Option Nat) (b : Bool) (l : List Event) (p c e : Nat) :
    deliveries (us.map (delivery w pid exit fails) ++ .exited pid exit parent b :: l) p c e =
      us.countP (fun u => isDelivery p c (e % 256 * 256) (delivery w pid exit fails u)) + deliveries l p c e := by
  unfold deliveries
  rw [countP_append, countP_cons_of_neg (by simp [isDelivery]), countP_map]
  rfl

/-- Nothing has been delivered of a task that is on the list. -/
theorem Inv.deliveries_listed {w : WaitState} (h : Inv w) {t : Tid} (ht : t ∈ w.sched.taskList) (p e : Nat) :
    deliveries w.log p (w.sched.pcb t).pid e = 0 := by
  refine countP_eq_zero.mpr fun ev hev hd => ?_
  cases ev with
  | interrupted q a => cases hd
  | exited c x q b => cases hd
  | returned q a o v st =>
    cases st with
    | none => cases hd
    | some st =>
      have hv : v = (w.sched.pcb t).pid :=
        eq_of_beq (Bool.and_eq_true_iff.mp (Bool.and_eq_true_iff.mp hd).1).2
      subst hv
      obtain ⟨x, r, b, he⟩ := h.delivered q a o _ st hev
      exact (h.gone _ x r b he).2 t ht rfl

theorem Inv.noteExit_once {w : WaitState} (h : Inv w) {t : Tid} (ht : t ∈ w.sched.taskList) {exit : Nat}
    {fails : Tid → Bool} {l : List Event}
    (hg : ∀ u ∈ woken w (w.sched.pcb t).pid, listedParent w (w.sched.pcb t).pid = some (w.sched.pcb u).pid →
      fails u = false)
    (hl : l = (woken w (w.sched.pcb t).pid).map (delivery w (w.sched.pcb t).pid exit fails) ++
      .exited (w.sched.pcb t).pid exit (listedParent w (w.sched.pcb t).pid)
        (parentWaits w (w.sched.pcb t).pid) :: w.log)
    (c e p : Nat) (b : Bool) (he : .exited c e (some p) b ∈ l) :
    deliveries l p c e ≤ 1 ∧ (b = true → deliveries l p c e = 1) := by
  subst hl
  rw [deliveries_new]
  rcases mem_append.mp he with he | he
  · obtain ⟨u, -, hu⟩ := mem_map.mp he
    cases hu
  rcases mem_cons.mp he with he | he
  · -- the exit that is noted now
    injection he with hc hx hp hb
    subst hc hx hb
    rw [h.deliveries_listed ht, Nat.add_zero]
    have hle : (woken w (w.sched.pcb t).pid).countP (fun u =>
        isDelivery p (w.sched.pcb t).pid (e % 256 * 256) (delivery w (w.sched.pcb t).pid e fails u)) ≤ 1 := by
      refine Nat.le_trans (countP_mono_left fun u _ hd => ?_) (h.countP_woken_le (w.sched.pcb t).pid p)
      exact beq_iff_eq.mpr ((isDelivery_delivery ..).mp hd).2.1
    refine ⟨hle, fun hw => Nat.le_antisymm hle (countP_pos_iff.mpr ?_)⟩
    obtain ⟨u, hu, hboth⟩ := any_eq_true.mp hw
    obtain ⟨hparent, hin⟩ := Bool.and_eq_true_iff.mp hboth
    have hpu := eq_of_beq hparent
    have hwoken : u ∈ woken w (w.sched.pcb t).pid := by
      refine h.mem_woken.mpr ⟨hu, ?_⟩
      rcases Bool.or_eq_true_iff.mp hin with hin | hin
      · exact eq_of_beq hin
      · exact absurd rfl (h.asked u hu _ (eq_of_beq hin)).2.1
    refine ⟨u, hwoken, (isDelivery_delivery ..).mpr ⟨hg u hwoken hpu, ?_, rfl, rfl⟩⟩
    rw [← hp, Option.some.injEq] at hpu
    exact hpu.symm
  · -- an earlier exit has another pid
    have hne : (w.sched.pcb t).pid ≠ c := (h.gone c e _ b he).2 t ht
    rw [countP_eq_zero.mpr fun u _ hd => hne ((isDelivery_delivery ..).mp hd).2.2.1, Nat.zero_add]
    exact h.once c e p b he

theorem Inv.exitNotify {w : WaitState} (h : Inv w) {t : Tid} {exit : Nat} {copyFails : Tid → Bool}
    (hm : w.sched.mode = .exiting t exit)
    (hg : ∀ u ∈ woken w (w.sched.pcb t).pid, listedParent w (w.sched.pcb t).pid = some (w.sched.pcb u).pid →
      (w.sched.pcb u).statusPtr.isSome ∧ copyFails u = false) :
    Inv (noteExit w t exit copyFails (taskExitNotify w.sched t exit copyFails)) := by
  obtain ⟨ht, -⟩ := h.known.exiting t exit hm
  obtain ⟨hlist, hnext, hpcb⟩ := taskExitNotify_fields h.nodup t exit copyFails
  have hlog := h.noteExit_log t exit copyFails (taskExitNotify w.sched t exit copyFails)
  have hsub : ∀ u ∈ (taskExitNotify w.sched t exit copyFails).taskList, u ∈ w.sched.taskList ∧ u ≠ t := by
    intro u hu
    rw [hlist] at hu
    exact ⟨(mem_filter.mp hu).1, bne_iff_ne.mp (mem_filter.mp hu).2⟩
  have hexited : ∀ c e p b, .exited c e p b ∈ (noteExit w t exit copyFails
      (taskExitNotify w.sched t exit copyFails)).log → c = (w.sched.pcb t).pid ∨ .exited c e p b ∈ w.log := by
    intro c e p b he
    rw [hlog] at he
    rcases mem_append.mp he with he | he
    · obtain ⟨u, -, hu⟩ := mem_map.mp he
      cases hu
    rcases mem_cons.mp he with he | he
    · injection he with hc
      exact .inl hc
    · exact .inr he
  refine ⟨h.known.taskExitNotify hm copyFails, ?_, ?_, ?_, ?_, ?_, ?_, ?_⟩
  · show 0 < (taskExitNotify w.sched t exit copyFails).nextPid
    rw [hnext]
    exact h.pos
  · intro u hu
    show ((taskExitNotify w.sched t exit copyFails).pcb u).waitingOn <
      (taskExitNotify w.sched t exit copyFails).nextPid ∨
        ((taskExitNotify w.sched t exit copyFails).pcb u).waitingOn = noPid
    rw [hnext, (hpcb u).2]
    unfold notified
    split
    · exact .inr rfl
    · exact h.low u (hsub u hu).1
  · intro u hu a ha
    obtain ⟨hul, hut⟩ := hsub u hu
    by_cases hwk : u ∈ woken w (w.sched.pcb t).pid
    · have hnone : (noteExit w t exit copyFails (taskExitNotify w.sched t exit copyFails)).inWait u = none :=
        if_pos hwk
      rw [hnone] at ha
      cases ha
    · have hsame : (noteExit w t exit copyFails (taskExitNotify w.sched t exit copyFails)).inWait u = w.inWait u :=
        if_neg hwk
      rw [hsame] at ha
      obtain ⟨hw, hany, hnot⟩ := h.asked u hul a ha
      have hne : a ≠ (w.sched.pcb t).pid := fun he => hwk (h.mem_woken.mpr ⟨hul, he ▸ ha⟩)
      refine ⟨?_, hany, fun e p b he => ?_⟩
      · show ((taskExitNotify w.sched t exit copyFails).pcb u).waitingOn = a
        rw [(hpcb u).2]
        unfold notified
        rw [if_neg fun hboth => hne (hw.symm.trans hboth.2)]
        exact hw
      · exact (hexited a e p b he).elim hne (hnot e p b)
  · intro c e p b he
    have hpid : ∀ u, ((noteExit w t exit copyFails (taskExitNotify w.sched t exit copyFails)).sched.pcb u).pid =
        (w.sched.pcb u).pid := fun u => (hpcb u).1
    have hn : (noteExit w t exit copyFails (taskExitNotify w.sched t exit copyFails)).sched.nextPid =
      w.sched.nextPid := hnext
    rw [hn]
    rcases hexited c e p b he with hc | he
    · subst hc
      refine ⟨h.known.lt t ht, fun u hu heq => (hsub u hu).2 ?_⟩
      rw [hpid] at heq
      exact h.known.pid_inj (hsub u hu).1 ht heq
    · refine ⟨(h.gone c e p b he).1, fun u hu => ?_⟩
      rw [hpid]
      exact (h.gone c e p b he).2 u (hsub u hu).1
  · intro p a o c st hr
    rw [hlog] at hr ⊢
    rcases mem_append.mp hr with hr | hr
    · obtain ⟨u, -, hu⟩ := mem_map.mp hr
      have hd := (isDelivery_delivery w (w.sched.pcb t).pid exit (statusFails w copyFails) p c st u).mp
        (by rw [hu]; simp [isDelivery])
      rw [← hd.2.2.1]
      exact ⟨_, _, _, mem_append_right _ mem_cons_self⟩
    · obtain ⟨e, q, b, he⟩ := h.delivered p a o c st ((mem_cons.mp hr).resolve_left fun he => nomatch he)
      exact ⟨e, q, b, mem_append_right _ (mem_cons_of_mem _ he)⟩
  · refine h.noteExit_once ht (fun u hu hp => ?_) hlog
    obtain ⟨hptr, hcopy⟩ := hg u hu hp
    unfold statusFails
    rw [hcopy, Bool.or_false, isNone_eq_false_iff.mpr hptr]
  · rw [hlog]
    have hexit : Found (.exited (w.sched.pcb t).pid exit (listedParent w (w.sched.pcb t).pid)
        (parentWaits w (w.sched.pcb t).pid) :: w.log) := h.found.cons fun p c st he => nomatch he
    refine hexit.append fun ev hev p c st he => ?_
    obtain ⟨u, -, hu⟩ := mem_map.mp hev
    rw [he] at hu
    unfold delivery at hu
    injection hu with _ _ _ hv _
    split at hv
    · exact absurd hv (by decide)
    · have hneg : (0 : Int) ≤ -esrch := hv ▸ Int.natCast_nonneg _
      exact absurd hneg (by decide)

/-! ## A new task -/

theorem Inv.spawn {w : WaitState} (h : Inv w) {t : Tid} {x : Pcb} (ht : t ∉ w.sched.taskList)
    (hm : w.sched.mode = .running) (hx : x.pid = w.sched.nextPid) (hroom : w.sched.nextPid < noPid)
    (hw : x.waitingOn < w.sched.nextPid ∨ x.waitingOn = noPid) (parentOf : Nat → Option Nat) :
    Inv { w with
      sched := { w.sched with
        pcb := update w.sched.pcb t x, nextPid := w.sched.nextPid + 1,
        taskList := w.sched.taskList ++ [t] }
      inWait := update w.inWait t none
      parentOf := parentOf } := by
  have hme : ∀ u e, w.sched.mode ≠ .exiting u e := fun u x he => by rw [hm] at he; cases he
  have hwait : x.waitingOn ≠ w.sched.nextPid := by omega
  have hother : ∀ u ∈ w.sched.taskList, update w.sched.pcb t x u = w.sched.pcb u := fun u hu =>
    update_of_ne (fun he : u = t => ht (he ▸ hu)) ..
  refine ⟨h.known.spawn ht hx hroom hwait hme, Nat.succ_pos _, fun u hu => ?_, fun u hu a ha => ?_,
    fun c e p b he => ?_, h.delivered, h.once, h.found⟩
  · dsimp only at hu ⊢
    rcases mem_append.mp hu with hu | hu
    · rw [hother u hu]
      exact (h.low u hu).imp_left Nat.lt_succ_of_lt
    · rw [mem_singleton.mp hu, update_self]
      exact hw.imp_left Nat.lt_succ_of_lt
  · dsimp only at hu ha ⊢
    by_cases hut : u = t
    · rw [hut, update_self] at ha
      cases ha
    · rw [update_of_ne hut] at ha ⊢
      rcases mem_append.mp hu with hu | hu
      · exact h.asked u hu a ha
      · exact absurd (mem_singleton.mp hu) hut
  · dsimp only
    obtain ⟨hlt, hnone⟩ := h.gone c e p b he
    refine ⟨Nat.lt_succ_of_lt hlt, fun u hu => ?_⟩
    rcases mem_append.mp hu with hu | hu
    · rw [hother u hu]
      exact hnone u hu
    · rw [mem_singleton.mp hu, update_self, hx]
      exact fun he => Nat.lt_irrefl _ (he ▸ hlt)

theorem Inv.fork {w : WaitState} (h : Inv w) {t : Tid} {s' : Sched} (ht : t ∉ w.sched.taskList)
    (hm : w.sched.mode = .running) (hroom : w.sched.nextPid < noPid) (hs : sysFork w.sched t = some s') :
    Inv (note w (.fork t) s') := by
  have hme : ∀ u e, w.sched.mode ≠ .exiting u e := fun u x he => by rw [hm] at he; cases he
  have hcur := h.known.current (.inl hm)
  unfold sysFork at hs
  split at hs
  · -- a kernel task that asks for a copy ends
    have hl := sameList_taskExit hs
    have hnote : note w (.fork t) s' = { w with sched := s' } := if_pos hl.nextPid
    rw [hnote]
    exact h.keep (h.known.taskExit hcur hme hs).1 hl (fun _ _ ha => ha) (.refl _)
  · cases hs
    let x : Pcb := { w.sched.pcb w.sched.current with
      state := .ready, pid := w.sched.nextPid, signalBitmask := 0, alarmTicks := 0, signalHandlers := fun _ => 0 }
    let parentOf := update w.parentOf w.sched.nextPid (some (w.sched.pcb w.sched.current).pid)
    have hspawn := h.spawn (x := x) ht hm rfl hroom (h.low _ hcur) parentOf
    have hq : Quiet (taskFork w.sched t) { (enqueue (taskFork w.sched t) t).modify t fun x => { x with eax := 0 } with
        errno := ((enqueue (taskFork w.sched t) t).pcb t).pid } := by
      have hboth := (quiet_enqueue (taskFork w.sched t) t).trans
        (quiet_modify_same t (f := fun x => { x with eax := 0 }) (fun _ => rfl) (fun _ => rfl) (fun _ => rfl)
          fun _ => rfl)
      exact ⟨hboth.pid, hboth.waitingOn, hboth.statusPtr, hboth.alive, hboth.taskList, hboth.nextPid, hboth.current,
        hboth.mode⟩
    have hnext : (taskFork w.sched t).nextPid ≠ w.sched.nextPid := Nat.succ_ne_self _
    unfold note
    dsimp only at hq ⊢
    rw [if_neg fun he => hnext (hq.nextPid.symm.trans he)]
    exact hspawn.keep (hspawn.known.quiet hq) hq.sameList (fun _ _ ha => ha) (.refl _)

/-! ## Runs -/

theorem Inv.pickNext {w : WaitState} (h : Inv w) {s' : Sched} (hs : Schedule.step w.sched .pickNext = some s') :
    Inv (note w .pickNext s') := by
  obtain ⟨hk, hl⟩ := h.known.plain .pickNext trivial hs
  unfold note
  dsimp only
  split
  · refine h.keep hk hl (fun t a ha => ?_) (sameNews_interrupted _ _ _)
    dsimp only at ha
    by_cases ht : t = s'.current
    · rw [ht, update_self] at ha
      cases ha
    · rwa [update_of_ne ht] at ha
  · exact h.keep hk hl (fun _ _ ha => ha) (.refl _)

theorem Inv.step {w w' : WaitState} {op : Op} (h : Inv w) (hg : Guarded w op) (hs : step w op = some w') :
    Inv w' := by
  obtain ⟨s', hsched, rfl⟩ := map_eq_some_iff.mp hs
  have hplain : op.Plain → note w op s' = { w with sched := s' } → Inv (note w op s') := by
    intro hop hnote
    obtain ⟨hk, hl⟩ := h.known.plain op hop hsched
    rw [hnote]
    exact h.keep hk hl (fun _ _ ha => ha) (.refl _)
  cases op with
  | waitpid pid statusPtr =>
    obtain ⟨hm, hdone⟩ := ite_none_right_eq_some.mp hsched
    cases hdone
    exact h.waitpid hm hg
  | pickNext => exact h.pickNext hsched
  | exitNotify copyFails =>
    unfold Schedule.step at hsched
    dsimp only at hsched
    split at hsched
    · rename_i t exit hm
      cases hsched
      have hnote : note w (.exitNotify copyFails) (taskExitNotify w.sched t exit copyFails) =
          noteExit w t exit copyFails (taskExitNotify w.sched t exit copyFails) := by
        unfold note
        simp only [hm]
      rw [hnote]
      exact h.exitNotify hm (hg t exit hm)
    · cases hsched
  | create t priv prio =>
    obtain ⟨⟨hm, hunused⟩, hdone⟩ := ite_none_right_eq_some.mp hsched
    cases hdone
    exact h.spawn hunused.2.1 hm rfl hg (.inl h.pos) w.parentOf
  | fork t =>
    obtain ⟨⟨hm, hunused⟩, hdone⟩ := ite_none_right_eq_some.mp hsched
    exact h.fork hunused.2.1 hm hg hdone
  | enqueue t => exact hplain trivial rfl
  | dequeue => exact hplain trivial rfl
  | taskYield => exact hplain trivial rfl
  | taskBlock => exact hplain trivial rfl
  | taskUnblock t => exact hplain trivial rfl
  | signalRaise t signal => exact hplain trivial rfl
  | exit exit => exact hplain trivial rfl
  | timer userCode eax polled => exact hplain trivial rfl
  | signal signal handler => exact hplain trivial rfl
  | sigret => exact hplain trivial rfl
  | alarm seconds => exact hplain trivial rfl
  | systemCallReturn => exact hplain trivial rfl
  | preemptDisable => exact hplain trivial rfl
  | preemptEnable => exact hplain trivial rfl

def Step (w w' : WaitState) : Prop := ∃ op, step w op = some w'

def GuardedStep (w w' : WaitState) : Prop := ∃ op, Guarded w op ∧ step w op = some w'

/-- The kernel after boot, with no wait so far. -/
def bootedWait : WaitState :=
  { sched := { booted with
      pcb := fun t => if t = 1 ∨ t = 2 then booted.pcb t else { booted.pcb t with state := .unused } }
    parentOf := fun _ => none
    inWait := fun _ => none
    log := [] }

theorem bootedWait_init : Init bootedWait := by
  refine ⟨⟨⟨fun t ht => ?_, by decide, by decide, by decide, by decide⟩, fun _ => by decide,
    fun _ _ he => nomatch he⟩, by decide, by decide, fun _ => rfl, rfl⟩
  by_cases h12 : t = 1 ∨ t = 2
  · rcases h12 with rfl | rfl
    · exact mem_cons_self
    · exact mem_cons_of_mem _ mem_cons_self
  · have hstate : bootedWait.sched.state t = .unused := by
      show (if t = 1 ∨ t = 2 then booted.pcb t else { booted.pcb t with state := .unused }).state = _
      rw [if_neg h12]
    rw [hstate] at ht
    rcases ht with ht | ht | ht <;> cases ht

end Serotonin.Waitpid
