import Mathlib.Algebra.Group.Nat.Defs
import Mathlib.Data.List.Nodup
import Serotonin.Init.Pipes

/-! The pipes of one round, from the poll to the calls. Between the two one control command may be
handled; it leaves the pipes alone, unless it stops a job. -/

namespace Serotonin.Init

open List

variable {s : State} {j : Job} {i : Nat}

/-! ## The pipe loop -/

/-- The call of `process_pipe` in a state. -/
def callOf (s : State) (p : Polled) : PipeCall := ⟨p, s.pipeOf p.job, (s.pipeOf p.job).bind s.kernel.file⟩

theorem Owned.tidy_pipe (h : Owned s) (i : Nat) (a : PipeAnswer) : TidyAt s i fun k j => processPipe k j a :=
  fun j hj => tidy_processPipe (h.mine i j hj) a

theorem Owned.callOf_onJob {f : Kernel → Job → Kernel × Job} (h : Owned s) (hf : TidyAt s i f) {p : Polled}
    (hne : p.job ≠ i) : callOf (s.onJob i f) p = callOf s p := by
  obtain ⟨hpipe, hfile⟩ := h.onJob_pipe hf hne
  unfold callOf
  rw [hpipe]
  congr 1
  cases hp : s.pipeOf p.job with
  | none => rfl
  | some fd => exact hfile fd hp

/-- No call of the loop changes what the later ones find. -/
theorem pipeLoop_spec (answer : Nat → PipeAnswer) {ps : List Polled} (h : Owned s) (hnodup : (ps.map (·.job)).Nodup) :
    (pipeLoop answer s ps).2 = ps.map (callOf s) ∧ Owned (pipeLoop answer s ps).1 := by
  induction ps generalizing s with
  | nil => exact ⟨rfl, h⟩
  | cons p ps ih =>
    rw [map_cons, nodup_cons] at hnodup
    have htidy := h.tidy_pipe p.job (answer p.job)
    obtain ⟨hcalls, howned⟩ := ih (h.onJob htidy) hnodup.2
    refine ⟨?_, howned⟩
    rw [map_cons, pipeLoop]
    dsimp only
    rw [hcalls]
    refine congrArg _ (map_congr_left fun q hq => ?_)
    exact h.callOf_onJob htidy fun he => hnodup.1 (mem_map.mpr ⟨q, hq, he⟩)

theorem mem_pfds {p : Polled} : p ∈ s.pfds ↔ s.pipeOf p.job = some p.fd ∧ p.file = s.kernel.file p.fd := by
  unfold State.pfds
  rw [mem_filterMap]
  constructor
  · intro ⟨i, _, he⟩
    obtain ⟨fd, hp, rfl⟩ := Option.map_eq_some_iff.mp he
    exact ⟨hp, rfl⟩
  · intro ⟨hp, hfile⟩
    obtain ⟨j, hj, _⟩ := pipeOf_eq_some.mp hp
    obtain ⟨hlt, _⟩ := List.getElem?_eq_some_iff.mp hj
    refine ⟨p.job, mem_range.mpr hlt, ?_⟩
    rw [hp, Option.map_some, ← hfile]

theorem nodup_pfds (s : State) : (s.pfds.map (·.job)).Nodup := by
  have hjobs : s.pfds.map (·.job) = (List.range s.jobs.length).filter fun i => (s.pipeOf i).isSome := by
    rw [State.pfds, map_filterMap, ← filterMap_eq_filter]
    refine filterMap_congr fun i _ => ?_
    cases hp : s.pipeOf i <;> simp [Option.guard, hp]
  rw [hjobs]
  exact nodup_range.filter _

/-! ## The start pass -/

theorem Owned.tidy_start (h : Owned s) (hj : s.jobs[i]? = some j) (hpending : j.state = .pending) (a : StartAnswer) :
    TidyAt s i fun k j => startJob k j a := by
  intro j' hj'
  rw [hj] at hj'
  cases hj'
  refine tidy_startJob (h.mine i j hj) ?_ a
  by_contra hpipe
  obtain ⟨hstate | hstate, _⟩ := (h.mine i j hj).ok hpipe
  · rw [hpending] at hstate
    cases hstate
  · rw [hpending] at hstate
    cases hstate

theorem Owned.startPass (answer : Nat → StartAnswer) (is : List Nat) (h : Owned s) :
    Owned (startPass answer s is).1 := by
  induction is generalizing s with
  | nil => exact h
  | cons i is ih =>
    rw [Init.startPass]
    split
    · next hstart =>
      obtain ⟨j, hj, hgo⟩ := Option.any_eq_true _ _ |>.mp hstart
      have hpending : j.state = .pending := by simpa using (Bool.and_eq_true_iff.mp hgo).1
      exact ih (h.onJob (h.tidy_start hj hpending (answer i)))
    · exact ih h

/-! ## Control commands -/

/-- A descriptor that no job has. -/
def State.Unowned (s : State) (fd : Nat) : Prop := ∀ (i : Nat) (j : Job), s.jobs[i]? = some j → ¬j.Owns fd

/-- What the rest of the round needs of a pipe. -/
def Keeps (s s' : State) (i : Nat) : Prop :=
  ∀ fd, s.pipeOf i = some fd → s'.pipeOf i = some fd ∧ s'.kernel.file fd = s.kernel.file fd

theorem Keeps.trans {s' s'' : State} (h : Keeps s s' i) (h' : Keeps s' s'' i) : Keeps s s'' i := by
  intro fd hp
  obtain ⟨hp', hfile⟩ := h fd hp
  obtain ⟨hp'', hfile'⟩ := h' fd hp'
  exact ⟨hp'', hfile'.trans hfile⟩

/-- What a command leaves, with the descriptor of its client. -/
structure Commanded (s s' : State) (client : Nat) : Prop where
  owned : Owned s'
  unowned : s'.Unowned client
  isOpen : s'.kernel.file client ≠ none
  ctl : s'.ctlFd = s.ctlFd

theorem Owned.command_onJob {f : Kernel → Job → Kernel × Job} (h : Owned s) (hf : TidyAt s i f) {fd : Nat}
    (hun : s.Unowned fd) (hopen : s.kernel.file fd ≠ none) : Commanded s (s.onJob i f) fd := by
  refine ⟨h.onJob hf, fun i' j' hj' => ?_, ?_, onJob_ctlFd⟩
  · by_cases hne : i' = i
    · subst hne
      cases hj : s.jobs[i']? with
      | none =>
        rw [onJob_none hj, hj] at hj'
        cases hj'
      | some j =>
        rw [onJob_getElem_self hj] at hj'
        exact Option.some.inj hj' ▸ ((hf j hj).others fd hopen (hun i' j hj)).2
    · rw [onJob_getElem_ne hne] at hj'
      exact hun i' j' hj'
  · cases hj : s.jobs[i]? with
    | none => rwa [onJob_none hj]
    | some j =>
      rw [onJob_some hj]
      rw [((hf j hj).others fd hopen (hun i j hj)).1]
      exact hopen

theorem getElem_append_fresh {jobs : List Job} {c : Config} {name : List UInt8}
    (h : (jobs ++ [Job.fresh c name])[i]? = some j) : jobs[i]? = some j ∨ j = Job.fresh c name := by
  rw [List.getElem?_append] at h
  split at h
  · exact .inl h
  · exact .inr (mem_singleton.mp (mem_of_getElem? h))

theorem fresh_owns {c : Config} {name : List UInt8} {fd : Nat} : ¬(Job.fresh c name).Owns fd := by
  simp [Job.Owns, Job.fresh]

theorem Owned.append (h : Owned s) (c : Config) (name : List UInt8) :
    Owned { s with jobs := s.jobs ++ [Job.fresh c name] } := by
  refine ⟨h.below, fun i j hj => ?_, fun i i' j j' fd hj hj' ho ho' => ?_, fun i i' fd fd' f hp hp' => ?_⟩
  · obtain hj | rfl := getElem_append_fresh hj
    · exact h.mine i j hj
    · exact ⟨fun fd ho => absurd ho fresh_owns, by simp [Job.fresh], by simp [Job.PipeOk, Job.fresh]⟩
  · obtain hj | rfl := getElem_append_fresh hj
    · obtain hj' | rfl := getElem_append_fresh hj'
      · exact h.apart i i' j j' fd hj hj' ho ho'
      · exact absurd ho' fresh_owns
    · exact absurd ho fresh_owns
  · have hold : ∀ {i fd}, State.pipeOf { s with jobs := s.jobs ++ [Job.fresh c name] } i = some fd → s.pipeOf i = some fd := by
      intro i fd hp
      obtain ⟨j, hj, hfd⟩ := pipeOf_eq_some.mp hp
      obtain hj | rfl := getElem_append_fresh hj
      · exact pipeOf_eq_some.mpr ⟨j, hj, hfd⟩
      · simp [Job.fresh] at hfd
    exact h.files i i' fd fd' f (hold hp) (hold hp')

theorem keeps_append (s : State) (c : Config) (name : List UInt8) (i : Nat) :
    Keeps s { s with jobs := s.jobs ++ [Job.fresh c name] } i := by
  intro fd hp
  obtain ⟨j, hj, hfd⟩ := pipeOf_eq_some.mp hp
  obtain ⟨hlt, _⟩ := List.getElem?_eq_some_iff.mp hj
  refine ⟨pipeOf_eq_some.mpr ⟨j, ?_, hfd⟩, rfl⟩
  exact (List.getElem?_append_left hlt).trans hj

theorem lookUp_spec (h : Owned s) (req : Request) {fd : Nat} (hun : s.Unowned fd) (hopen : s.kernel.file fd ≠ none) :
    Commanded s (s.lookUp req).1 fd ∧ ∀ i, Keeps s (s.lookUp req).1 i := by
  have hrefl : Commanded s s fd ∧ ∀ i, Keeps s s i := ⟨⟨h, hun, hopen, rfl⟩, fun _ _ hp => ⟨hp, rfl⟩⟩
  unfold State.lookUp
  split
  · exact hrefl
  · split
    · split
      · next c _ =>
        refine ⟨⟨h.append c req.name, fun i j hj => ?_, hopen, rfl⟩, keeps_append s c req.name⟩
        obtain hj | rfl := getElem_append_fresh hj
        · exact hun i j hj
        · exact fresh_owns
      · exact hrefl
    · exact hrefl

/-- A job with a pipe is not started again. -/
theorem Owned.keeps_restart (h : Owned s) (i : Nat) (a : StartAnswer) (i' : Nat) :
    Keeps s (s.onJob i (restart a)) i' := by
  have htidy : TidyAt s i (restart a) := fun j hj => tidy_restart (h.mine i j hj) a
  intro fd hp
  by_cases hne : i' = i
  · subst hne
    obtain ⟨j, hj, hfd⟩ := pipeOf_eq_some.mp hp
    have hstate := ((h.mine i' j hj).ok (by simp [hfd])).1
    have hsame : restart a s.kernel j = (s.kernel, j) := by rw [restart, if_pos hstate]
    refine ⟨pipeOf_eq_some.mpr ⟨j, ?_, hfd⟩, ?_⟩
    · rw [onJob_getElem_self hj, hsame]
    · rw [onJob_some hj, hsame]
  · obtain ⟨hpipe, hfile⟩ := h.onJob_pipe htidy hne
    exact ⟨hpipe.trans hp, hfile fd hp⟩

theorem Owned.keeps_stop (h : Owned s) {i i' : Nat} (hne : i' ≠ i) : Keeps s (s.onJob i stopJob) i' := by
  have htidy : TidyAt s i stopJob := fun j hj => tidy_stopJob (h.mine i j hj)
  intro fd hp
  obtain ⟨hpipe, hfile⟩ := h.onJob_pipe htidy hne
  exact ⟨hpipe.trans hp, hfile fd hp⟩

/-- A job with a pipe loses it when it is stopped. -/
theorem Owned.stop_pipe (h : Owned s) (hp : s.pipeOf i ≠ none) : (s.onJob i stopJob).pipeOf i = none := by
  obtain ⟨fd, hfd⟩ := Option.ne_none_iff_exists'.mp hp
  obtain ⟨j, hj, hpipe⟩ := pipeOf_eq_some.mp hfd
  have hpid := ((h.mine i j hj).ok (by simp [hpipe])).2
  have hsome : j.pid.isSome = true := Option.isSome_iff_ne_none.mpr hpid
  rw [State.pipeOf, onJob_getElem_self hj]
  simp [stopJob, hsome]

theorem command_spec (h : Owned s) (req : Request) {fd : Nat} (hun : s.Unowned fd) (hopen : s.kernel.file fd ≠ none) :
    Commanded s (s.command req) fd ∧
      ∀ i, (req.cmd = .stop → findJob s.jobs req.name ≠ some i) → Keeps s (s.command req) i := by
  have hrefl : Commanded s s fd ∧ ∀ i, Keeps s s i := ⟨⟨h, hun, hopen, rfl⟩, fun _ _ hp => ⟨hp, rfl⟩⟩
  cases hcmd : req.cmd with
  | start =>
    obtain ⟨hlook, hkeeps⟩ := lookUp_spec h req hun hopen
    unfold State.command
    rw [hcmd]
    dsimp only
    split
    · next s' i' heq =>
      rw [heq] at hlook hkeeps
      have htidy : TidyAt s' i' (restart req.start) := fun j hj => tidy_restart (hlook.owned.mine i' j hj) req.start
      have hdone := hlook.owned.command_onJob htidy hlook.unowned hlook.isOpen
      refine ⟨⟨hdone.owned, hdone.unowned, hdone.isOpen, hdone.ctl.trans hlook.ctl⟩, fun i _ => ?_⟩
      exact (hkeeps i).trans (hlook.owned.keeps_restart i' req.start i)
    · next s' heq =>
      rw [heq] at hlook hkeeps
      exact ⟨hlook, fun i _ => hkeeps i⟩
  | stop =>
    unfold State.command
    rw [hcmd]
    dsimp only
    split
    · next i' hfound =>
      have htidy : TidyAt s i' stopJob := fun j hj => tidy_stopJob (h.mine i' j hj)
      refine ⟨h.command_onJob htidy hun hopen, fun i hne => h.keeps_stop fun he => hne rfl (he ▸ hfound)⟩
    · exact ⟨hrefl.1, fun i _ => hrefl.2 i⟩
  | status =>
    unfold State.command
    rw [hcmd]
    exact ⟨hrefl.1, fun i _ => hrefl.2 i⟩
  | other =>
    unfold State.command
    rw [hcmd]
    exact ⟨hrefl.1, fun i _ => hrefl.2 i⟩

/-! ## A client -/

/-- The job that a handled command stops. -/
def State.stopped (s : State) (client : Option Client) : Option Nat :=
  (s.accepted client).bind fun c => c.request.bind fun req =>
    if req.cmd = .stop then findJob s.jobs req.name else none

theorem Owned.give (h : Owned s) {fd : Nat} (hfree : s.kernel.file fd = none) :
    Owned { s with kernel := s.kernel.give fd } ∧ State.Unowned { s with kernel := s.kernel.give fd } fd ∧
      ∀ i, Keeps s { s with kernel := s.kernel.give fd } i := by
  have hfile : ∀ a, s.kernel.file a ≠ none → (s.kernel.give fd).file a = s.kernel.file a :=
    fun a ha => give_file_ne fun he => ha (he ▸ hfree)
  have hkeep : ∀ i fd', s.pipeOf i = some fd' → (s.kernel.give fd).file fd' = s.kernel.file fd' :=
    fun i fd' hp => hfile fd' (h.open_pipe hp)
  refine ⟨⟨h.below.give fd, fun i j hj => ?_, h.apart, fun i i' a a' f hp hp' hf hf' => ?_⟩, fun i j hj ho => ?_,
    fun i a hp => ⟨hp, hkeep i a hp⟩⟩
  · obtain ⟨hopen, hapart, hok⟩ := h.mine i j hj
    refine ⟨fun a ho => ?_, hapart, hok⟩
    have ha := hopen a ho
    show (s.kernel.give fd).file a ≠ none
    rwa [hfile a ha]
  · have hf : (s.kernel.give fd).file a = some f := hf
    have hf' : (s.kernel.give fd).file a' = some f := hf'
    rw [hkeep i a hp] at hf
    rw [hkeep i' a' hp'] at hf'
    exact h.files i i' a a' f hp hp' hf hf'
  · exact (h.mine i j hj).isOpen fd ho hfree

theorem Owned.close (h : Owned s) {fd : Nat} (hun : s.Unowned fd) :
    Owned { s with kernel := s.kernel.close (some fd) } ∧ ∀ i, Keeps s { s with kernel := s.kernel.close (some fd) } i := by
  have hfile : ∀ (i : Nat) (j : Job) (a : Nat), s.jobs[i]? = some j → j.Owns a → (s.kernel.close (some fd)).file a = s.kernel.file a := by
    intro i j a hj ho
    exact close_file_ne fun he => hun i j hj (Option.some.inj he ▸ ho)
  have hkeep : ∀ i a, s.pipeOf i = some a → (s.kernel.close (some fd)).file a = s.kernel.file a := by
    intro i a hp
    obtain ⟨j, hj, hfd⟩ := pipeOf_eq_some.mp hp
    exact hfile i j a hj (.inl hfd)
  refine ⟨⟨h.below.close (some fd), fun i j hj => ?_, h.apart, fun i i' a a' f hp hp' hf hf' => ?_⟩,
    fun i a hp => ⟨hp, hkeep i a hp⟩⟩
  · obtain ⟨hopen, hapart, hok⟩ := h.mine i j hj
    refine ⟨fun a ho => ?_, hapart, hok⟩
    show (s.kernel.close (some fd)).file a ≠ none
    rw [hfile i j a hj ho]
    exact hopen a ho
  · have hf : (s.kernel.close (some fd)).file a = some f := hf
    have hf' : (s.kernel.close (some fd)).file a' = some f := hf'
    rw [hkeep i a hp] at hf
    rw [hkeep i' a' hp'] at hf'
    exact h.files i i' a a' f hp hp' hf hf'

/-- What handling a client leaves. -/
structure Served (s s' : State) (stopped : Option Nat) : Prop where
  owned : Owned s'
  ctl : s'.ctlFd = s.ctlFd
  keeps : ∀ i, stopped ≠ some i → Keeps s s' i
  loses : ∀ i, stopped = some i → s.pipeOf i ≠ none → s'.pipeOf i = none

theorem Owned.handle (h : Owned s) {c : Client} (hun : s.Unowned c.fd) (hopen : s.kernel.file c.fd ≠ none) :
    Served s (s.handleCtlClient c)
      (c.request.bind fun req => if req.cmd = .stop then findJob s.jobs req.name else none) := by
  unfold State.handleCtlClient
  cases hreq : c.request with
  | none =>
    obtain ⟨howned, hkeeps⟩ := h.close hun
    exact ⟨howned, rfl, fun i _ => hkeeps i, by simp⟩
  | some req =>
    obtain ⟨hdone, hcmd⟩ := command_spec h req hun hopen
    obtain ⟨howned, hkeeps⟩ := hdone.owned.close hdone.unowned
    refine ⟨howned, hdone.ctl, fun i hi => ?_, fun i hi hp => ?_⟩
    · refine (hcmd i fun hstop => ?_).trans (hkeeps i)
      rwa [Option.bind_some, if_pos hstop] at hi
    · rw [Option.bind_some] at hi
      split at hi
      · next hstop =>
        show (s.command req).pipeOf i = none
        rw [State.command, hstop]
        dsimp only
        rw [hi]
        exact h.stop_pipe hp
      · cases hi

theorem Owned.serve (h : Owned s) (client : Option Client) : Served s (s.serve client) (s.stopped client) := by
  unfold State.serve State.stopped
  cases hacc : s.accepted client with
  | none => exact ⟨h, rfl, fun _ _ _ hp => ⟨hp, rfl⟩, by simp⟩
  | some c =>
    have hfree : s.kernel.file c.fd = none := by
      have hcond := (Option.filter_eq_some_iff.mp hacc).2
      exact Option.isNone_iff_eq_none.mp (Bool.and_eq_true_iff.mp hcond).2
    obtain ⟨howned, hun, hkeeps⟩ := h.give hfree
    obtain ⟨howned', hctl, hkeeps', hloses⟩ := howned.handle (c := c) hun (by simp)
    exact ⟨howned', hctl, fun i hi => (hkeeps i).trans (hkeeps' i hi), hloses⟩

/-! ## The calls of a round -/

/-- A call finds the descriptor that was polled, and behind it the same pipe. -/
structure PipeCall.Right (c : PipeCall) : Prop where
  fd : c.fd = some c.polled.fd
  file : c.file = c.polled.file
  isOpen : c.file ≠ none

/-- Every call reads a pipe that was reported ready, and no pipe is read twice. -/
structure CallsRight (calls : List PipeCall) : Prop where
  right : ∀ c ∈ calls, c.Right
  once : (calls.map (·.file)).Nodup

/-- A command that is handled after the poll does not stop a job whose pipe was reported ready. -/
def StopSpares (s : State) (r : Round) : Prop :=
  ∀ i, s.stopped r.client = some i → s.pipeOf i ≠ none → r.ready i = false

theorem afterPoll_spec (h : Owned s) (r : Round) :
    Owned (s.afterPoll r).1 ∧ (CallsRight (s.afterPoll r).2 ↔ StopSpares s r) := by
  obtain ⟨howned, _, hkeeps, hloses⟩ := h.serve r.client
  have hnodup : ((s.pfds.filter (r.ready ·.job)).map (·.job)).Nodup :=
    (nodup_pfds s).sublist (filter_sublist.map _)
  obtain ⟨hcalls, hafter⟩ := pipeLoop_spec r.pipe howned hnodup
  refine ⟨hafter, ?_⟩
  rw [State.afterPoll, hcalls]
  constructor
  · intro hright i hstop hp
    by_contra hready
    obtain ⟨fd, hfd⟩ := Option.ne_none_iff_exists'.mp hp
    have hmem : (⟨i, fd, s.kernel.file fd⟩ : Polled) ∈ s.pfds.filter (r.ready ·.job) :=
      mem_filter.mpr ⟨mem_pfds.mpr ⟨hfd, rfl⟩, by simpa using hready⟩
    have hcall := (hright.right _ (mem_map_of_mem hmem)).fd
    have hnone : (s.serve r.client).pipeOf i = none := hloses i hstop hp
    rw [callOf, hnone] at hcall
    cases hcall
  · intro hspares
    have hsame : ∀ p ∈ s.pfds.filter (r.ready ·.job),
        callOf (s.serve r.client) p = ⟨p, some p.fd, s.kernel.file p.fd⟩ ∧ s.pipeOf p.job = some p.fd ∧
          p.file = s.kernel.file p.fd := by
      intro p hp
      obtain ⟨hmem, hready⟩ := mem_filter.mp hp
      obtain ⟨hfd, hfile⟩ := mem_pfds.mp hmem
      have hne : s.stopped r.client ≠ some p.job := by
        intro hstop
        have hnot := hspares p.job hstop (by simp [hfd])
        rw [hnot] at hready
        cases hready
      obtain ⟨hp', hfile'⟩ := hkeeps p.job hne p.fd hfd
      exact ⟨by rw [callOf, hp', Option.bind_some, hfile'], hfd, hfile⟩
    refine ⟨fun c hc => ?_, ?_⟩
    · obtain ⟨p, hp, rfl⟩ := mem_map.mp hc
      obtain ⟨heq, hfd, hfile⟩ := hsame p hp
      rw [heq]
      exact ⟨rfl, hfile.symm, h.open_pipe hfd⟩
    · -- two pipes with one file would belong to one job
      rw [map_map]
      refine List.Nodup.map_on (fun p hp q hq he => ?_) ((List.Nodup.of_map _ (nodup_pfds s)).filter _)
      obtain ⟨hpeq, hpfd, hpfile⟩ := hsame p hp
      obtain ⟨hqeq, hqfd, hqfile⟩ := hsame q hq
      simp only [Function.comp, hpeq, hqeq] at he
      obtain ⟨f, hf⟩ := Option.ne_none_iff_exists'.mp (h.open_pipe hpfd)
      have hjob := h.files p.job q.job p.fd q.fd f hpfd hqfd hf (he ▸ hf)
      have hfds : p.fd = q.fd := Option.some.inj ((hpfd.symm.trans (congrArg s.pipeOf hjob)).trans hqfd)
      cases p
      cases q
      simp_all

/-! ## Runs -/

/-- The state at the poll of a round, if the round gets to it. -/
def Machine.atPoll (m : Machine) (r : Round) : Option State :=
  match m.phase with
  | .startup _ =>
    let (s, starts) := startPass r.start m.init (List.range m.init.jobs.length)
    if m.init.countPending = 0 ∨ s.ctlFd = none ∧ s.pfds = [] ∧ starts = [] then none else some s
  | .service => if m.init.ctlFd = none ∧ m.init.pfds = [] then none else some m.init

theorem endRound_calls (s : State) (stall : Nat) (starts : List Start) (calls : List PipeCall) :
    (endRound s stall starts calls).calls = calls := by
  unfold endRound
  split <;> rfl

theorem next_calls (m : Machine) (r : Round) :
    (m.next r).calls = ((m.atPoll r).map fun s => (s.afterPoll r).2).getD [] := by
  unfold Machine.next Machine.atPoll
  cases m.phase with
  | startup stall =>
    dsimp only
    by_cases hnone : m.init.countPending = 0
    · rw [if_pos hnone, if_pos (.inl hnone)]
      rfl
    · rw [if_neg hnone]
      unfold startupRound
      dsimp only
      by_cases hempty : (startPass r.start m.init (List.range m.init.jobs.length)).1.ctlFd = none ∧
          (startPass r.start m.init (List.range m.init.jobs.length)).1.pfds = [] ∧
          (startPass r.start m.init (List.range m.init.jobs.length)).2 = []
      · rw [if_pos hempty, if_pos (.inr hempty)]
        rfl
      · rw [if_neg hempty, if_neg (not_or.mpr ⟨hnone, hempty⟩)]
        exact endRound_calls _ _ _ _
  | service =>
    unfold serviceRound
    dsimp only
    split <;> rfl

theorem Owned.failPending (h : Owned s) : Owned s.failPending := by
  have hold : ∀ {i : Nat} {j : Job}, s.failPending.jobs[i]? = some j → ∃ j' : Job, s.jobs[i]? = some j' ∧
      j = if j'.state = .pending then { j' with state := .failed } else j' := by
    intro i j hj
    rw [State.failPending, List.getElem?_map, Option.map_eq_some_iff] at hj
    obtain ⟨j', hj', rfl⟩ := hj
    exact ⟨j', hj', rfl⟩
  have hpipe : ∀ i, s.failPending.pipeOf i = s.pipeOf i := by
    intro i
    rw [State.pipeOf, State.failPending, List.getElem?_map]
    cases hj : s.jobs[i]? with
    | none => simp [State.pipeOf, hj]
    | some j =>
      simp only [State.pipeOf, hj, Option.map_some, Option.bind_some]
      split <;> rfl
  have howns : ∀ (j : Job) fd, (if j.state = .pending then { j with state := .failed } else j).Owns fd ↔ j.Owns fd := by
    intro j fd
    split <;> rfl
  refine ⟨h.below, fun i j hj => ?_, fun i i' j j' fd hj hj' ho ho' => ?_, fun i i' fd fd' f hp hp' => ?_⟩
  · obtain ⟨j', hj', rfl⟩ := hold hj
    obtain ⟨hopen, hapart, hok⟩ := h.mine i j' hj'
    split
    · next hpending =>
      refine ⟨hopen, hapart, fun hp => ?_⟩
      have hstate := (hok hp).1
      rw [hpending] at hstate
      simp at hstate
    · exact ⟨hopen, hapart, hok⟩
  · obtain ⟨j₁, hj₁, rfl⟩ := hold hj
    obtain ⟨j₂, hj₂, rfl⟩ := hold hj'
    exact h.apart i i' j₁ j₂ fd hj₁ hj₂ ((howns _ _).mp ho) ((howns _ _).mp ho')
  · rw [hpipe] at hp hp'
    exact h.files i i' fd fd' f hp hp'

theorem Owned.endRound (h : Owned s) (stall : Nat) (starts : List Start) (calls : List PipeCall) :
    Owned (endRound s stall starts calls).init := by
  unfold Init.endRound
  split
  · exact h.failPending
  · exact h

theorem Owned.startupRound (h : Owned s) (stall : Nat) (r : Round) : Owned (startupRound s stall r).init := by
  unfold Init.startupRound
  dsimp only
  have hpass := h.startPass r.start (List.range s.jobs.length)
  split
  · exact hpass
  · exact (afterPoll_spec hpass r).1.endRound _ _ _

theorem Owned.next {m : Machine} (h : Owned m.init) (r : Round) : Owned (m.next r).init := by
  unfold Machine.next
  cases m.phase with
  | startup stall =>
    dsimp only
    split
    · exact h
    · exact h.startupRound stall r
  | service =>
    dsimp only [serviceRound]
    split
    · exact h
    · exact (afterPoll_spec h r).1

theorem Loaded.owned (h : Loaded s) : Owned s := by
  have hfresh : ∀ {i : Nat} {j : Job}, s.jobs[i]? = some j → ∃ c name, j = Job.fresh c name :=
    fun hj => h.fresh _ (mem_of_getElem? hj)
  have hno : ∀ {i fd}, s.pipeOf i ≠ some fd := by
    intro i fd hp
    obtain ⟨j, hj, hfd⟩ := pipeOf_eq_some.mp hp
    obtain ⟨c, name, rfl⟩ := hfresh hj
    exact fresh_owns (.inl hfd)
  refine ⟨h.made, fun i j hj => ?_, fun i i' j j' fd hj _ ho _ => ?_, fun i i' fd fd' f hp => absurd hp hno⟩
  · obtain ⟨c, name, rfl⟩ := hfresh hj
    exact ⟨fun fd ho => absurd ho fresh_owns, by simp [Job.fresh], by simp [Job.PipeOk, Job.fresh]⟩
  · obtain ⟨c, name, rfl⟩ := hfresh hj
    exact absurd ho fresh_owns

/-- Init, through both loops, whatever happens in the rounds. -/
def Running : Machine → Prop := Run.Reachable Booted fun m m' => ∃ r, m' = m.next r

theorem Running.owned {m : Machine} (h : Running m) : Owned m.init :=
  h.invariant (fun m => Owned m.init) (fun _ hb => hb.loaded.owned) fun _ _ ho ⟨r, hr⟩ => hr ▸ ho.next r

theorem Running.owned_atPoll {m : Machine} (h : Running m) {r : Round} (hs : m.atPoll r = some s) : Owned s := by
  have hpass := h.owned.startPass r.start (List.range m.init.jobs.length)
  unfold Machine.atPoll at hs
  split at hs
  · dsimp only at hs
    split at hs
    · cases hs
    · exact Option.some.inj hs ▸ hpass
  · split at hs
    · cases hs
    · exact Option.some.inj hs ▸ h.owned

/-- In every round of a run the pipes are read that were reported ready, and only these, exactly
if no `stop` is handled between the poll and the calls for a job with such a pipe. -/
theorem calls_right_iff {m : Machine} (h : Running m) (r : Round) :
    CallsRight (m.next r).calls ↔ ∀ s, m.atPoll r = some s → StopSpares s r := by
  rw [next_calls]
  cases hpoll : m.atPoll r with
  | none => exact ⟨fun _ s hs => (Option.some_ne_none s hs.symm).elim, fun _ => ⟨by simp, by simp⟩⟩
  | some s =>
    obtain ⟨_, hright⟩ := afterPoll_spec (h.owned_atPoll hpoll) r
    exact hright.trans ⟨fun hs t ht => Option.some.inj ht ▸ hs, fun hs => hs s rfl⟩

theorem maxPath_pos : 0 < maxPath := by decide

theorem maxPattern_pos : 0 < maxPattern := by decide

theorem maxDepsStr_pos : 0 < maxDepsStr := by decide

/-- A daemon `/x` of the given name that depends on nothing. -/
def daemon (name : List UInt8) : Job :=
  .fresh { execLine := .cut maxPath_pos [47, 120], readyMode := .start, readyPattern := .cut maxPattern_pos []
           after := .cut maxDepsStr_pos [] } name

/-- Two daemons `a` and `b`, and the control socket at 2. -/
def twoDaemons : Machine :=
  { init := { kernel := { file := fun fd => if fd = 2 then some 0 else none, made := 1 }
              jobs := [daemon [97], daemon [98]], ctlFd := some 2 }
    phase := .startup 0, starts := [], calls := [] }

theorem twoDaemons_running : Running twoDaemons := by
  refine .start ⟨⟨fun j hj => ?_, fun fd f hf => ?_⟩, rfl, rfl, rfl⟩
  · obtain rfl | rfl : j = daemon [97] ∨ j = daemon [98] := by simpa [twoDaemons] using hj
    · exact ⟨_, _, rfl⟩
    · exact ⟨_, _, rfl⟩
  · simp only [twoDaemons, Option.ite_none_right_eq_some, Option.some.injEq] at hf
    obtain ⟨_, rfl⟩ := hf
    exact Nat.zero_lt_one

/-- Both are started, the pipe of `a` is ready, and a client stops the job of the given name. -/
def stopRound (name : List UInt8) : Round :=
  { start := fun i => { pipe := some (3 + 2 * i, 4 + 2 * i), log := none, fork := some (10 + i) }
    ready := fun i => i == 0
    client := some { fd := 20, request := some { cmd := .stop, name, file := none, start := ⟨none, none, none⟩ } }
    pipe := fun _ => { read := [120, 10], status := 0 } }

theorem calls_right_other : CallsRight (twoDaemons.next (stopRound [98])).calls := by
  refine (calls_right_iff twoDaemons_running (stopRound [98])).mpr fun s hs i hi _ => ?_
  obtain rfl := Option.some.inj hs
  obtain rfl : 1 = i := Option.some.inj hi
  rfl

/-- The pipe of `a` is gone when `process_pipe` is called for it. -/
theorem not_calls_right : ¬∀ m, Running m → ∀ r, CallsRight (m.next r).calls := by
  intro h
  have hcalls : (twoDaemons.next (stopRound [97])).calls = [⟨⟨0, 3, some 1⟩, none, none⟩] := rfl
  have hright := (h twoDaemons twoDaemons_running (stopRound [97])).right ⟨⟨0, 3, some 1⟩, none, none⟩
    (hcalls ▸ List.mem_cons_self)
  exact hright.isOpen rfl

end Serotonin.Init
