import Serotonin.Lib.Run
import Serotonin.Init.Model

/-! Whose pipe is read. Each job has its own descriptors, and a job with a pipe runs or is ready,
so it is not started again. Of the control commands only `stop` takes a pipe away; a stop of a
job whose pipe was just reported ready is what makes `process_pipe` run without it. -/

namespace Serotonin.Init

open Function

variable {k k' k'' : Kernel} {j j' j'' : Job} {s : State}

/-! ## Descriptors of a job -/

def Job.Owns (j : Job) (fd : Nat) : Prop := j.pipeFd = some fd ∨ j.logFd = some fd

/-- A job with a pipe can be stopped, and cannot be started. -/
def Job.PipeOk (j : Job) : Prop := j.pipeFd ≠ none → (j.state = .running ∨ j.state = .ready) ∧ j.pid ≠ none

def Kernel.Below (k : Kernel) : Prop := ∀ fd f, k.file fd = some f → f < k.made

structure Mine (k : Kernel) (j : Job) : Prop where
  isOpen : ∀ fd, j.Owns fd → k.file fd ≠ none
  apart : ∀ fd, j.pipeFd = some fd → j.logFd ≠ some fd
  ok : j.PipeOk

/-- A call for one job leaves alone what is open and not its own, and gives it nothing of that. -/
structure Tidy (k : Kernel) (j : Job) (k' : Kernel) (j' : Job) : Prop where
  grows : k.made ≤ k'.made
  below : k.Below → k'.Below
  others : ∀ fd, k.file fd ≠ none → ¬j.Owns fd → k'.file fd = k.file fd ∧ ¬j'.Owns fd
  pipe : ∀ fd, j'.pipeFd = some fd → (j.pipeFd = some fd ∧ k'.file fd = k.file fd) ∨
    ∀ f, k'.file fd = some f → k.made ≤ f
  mine : Mine k' j'

theorem Tidy.trans (h : Tidy k j k' j') (h' : Tidy k' j' k'' j'') : Tidy k j k'' j'' := by
  refine ⟨Nat.le_trans h.grows h'.grows, fun hb => h'.below (h.below hb), fun fd ho hn => ?_, fun fd hp => ?_, h'.mine⟩
  · obtain ⟨hsame, hown⟩ := h.others fd ho hn
    obtain ⟨hsame', hown'⟩ := h'.others fd (by rwa [hsame]) hown
    exact ⟨hsame'.trans hsame, hown'⟩
  · obtain ⟨hp', hsame'⟩ | hnew := h'.pipe fd hp
    · obtain ⟨hp'', hsame⟩ | hnew := h.pipe fd hp'
      · exact .inl ⟨hp'', hsame'.trans hsame⟩
      · exact .inr fun f hf => hnew f (hsame' ▸ hf)
    · exact .inr fun f hf => Nat.le_trans h.grows (hnew f hf)

/-- Nothing but the job's own data changes. -/
theorem Tidy.same (h : Mine k j) (hpipe : j'.pipeFd = j.pipeFd) (hlog : j'.logFd = j.logFd) (hok : j'.PipeOk) :
    Tidy k j k j' := by
  have howns : ∀ fd, j'.Owns fd ↔ j.Owns fd := by
    intro fd
    unfold Job.Owns
    rw [hpipe, hlog]
  refine ⟨Nat.le_refl _, id, fun fd _ hn => ⟨rfl, mt (howns fd).mp hn⟩, fun fd hp => .inl ⟨hpipe ▸ hp, rfl⟩, ?_⟩
  exact ⟨fun fd ho => h.isOpen fd ((howns fd).mp ho), fun fd hp => hlog ▸ h.apart fd (hpipe ▸ hp), hok⟩

/-! ## The calls of the kernel -/

theorem close_file_ne {fd : Option Nat} {a : Nat} (h : fd ≠ some a) : (k.close fd).file a = k.file a := by
  cases fd with
  | none => rfl
  | some fd => exact update_of_ne (fun he => h (congrArg some he.symm)) _ _

@[simp] theorem close_file_self (k : Kernel) (fd : Nat) : (k.close (some fd)).file fd = none :=
  update_self ..

@[simp] theorem close_made (k : Kernel) (fd : Option Nat) : (k.close fd).made = k.made := by
  cases fd <;> rfl

theorem Kernel.Below.close (h : k.Below) (fd : Option Nat) : (k.close fd).Below := by
  intro a f hf
  rw [close_made]
  by_cases ha : fd = some a
  · rw [ha, close_file_self] at hf
    cases hf
  · rw [close_file_ne ha] at hf
    exact h a f hf

@[simp] theorem give_file_self (k : Kernel) (fd : Nat) : (k.give fd).file fd = some k.made :=
  update_self ..

theorem give_file_ne {fd a : Nat} (h : a ≠ fd) : (k.give fd).file a = k.file a := update_of_ne h _ _

theorem Kernel.Below.give (h : k.Below) (fd : Nat) : (k.give fd).Below := by
  intro a f hf
  by_cases ha : a = fd
  · rw [ha, give_file_self] at hf
    exact Option.some.inj hf ▸ Nat.lt_succ_self _
  · rw [give_file_ne ha] at hf
    exact Nat.lt_succ_of_lt (h a f hf)

/-- What a call leaves that opens at most the descriptor it returns. -/
theorem opened_spec (k : Kernel) (fd? : Option Nat) :
    k.made ≤ (k.opened fd?).1.made ∧ (k.Below → (k.opened fd?).1.Below) ∧
      (∀ a, k.file a ≠ none → (k.opened fd?).1.file a = k.file a ∧ (k.opened fd?).2 ≠ some a) ∧
      ∀ a, (k.opened fd?).2 = some a → (k.opened fd?).1.file a ≠ none := by
  unfold Kernel.opened
  split
  · exact ⟨Nat.le_refl _, id, fun a _ => ⟨rfl, by simp⟩, by simp⟩
  · next fd =>
    split
    · next hnone =>
      refine ⟨Nat.le_succ _, fun h => h.give fd, fun a ha => ?_, fun a ha => ?_⟩
      · have hne : a ≠ fd := fun he => ha (he ▸ hnone)
        exact ⟨give_file_ne hne, fun he => hne (Option.some.inj he).symm⟩
      · rw [← Option.some.inj ha, give_file_self]
        simp
    · exact ⟨Nat.le_refl _, id, fun a _ => ⟨rfl, by simp⟩, by simp⟩

/-- The two ends of a new pipe. -/
theorem pipe_spec {a : Option (Nat × Nat)} {r w : Nat} (h : k.pipe a = some (k', r, w)) :
    k.file r = none ∧ k.file w = none ∧ r ≠ w ∧ k.made ≤ k'.made ∧ (k.Below → k'.Below) ∧
      k'.file r = some k.made ∧ k'.file w ≠ none ∧ ∀ fd, fd ≠ r → fd ≠ w → k'.file fd = k.file fd := by
  unfold Kernel.pipe at h
  split at h
  · cases h
  · next r' w' =>
    split at h
    · next hfree =>
      obtain ⟨hr, hw, hne⟩ := hfree
      cases h
      refine ⟨hr, hw, hne, Nat.le_add_right k.made 2, fun hb => (hb.give _).give _, ?_, ?_, fun fd h1 h2 => ?_⟩
      · rw [give_file_ne hne, give_file_self]
      · rw [give_file_self]
        simp
      · rw [give_file_ne h2, give_file_ne h1]
    · cases h

/-! ## The functions on one job -/

theorem Tidy.closeBoth (hpipe : j'.pipeFd = none) (hlog : j'.logFd = none) :
    Tidy k j ((k.close j.pipeFd).close j.logFd) j' := by
  have hno : ∀ fd, ¬j'.Owns fd := by
    intro fd ho
    rw [Job.Owns, hpipe, hlog] at ho
    simp at ho
  refine ⟨by simp, fun hb => (hb.close _).close _, fun fd _ hn => ⟨?_, hno fd⟩, ?_, fun fd ho => absurd ho (hno fd), ?_, ?_⟩
  · obtain ⟨hp, hl⟩ := not_or.mp hn
    rw [close_file_ne hl, close_file_ne hp]
  · simp [hpipe]
  · simp [hpipe]
  · simp [Job.PipeOk, hpipe]

/-- The descriptors after the pipe and the log are opened for a job. -/
structure Made (k k' : Kernel) (r w : Nat) (log : Option Nat) : Prop where
  grows : k.made ≤ k'.made
  below : k.Below → k'.Below
  fresh : ∀ fd, k.file fd ≠ none → fd ≠ r ∧ fd ≠ w ∧ log ≠ some fd ∧ k'.file fd = k.file fd
  pipe : k'.file r = some k.made
  log : ∀ fd, log = some fd → fd ≠ r ∧ fd ≠ w ∧ k'.file fd ≠ none
  ends : r ≠ w

theorem made_of_pipe {a : Option (Nat × Nat)} {r w : Nat} (h : k.pipe a = some (k', r, w)) (log : Option Nat) :
    Made k (k'.opened log).1 r w (k'.opened log).2 := by
  obtain ⟨hr, hw, hne, hgrow, hbelow, hpipe, hwrite, hother⟩ := pipe_spec h
  obtain ⟨hgrow', hbelow', hother', hnew⟩ := opened_spec k' log
  have hread : k'.file r ≠ none := by simp [hpipe]
  refine ⟨Nat.le_trans hgrow hgrow', fun hb => hbelow' (hbelow hb), fun fd ho => ?_, ?_, fun fd hl => ?_, hne⟩
  · have h1 : fd ≠ r := fun he => ho (he ▸ hr)
    have h2 : fd ≠ w := fun he => ho (he ▸ hw)
    have hsame := hother fd h1 h2
    obtain ⟨hfile, hlog⟩ := hother' fd (by rwa [hsame])
    exact ⟨h1, h2, hlog, hfile.trans hsame⟩
  · rw [(hother' r hread).1, hpipe]
  · refine ⟨fun he => (hother' r hread).2 (he ▸ hl), fun he => (hother' w hwrite).2 (he ▸ hl), hnew fd hl⟩

/-- The start failed after the pipe was made. -/
theorem Made.dropped {r w : Nat} {log : Option Nat} (h : Made k k' r w log) (hp : j'.pipeFd = none)
    (hl : j'.logFd = log) : Tidy k j ((k'.close (some r)).close (some w)) j' := by
  have hfile : ∀ fd, fd ≠ r → fd ≠ w → ((k'.close (some r)).close (some w)).file fd = k'.file fd := by
    intro fd h1 h2
    rw [close_file_ne (by simpa using h2.symm), close_file_ne (by simpa using h1.symm)]
  refine ⟨by simpa using h.grows, fun hb => ((h.below hb).close _).close _, fun fd ho _ => ?_, by simp [hp], ?_⟩
  · obtain ⟨h1, h2, hlog, hsame⟩ := h.fresh fd ho
    exact ⟨(hfile fd h1 h2).trans hsame, by simp [Job.Owns, hp, hl, hlog]⟩
  · refine ⟨fun fd ho => ?_, by simp [hp], by simp [Job.PipeOk, hp]⟩
    rw [Job.Owns, hp, hl] at ho
    obtain ⟨h1, h2, hopen⟩ := h.log fd (ho.resolve_left (by simp))
    rwa [hfile fd h1 h2]

theorem Made.taken {r w : Nat} {log : Option Nat} (h : Made k k' r w log) (hp : j'.pipeFd = some r)
    (hl : j'.logFd = log) (hok : j'.PipeOk) : Tidy k j (k'.close (some w)) j' := by
  have hfile : ∀ fd, fd ≠ w → (k'.close (some w)).file fd = k'.file fd :=
    fun fd h2 => close_file_ne (by simpa using h2.symm)
  refine ⟨by simpa using h.grows, fun hb => (h.below hb).close _, fun fd ho _ => ?_, fun fd hpipe => .inr ?_, ?_⟩
  · obtain ⟨h1, h2, hlog, hsame⟩ := h.fresh fd ho
    exact ⟨(hfile fd h2).trans hsame, by simp [Job.Owns, hp, hl, hlog, h1.symm]⟩
  · intro f hf
    rw [hp] at hpipe
    rw [← Option.some.inj hpipe, hfile r h.ends, h.pipe] at hf
    exact Nat.le_of_eq (Option.some.inj hf)
  · refine ⟨fun fd ho => ?_, fun fd hpipe hlog => ?_, hok⟩
    · rw [Job.Owns, hp, hl] at ho
      obtain he | hlog := ho
      · rw [← Option.some.inj he, hfile r h.ends, h.pipe]
        simp
      · obtain ⟨_, h2, hopen⟩ := h.log fd hlog
        rwa [hfile fd h2]
    · rw [hp] at hpipe
      rw [hl] at hlog
      exact (h.log fd hlog).1 (Option.some.inj hpipe).symm

theorem tidy_startJob (h : Mine k j) (hnone : j.pipeFd = none) (a : StartAnswer) :
    Tidy k j (startJob k j a).1 (startJob k j a).2 := by
  unfold startJob
  split
  · exact .same h rfl rfl (by simp [Job.PipeOk, hnone])
  · next k' r w hpipe =>
    have hmade := made_of_pipe hpipe a.log
    dsimp only
    split
    · exact hmade.dropped hnone rfl
    · split
      · exact hmade.dropped hnone rfl
      · refine hmade.taken rfl rfl fun _ => ⟨?_, by simp⟩
        dsimp only
        split
        · exact .inr rfl
        · exact .inl rfl

/-- A job that has a pipe is not started again. -/
theorem tidy_restart (h : Mine k j) (a : StartAnswer) : Tidy k j (restart a k j).1 (restart a k j).2 := by
  unfold restart
  split
  · exact .same h rfl rfl h.ok
  · have hclosed : Tidy k j ((k.close j.pipeFd).close j.logFd)
        { j with state := .pending, pid := none, pipeFd := none, logFd := none, lineBuf := noLine, lastLog := [] } :=
      .closeBoth rfl rfl
    exact hclosed.trans (tidy_startJob hclosed.mine rfl a)

theorem tidy_stopJob (h : Mine k j) : Tidy k j (stopJob k j).1 (stopJob k j).2 := by
  unfold stopJob
  split
  · exact .closeBoth rfl rfl
  · exact .same h rfl rfl h.ok

theorem hangUp_pipeFd (j : Job) (status : Int) : (hangUp j status).pipeFd = none := by
  unfold hangUp
  dsimp only
  split
  · cases j.readyMode <;> rfl
  · rfl

theorem hangUp_logFd (j : Job) (status : Int) : (hangUp j status).logFd = j.logFd := by
  unfold hangUp
  dsimp only
  split
  · cases j.readyMode <;> rfl
  · rfl

/-- What output can change of a job. -/
structure SameJob (j j' : Job) : Prop where
  pipe : j'.pipeFd = j.pipeFd
  log : j'.logFd = j.logFd
  pid : j'.pid = j.pid
  state : j'.state = j.state ∨ j.state = .running ∧ j'.state = .ready

theorem sameJob_feed (j : Job) (c : UInt8) : SameJob j (feed j c).1 := by
  unfold feed endLine report
  split
  · refine ⟨rfl, rfl, rfl, ?_⟩
    dsimp only
    split
    · next h => exact .inr ⟨h.1, rfl⟩
    · exact .inl rfl
  · exact ⟨rfl, rfl, rfl, .inl rfl⟩

theorem SameJob.trans (h : SameJob j j') (h' : SameJob j' j'') : SameJob j j'' := by
  refine ⟨h'.pipe.trans h.pipe, h'.log.trans h.log, h'.pid.trans h.pid, ?_⟩
  obtain he | ⟨hrun, hready⟩ := h.state
  · rw [← he]
    exact h'.state
  · obtain he | ⟨hrun', _⟩ := h'.state
    · exact .inr ⟨hrun, he.trans hready⟩
    · rw [hready] at hrun'
      cases hrun'

theorem sameJob_feedAll (j : Job) (xs : List UInt8) : SameJob j (feedAll j xs).1 := by
  induction xs generalizing j with
  | nil => exact ⟨rfl, rfl, rfl, .inl rfl⟩
  | cons x xs ih => exact (sameJob_feed j x).trans (ih _)

theorem SameJob.pipeOk (h : SameJob j j') (hok : j.PipeOk) : j'.PipeOk := by
  intro hp
  rw [h.pipe] at hp
  obtain ⟨hstate, hpid⟩ := hok hp
  rw [h.pid]
  obtain he | ⟨_, hready⟩ := h.state
  · exact ⟨he ▸ hstate, hpid⟩
  · exact ⟨.inr hready, hpid⟩

theorem tidy_hangUp (h : Mine k j) (status : Int) : Tidy k j (k.close j.pipeFd) (hangUp j status) := by
  have hp := hangUp_pipeFd j status
  have hl := hangUp_logFd j status
  have hown : ∀ fd, (hangUp j status).Owns fd → j.logFd = some fd ∧ j.pipeFd ≠ some fd := by
    intro fd ho
    rw [Job.Owns, hp, hl] at ho
    have hlog := ho.resolve_left (by simp)
    exact ⟨hlog, fun hpipe => h.apart fd hpipe hlog⟩
  refine ⟨by simp, fun hb => hb.close _, fun fd _ hn => ?_, by simp [hp], ?_⟩
  · exact ⟨close_file_ne fun he => hn (.inl he), fun ho => hn (.inr (hown fd ho).1)⟩
  · refine ⟨fun fd ho => ?_, by simp [hp], by simp [Job.PipeOk, hp]⟩
    obtain ⟨hlog, hne⟩ := hown fd ho
    rw [close_file_ne hne]
    exact h.isOpen fd (.inr hlog)

theorem tidy_processPipe (h : Mine k j) (a : PipeAnswer) : Tidy k j (processPipe k j a).1 (processPipe k j a).2 := by
  unfold processPipe
  split
  · exact tidy_hangUp h a.status
  · have hsame := sameJob_feedAll j (bytesRead j a)
    exact .same h hsame.pipe hsame.log (hsame.pipeOk h.ok)

/-! ## The table -/

/-- No descriptor belongs to two jobs, and no pipe is behind two descriptors of jobs. -/
structure Owned (s : State) : Prop where
  below : s.kernel.Below
  mine : ∀ (i : Nat) (j : Job), s.jobs[i]? = some j → Mine s.kernel j
  apart : ∀ (i i' : Nat) (j j' : Job) (fd : Nat), s.jobs[i]? = some j → s.jobs[i']? = some j' → j.Owns fd → j'.Owns fd → i = i'
  files : ∀ i i' fd fd' f, s.pipeOf i = some fd → s.pipeOf i' = some fd' → s.kernel.file fd = some f →
    s.kernel.file fd' = some f → i = i'

theorem pipeOf_eq_some {i fd : Nat} : s.pipeOf i = some fd ↔ ∃ j, s.jobs[i]? = some j ∧ j.pipeFd = some fd :=
  Option.bind_eq_some_iff

theorem Owned.open_pipe (h : Owned s) {i fd : Nat} (hp : s.pipeOf i = some fd) : s.kernel.file fd ≠ none := by
  obtain ⟨j, hj, hfd⟩ := pipeOf_eq_some.mp hp
  exact (h.mine i j hj).isOpen fd (.inl hfd)

/-- A call that is tidy on its job. -/
def TidyAt (s : State) (i : Nat) (f : Kernel → Job → Kernel × Job) : Prop :=
  ∀ j, s.jobs[i]? = some j → Tidy s.kernel j (f s.kernel j).1 (f s.kernel j).2

variable {i i' : Nat} {f : Kernel → Job → Kernel × Job}

theorem onJob_none (h : s.jobs[i]? = none) : s.onJob i f = s := by simp [State.onJob, h]

theorem onJob_some (h : s.jobs[i]? = some j) :
    s.onJob i f = { s with kernel := (f s.kernel j).1, jobs := s.jobs.set i (f s.kernel j).2 } := by
  simp [State.onJob, h]

theorem onJob_getElem_ne (h : i' ≠ i) : (s.onJob i f).jobs[i']? = s.jobs[i']? := by
  unfold State.onJob
  split
  · rfl
  · exact List.getElem?_set_ne h.symm

theorem onJob_getElem_self (h : s.jobs[i]? = some j) : (s.onJob i f).jobs[i]? = some (f s.kernel j).2 := by
  obtain ⟨hlt, _⟩ := List.getElem?_eq_some_iff.mp h
  rw [onJob_some h]
  exact List.getElem?_set_self hlt

@[simp] theorem onJob_ctlFd : (s.onJob i f).ctlFd = s.ctlFd := by
  unfold State.onJob
  split <;> rfl

/-- A pipe of another job stays what it is. -/
theorem Owned.onJob_pipe (h : Owned s) (hf : TidyAt s i f) (hne : i' ≠ i) :
    (s.onJob i f).pipeOf i' = s.pipeOf i' ∧
      ∀ fd, s.pipeOf i' = some fd → (s.onJob i f).kernel.file fd = s.kernel.file fd := by
  refine ⟨by rw [State.pipeOf, onJob_getElem_ne hne]; rfl, fun fd hp => ?_⟩
  cases hj : s.jobs[i]? with
  | none => rw [onJob_none hj]
  | some j =>
    rw [onJob_some hj]
    refine ((hf j hj).others fd (h.open_pipe hp) fun ho => ?_).1
    obtain ⟨j', hj', hfd⟩ := pipeOf_eq_some.mp hp
    exact hne (h.apart i' i j' j fd hj' hj (.inl hfd) ho)

theorem Owned.onJob (h : Owned s) (hf : TidyAt s i f) : Owned (s.onJob i f) := by
  cases hj : s.jobs[i]? with
  | none => rwa [onJob_none hj]
  | some j =>
    have htidy := hf j hj
    have hkernel : (s.onJob i f).kernel = (f s.kernel j).1 := by rw [onJob_some hj]
    have hself := onJob_getElem_self (f := f) hj
    have hsame : ∀ (i' : Nat) (j' : Job) (fd : Nat), i' ≠ i → s.jobs[i']? = some j' → j'.Owns fd →
        (f s.kernel j).1.file fd = s.kernel.file fd ∧ ¬(f s.kernel j).2.Owns fd := by
      intro i' j' fd hne hj' ho
      exact htidy.others fd ((h.mine i' j' hj').isOpen fd ho) fun hown => hne (h.apart i' i j' j fd hj' hj ho hown)
    have hold : ∀ i' fd fd' g, i' ≠ i → (s.onJob i f).pipeOf i = some fd → s.pipeOf i' = some fd' →
        (f s.kernel j).1.file fd = some g → s.kernel.file fd' ≠ some g := by
      intro i' fd fd' g hne hp hp' hg hg'
      rw [State.pipeOf, hself] at hp
      obtain ⟨hp, hfile⟩ | hnew := htidy.pipe fd hp
      · rw [hfile] at hg
        exact hne (h.files i' i fd' fd g hp' (pipeOf_eq_some.mpr ⟨j, hj, hp⟩) hg' hg)
      · have hlt := h.below fd' g hg'
        exact absurd (hnew g hg) (by omega)
    refine ⟨by rw [hkernel]; exact htidy.below h.below, fun i' j' hj' => ?_, fun i₁ i₂ j₁ j₂ fd h₁ h₂ ho₁ ho₂ => ?_,
      fun i₁ i₂ fd fd' g h₁ h₂ hg hg' => ?_⟩
    · rw [hkernel]
      by_cases hne : i' = i
      · subst hne
        rw [hself] at hj'
        exact Option.some.inj hj' ▸ htidy.mine
      · rw [onJob_getElem_ne hne] at hj'
        obtain ⟨hopen, hapart, hok⟩ := h.mine i' j' hj'
        exact ⟨fun fd ho => by rw [(hsame i' j' fd hne hj' ho).1]; exact hopen fd ho, hapart, hok⟩
    · by_cases hi₁ : i₁ = i
      · by_cases hi₂ : i₂ = i
        · rw [hi₁, hi₂]
        · rw [hi₁, hself] at h₁
          rw [onJob_getElem_ne hi₂] at h₂
          exact absurd (Option.some.inj h₁ ▸ ho₁) (hsame i₂ j₂ fd hi₂ h₂ ho₂).2
      · rw [onJob_getElem_ne hi₁] at h₁
        by_cases hi₂ : i₂ = i
        · rw [hi₂, hself] at h₂
          exact absurd (Option.some.inj h₂ ▸ ho₂) (hsame i₁ j₁ fd hi₁ h₁ ho₁).2
        · rw [onJob_getElem_ne hi₂] at h₂
          exact h.apart i₁ i₂ j₁ j₂ fd h₁ h₂ ho₁ ho₂
    · by_cases hi₁ : i₁ = i
      · by_cases hi₂ : i₂ = i
        · rw [hi₁, hi₂]
        · obtain ⟨hp₂, hfile₂⟩ := h.onJob_pipe hf hi₂
          rw [hp₂] at h₂
          rw [hfile₂ fd' h₂] at hg'
          rw [hi₁] at h₁
          rw [hkernel] at hg
          exact absurd hg' (hold i₂ fd fd' g hi₂ h₁ h₂ hg)
      · obtain ⟨hp₁, hfile₁⟩ := h.onJob_pipe hf hi₁
        rw [hp₁] at h₁
        rw [hfile₁ fd h₁] at hg
        by_cases hi₂ : i₂ = i
        · rw [hi₂] at h₂
          rw [hkernel] at hg'
          exact absurd hg (hold i₁ fd' fd g hi₁ h₂ h₁ hg')
        · obtain ⟨hp₂, hfile₂⟩ := h.onJob_pipe hf hi₂
          rw [hp₂] at h₂
          rw [hfile₂ fd' h₂] at hg'
          exact h.files i₁ i₂ fd fd' g h₁ h₂ hg hg'

end Serotonin.Init
