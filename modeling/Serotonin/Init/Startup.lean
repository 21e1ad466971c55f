import Serotonin.Lib.Run
import Serotonin.Lib.Walks
import Serotonin.Init.Deps
import Serotonin.Init.Rounds

/-! Starting the jobs. Without control commands a job is pending until it is started and never
after, so it is started once. The loop ends when no job is left that could go on: what is pending
then waits for a pending or a failed job. -/

namespace Serotonin.Init

open Relation

variable {s s' : State} {starts : List Start} {j : Job} {i : Nat}

/-! ## One job -/

/-- A job that runs has a pipe, and was not ready at once. -/
def Job.RunOk (j : Job) : Prop := j.state = .running → j.pipeFd ≠ none ∧ j.readyMode ≠ .start

/-- What a call other than a start can change of a job. -/
structure Goes (j j' : Job) : Prop where
  face : j'.face = j.face
  state : j.state ≠ .running → j'.state = j.state
  pending : j'.state = .pending → j.state = .pending
  run : j.RunOk → j'.RunOk

theorem Goes.trans {j' j'' : Job} (h : Goes j j') (h' : Goes j' j'') : Goes j j'' := by
  refine ⟨h'.face.trans h.face, fun hs => ?_, fun hp => h.pending (h'.pending hp), fun hr => h'.run (h.run hr)⟩
  have hs' := h.state hs
  rw [h'.state (by rwa [hs']), hs']

theorem goes_feed (j : Job) (c : UInt8) : Goes j (feed j c).1 := by
  unfold feed
  split
  · unfold endLine report
    dsimp only
    split
    · next hin =>
      exact ⟨rfl, fun hs => absurd hin.1 hs, fun hp => (JobState.noConfusion hp), fun _ hr => (JobState.noConfusion hr)⟩
    · exact ⟨rfl, fun _ => rfl, id, id⟩
  · exact ⟨rfl, fun _ => rfl, id, id⟩

theorem goes_feedAll (j : Job) (xs : List UInt8) : Goes j (feedAll j xs).1 := by
  induction xs generalizing j with
  | nil => exact ⟨rfl, fun _ => rfl, id, id⟩
  | cons x xs ih => exact (goes_feed j x).trans (ih _)

theorem goes_hangUp (hrun : j.RunOk) (status : Int) : Goes j (hangUp j status) := by
  unfold hangUp
  dsimp only
  split
  · next hs =>
    have hmode := (hrun hs).2
    cases hm : j.readyMode with
    | start => exact absurd hm hmode
    | stdout => exact ⟨rfl, fun h => absurd hs h, fun hp => JobState.noConfusion hp, fun _ hr => JobState.noConfusion hr⟩
    | exit =>
      have hdone : ∀ st : Int, (if st = 0 then JobState.exited else .failed) ≠ .pending ∧
          (if st = 0 then JobState.exited else .failed) ≠ .running := by
        intro st
        by_cases hst : st = 0 <;> simp [hst]
      exact ⟨rfl, fun h => absurd hs h, fun hp => absurd hp (hdone _).1, fun _ hr => absurd hr (hdone _).2⟩
  · next hs => exact ⟨rfl, fun _ => rfl, id, fun _ hr => absurd hr hs⟩

theorem goes_processPipe (k : Kernel) (hrun : j.RunOk) (a : PipeAnswer) : Goes j (processPipe k j a).2 := by
  unfold processPipe
  split
  · exact goes_hangUp hrun a.status
  · exact goes_feedAll j _

/-- A job that was started is not pending any more. -/
structure Started (j j' : Job) : Prop where
  face : j'.face = j.face
  state : j'.state ≠ .pending
  run : j'.RunOk

theorem started_startJob (k : Kernel) (j : Job) (a : StartAnswer) : Started j (startJob k j a).2 := by
  unfold startJob
  split
  · exact ⟨rfl, by simp, by simp [Job.RunOk]⟩
  · dsimp only
    split
    · exact ⟨rfl, by simp, by simp [Job.RunOk]⟩
    · split
      · exact ⟨rfl, by simp, by simp [Job.RunOk]⟩
      · refine ⟨rfl, ?_, fun hr => ⟨by simp, fun hm => ?_⟩⟩
        · dsimp only
          split <;> simp
        · dsimp only at hr hm
          rw [if_pos hm] at hr
          cases hr

/-! ## The table -/

/-- When a job was started, the jobs it lists were done. -/
def Start.Ready (e : Start) : Prop :=
  ∀ k, DependsOn e.table e.job k → ∀ d, e.table[k]? = some d → d.state = .ready ∨ d.state = .exited

/-- The starts so far, and the table after them. -/
structure StartsOk (s : State) (starts : List Start) : Prop where
  once : (starts.map (·.job)).Nodup
  ready : ∀ e ∈ starts, e.Ready
  pending : ∀ (i : Nat) (j : Job), s.jobs[i]? = some j → (j.state = .pending ↔ i ∉ starts.map (·.job))
  run : ∀ j ∈ s.jobs, j.RunOk

theorem set_face {jobs : List Job} {j j' : Job} (hj : jobs[i]? = some j) (hface : j'.face = j.face) :
    (jobs.set i j').map Job.face = jobs.map Job.face := by
  rw [List.map_set, hface]
  refine List.ext_getElem? fun n => ?_
  by_cases hn : i = n
  · subst hn
    have hlt := (List.getElem?_eq_some_iff.mp hj).1
    rw [List.getElem?_set_self (by simpa using hlt), List.getElem?_map, hj]
    rfl
  · rw [List.getElem?_set_ne hn]

theorem onJob_eq {f : Kernel → Job → Kernel × Job} (hj : s.jobs[i]? = some j) :
    (s.onJob i f).jobs = s.jobs.set i (f s.kernel j).2 := by simp [State.onJob, hj]

/-- A table in which calls other than starts were made. -/
structure Went (s s' : State) : Prop where
  face : s'.jobs.map Job.face = s.jobs.map Job.face
  ok : ∀ starts, StartsOk s starts → StartsOk s' starts
  idle : s.anyRunning = false → s'.jobs.map (·.state) = s.jobs.map (·.state)

theorem Went.refl (s : State) : Went s s := ⟨rfl, fun _ h => h, fun _ => rfl⟩

theorem anyRunning_eq_false : s.anyRunning = false ↔ ∀ j ∈ s.jobs, j.state ≠ .running := by
  simp [State.anyRunning]

theorem anyRunning_of_states (h : s'.jobs.map (·.state) = s.jobs.map (·.state)) : s'.anyRunning = s.anyRunning := by
  have hany : ∀ s : State, s.anyRunning = (s.jobs.map (·.state)).any (· == .running) := by
    intro s
    rw [List.any_map]
    rfl
  rw [hany, hany, h]

theorem Went.trans {s'' : State} (h : Went s s') (h' : Went s' s'') : Went s s'' := by
  refine ⟨h'.face.trans h.face, fun st hs => h'.ok st (h.ok st hs), fun hidle => ?_⟩
  have hstates := h.idle hidle
  exact (h'.idle (by rw [anyRunning_of_states hstates]; exact hidle)).trans hstates

theorem went_onJob {f : Kernel → Job → Kernel × Job}
    (hf : ∀ j, s.jobs[i]? = some j → Goes j (f s.kernel j).2) : Went s (s.onJob i f) := by
  cases hj : s.jobs[i]? with
  | none =>
    have hsame : s.onJob i f = s := by simp [State.onJob, hj]
    rw [hsame]
    exact .refl s
  | some j =>
    have hgoes := hf j hj
    have hlt := (List.getElem?_eq_some_iff.mp hj).1
    have hjobs := onJob_eq (f := f) hj
    refine ⟨by rw [hjobs]; exact set_face hj hgoes.face, fun starts h => ⟨h.once, h.ready, fun n jn hn => ?_, fun jn hn => ?_⟩,
      fun hidle => ?_⟩
    · rw [hjobs] at hn
      by_cases hni : i = n
      · subst hni
        rw [List.getElem?_set_self hlt] at hn
        obtain rfl := Option.some.inj hn
        rw [← h.pending i j hj]
        exact ⟨hgoes.pending, fun hp => (hgoes.state (by simp [hp])).trans hp⟩
      · rw [List.getElem?_set_ne hni] at hn
        exact h.pending n jn hn
    · rw [hjobs] at hn
      obtain hn | rfl := List.mem_or_eq_of_mem_set hn
      · exact h.run jn hn
      · exact hgoes.run (h.run j (List.mem_of_getElem? hj))
    · have hnot := anyRunning_eq_false.mp hidle j (List.mem_of_getElem? hj)
      rw [hjobs, List.map_set, hgoes.state hnot]
      refine List.ext_getElem? fun n => ?_
      by_cases hni : i = n
      · subst hni
        rw [List.getElem?_set_self (by simpa using hlt), List.getElem?_map, hj]
        rfl
      · rw [List.getElem?_set_ne hni]

theorem went_pipeLoop (answer : Nat → PipeAnswer) (ps : List Polled) (h : ∀ j ∈ s.jobs, j.RunOk) :
    Went s (pipeLoop answer s ps).1 := by
  induction ps generalizing s with
  | nil => exact .refl s
  | cons p ps ih =>
    have hwent : Went s (s.onJob p.job fun k j => processPipe k j (answer p.job)) :=
      went_onJob fun j hj => goes_processPipe s.kernel (h j (List.mem_of_getElem? hj)) (answer p.job)
    have hrun : ∀ j ∈ (s.onJob p.job fun k j => processPipe k j (answer p.job)).jobs, j.RunOk := by
      intro j hj
      cases hold : s.jobs[p.job]? with
      | none => exact h j (by simpa [State.onJob, hold] using hj)
      | some old =>
        rw [onJob_eq hold] at hj
        have hgoes := goes_processPipe s.kernel (h old (List.mem_of_getElem? hold)) (answer p.job)
        obtain hj | rfl := List.mem_or_eq_of_mem_set hj
        · exact h j hj
        · exact hgoes.run (h old (List.mem_of_getElem? hold))
    exact hwent.trans (ih hrun)

/-- Without a client a round makes no other calls. -/
theorem went_afterPoll {r : Round} (hquiet : r.client = none) (h : ∀ j ∈ s.jobs, j.RunOk) : Went s (s.afterPoll r).1 := by
  have hserve : s.serve r.client = s := by simp [State.serve, State.accepted, hquiet]
  rw [State.afterPoll, hserve]
  exact went_pipeLoop r.pipe _ h

/-! ## The start pass -/

theorem ready_of_depsSatisfied (hj : s.jobs[i]? = some j) (hdeps : depsSatisfied s.jobs j = true) :
    (⟨i, s.jobs⟩ : Start).Ready := by
  intro k hdep d hd
  by_contra hnot
  rw [not_or] at hnot
  have hblocked := (blocked_iff hj).mp ⟨k, hdep, d, hd, hnot.1, hnot.2⟩
  rw [hdeps] at hblocked
  cases hblocked

/-- One job of the pass is started. -/
theorem StartsOk.start (h : StartsOk s starts) (hj : s.jobs[i]? = some j) (hpending : j.state = .pending)
    (hdeps : depsSatisfied s.jobs j = true) (a : StartAnswer) :
    StartsOk (s.onJob i fun k j => startJob k j a) (starts ++ [⟨i, s.jobs⟩]) := by
  have hstarted := started_startJob s.kernel j a
  have hnew : i ∉ starts.map (·.job) := (h.pending i j hj).mp hpending
  have hlt := (List.getElem?_eq_some_iff.mp hj).1
  have hjobs := onJob_eq (f := fun k j => startJob k j a) hj
  refine ⟨?_, fun e he => ?_, fun n jn hn => ?_, fun jn hn => ?_⟩
  · rw [List.map_append]
    refine List.nodup_append.mpr ⟨h.once, List.nodup_singleton _, fun x hx y hy hxy => hnew ?_⟩
    obtain rfl := List.mem_singleton.mp hy
    exact hxy ▸ hx
  · obtain he | he := List.mem_append.mp he
    · exact h.ready e he
    · rw [List.mem_singleton.mp he]
      exact ready_of_depsSatisfied hj hdeps
  · rw [hjobs] at hn
    by_cases hni : i = n
    · subst hni
      rw [List.getElem?_set_self hlt] at hn
      obtain rfl := Option.some.inj hn
      simp [hstarted.state]
    · rw [List.getElem?_set_ne hni] at hn
      rw [h.pending n jn hn]
      simp [Ne.symm hni]
  · rw [hjobs] at hn
    obtain hn | rfl := List.mem_or_eq_of_mem_set hn
    · exact h.run jn hn
    · exact hstarted.run

/-- A pass starts jobs that can be started; if there are none it changes nothing. -/
theorem startPass_spec (answer : Nat → StartAnswer) (is : List Nat) (h : StartsOk s starts) :
    StartsOk (startPass answer s is).1 (starts ++ (startPass answer s is).2) ∧
      ((startPass answer s is).2 = [] → (startPass answer s is).1 = s ∧
        ∀ i ∈ is, ∀ j, s.jobs[i]? = some j → j.state = .pending → Blocked s.jobs i) := by
  induction is generalizing s starts with
  | nil => exact ⟨by simpa [startPass] using h, fun _ => ⟨rfl, by simp⟩⟩
  | cons i is ih =>
    rw [startPass]
    split
    · next hgo =>
      obtain ⟨j, hj, hgo⟩ := (Option.any_eq_true _ _).mp hgo
      obtain ⟨hpending, hdeps⟩ := Bool.and_eq_true_iff.mp hgo
      have hok := h.start hj (by simpa using hpending) hdeps (answer i)
      refine ⟨?_, fun hnil => by cases hnil⟩
      have hrest := (ih hok).1
      rwa [List.append_assoc] at hrest
    · next hstay =>
      obtain ⟨hok, hnone⟩ := ih h
      refine ⟨hok, fun hnil => ?_⟩
      obtain ⟨hsame, hblocked⟩ := hnone hnil
      refine ⟨hsame, fun n hn j hj hpending => ?_⟩
      obtain rfl | hn := List.mem_cons.mp hn
      · rw [hj] at hstay
        rw [blocked_iff hj]
        simpa [hpending] using hstay
      · exact hblocked n hn j hj hpending

/-! ## What is left -/

/-- The jobs that were never started. -/
def Left (s : State) (starts : List Start) : Set Nat := {i | i < s.jobs.length ∧ i ∉ starts.map (·.job)}

/-- The job was started, and failed. -/
def StartFailed (s : State) (starts : List Start) (i : Nat) : Prop :=
  i ∈ starts.map (·.job) ∧ ∃ j, s.jobs[i]? = some j ∧ j.state = .failed

/-- Directly or through others that were never started, the job depends on one that failed or on
one that depends on itself. -/
def Explained (s : State) (starts : List Start) (i : Nat) : Prop :=
  ∃ k, Walks.Within (DependsOn s.jobs) (Left s starts) i k ∧
    ∃ d, DependsOn s.jobs k d ∧ (StartFailed s starts d ∨ TransGen (DependsOn s.jobs) d d)

/-- Nothing runs, and every job that is pending waits. -/
theorem StartsOk.explained (h : StartsOk s starts) (hidle : s.anyRunning = false)
    (hblocked : ∀ (i : Nat) (j : Job), s.jobs[i]? = some j → j.state = .pending → Blocked s.jobs i)
    (hi : i ∈ Left s starts) : Explained s starts i := by
  have hfin : (Left s starts).Finite := (Set.finite_lt_nat s.jobs.length).subset fun _ hx => hx.1
  refine Walks.exit_or_cycle hfin (P := StartFailed s starts) (fun x hx => ?_) hi
  obtain ⟨j, hj⟩ : ∃ j, s.jobs[x]? = some j := ⟨_, List.getElem?_eq_getElem hx.1⟩
  obtain ⟨k, hdep, d, hd, hready, hexited⟩ := hblocked x _ hj ((h.pending x _ hj).mpr hx.2)
  refine ⟨k, hdep, ?_⟩
  have hk : k < s.jobs.length := (List.getElem?_eq_some_iff.mp hd).1
  have hrunning := anyRunning_eq_false.mp hidle d (List.mem_of_getElem? hd)
  cases hstate : d.state with
  | pending => exact .inl ⟨hk, (h.pending k d hd).mp hstate⟩
  | failed =>
    refine .inr ⟨?_, d, hd, hstate⟩
    by_contra hnot
    have hpending := (h.pending k d hd).mpr hnot
    rw [hstate] at hpending
    cases hpending
  | running => exact absurd hstate hrunning
  | ready => exact absurd hstate hready
  | exited => exact absurd hstate hexited

theorem length_of_face (h : s'.jobs.map Job.face = s.jobs.map Job.face) : s'.jobs.length = s.jobs.length := by
  simpa using congrArg List.length h

theorem Explained.congr (h : Explained s starts i) (hface : s'.jobs.map Job.face = s.jobs.map Job.face)
    (hfailed : ∀ k, StartFailed s starts k → StartFailed s' starts k) : Explained s' starts i := by
  have hdep : ∀ a b, DependsOn s.jobs a b → DependsOn s'.jobs a b := fun a b => (dependsOn_congr hface).mpr
  have hleft : Left s' starts = Left s starts := by simp [Left, length_of_face hface]
  obtain ⟨k, hwalk, d, hd, hend⟩ := h
  have hwalk' : Walks.Within (DependsOn s'.jobs) (Left s' starts) i k :=
    ReflTransGen.mono (fun a b hab => ⟨hdep a b hab.1, hleft ▸ hab.2⟩) i k hwalk
  exact ⟨k, hwalk', d, hdep k d hd, hend.imp (hfailed d) (TransGen.mono hdep d d)⟩

theorem failPending_face (s : State) : s.failPending.jobs.map Job.face = s.jobs.map Job.face := by
  unfold State.failPending
  rw [List.map_map]
  refine List.map_congr_left fun j _ => ?_
  by_cases hj : j.state = .pending
  · simp [hj, Job.face]
  · simp [hj]

theorem Explained.failPending (h : Explained s starts i) : Explained s.failPending starts i := by
  refine h.congr (failPending_face s) fun k ⟨hk, j, hj, hstate⟩ => ⟨hk, j, ?_, hstate⟩
  simp [State.failPending, hj, hstate]

/-! ## The loop -/

/-- What holds at the head of the loop, and when it ends. -/
structure AtHead (m : Machine) : Prop where
  once : (m.starts.map (·.job)).Nodup
  ready : ∀ e ∈ m.starts, e.Ready
  going : ∀ stall, m.phase = .startup stall → StartsOk m.init m.starts ∧ (stall ≠ 0 → m.init.anyRunning = false)
  ended : m.phase = .service → ∀ i ∈ Left m.init m.starts, Explained m.init m.starts i

/-- The steps of `startup_loop` in which no control command comes. -/
def Starting : Machine → Prop :=
  Run.Reachable Booted fun m m' => ∃ stall r, m.phase = .startup stall ∧ r.client = none ∧ m' = m.next r

theorem startsOk_nil (h : Loaded s) : StartsOk s [] := by
  refine ⟨List.nodup_nil, by simp, fun i j hj => ?_, fun j hj => ?_⟩
  · obtain ⟨c, name, rfl⟩ := h.fresh j (List.mem_of_getElem? hj)
    simp [Job.fresh]
  · obtain ⟨c, name, rfl⟩ := h.fresh j hj
    simp [Job.RunOk, Job.fresh]

theorem atHead_booted {m : Machine} (h : Booted m) : AtHead m := by
  have hok := startsOk_nil h.loaded
  rw [← h.starts] at hok
  have hphase := h.phase
  refine ⟨hok.once, hok.ready, fun stall hs => ⟨hok, fun hne => ?_⟩, fun hs i hi => ?_⟩
  · rw [hs] at hphase
    split at hphase
    · cases hphase
    · exact absurd (Phase.startup.inj hphase) hne
  · rw [hs] at hphase
    split at hphase
    · next hnil =>
      have hlt := hi.1
      rw [hnil] at hlt
      cases hlt
    · cases hphase

/-- A job that runs has a pipe to watch. -/
theorem idle_of_pfds (hrun : ∀ j ∈ s.jobs, j.RunOk) (h : s.pfds = []) : s.anyRunning = false := by
  rw [anyRunning_eq_false]
  intro j hj hstate
  obtain ⟨i, hi⟩ := List.getElem?_of_mem hj
  obtain ⟨fd, hfd⟩ := Option.ne_none_iff_exists'.mp (hrun j hj hstate).1
  have hmem : (⟨i, fd, s.kernel.file fd⟩ : Polled) ∈ s.pfds := mem_pfds.mpr ⟨by simp [State.pipeOf, hi, hfd], rfl⟩
  rw [h] at hmem
  cases hmem

/-- A round with nothing to start leaves what is pending waiting. -/
theorem startPass_nil (answer : Nat → StartAnswer) (h : StartsOk s starts)
    (hnil : (startPass answer s (List.range s.jobs.length)).2 = []) :
    (startPass answer s (List.range s.jobs.length)).1 = s ∧
      ∀ (i : Nat) (j : Job), s.jobs[i]? = some j → j.state = .pending → Blocked s.jobs i := by
  obtain ⟨hsame, hblocked⟩ := (startPass_spec answer _ h).2 hnil
  refine ⟨hsame, fun i j hj => hblocked i ?_ j hj⟩
  exact List.mem_range.mpr (List.getElem?_eq_some_iff.mp hj).1

/-- A turn after which the loop goes on, or what was never started is explained. -/
structure TurnOk (earlier : List Start) (t : Turn) : Prop where
  once : ((earlier ++ t.starts).map (·.job)).Nodup
  ready : ∀ e ∈ earlier ++ t.starts, e.Ready
  going : ∀ stall, t.stall = some stall → StartsOk t.init (earlier ++ t.starts) ∧ (stall ≠ 0 → t.init.anyRunning = false)
  ended : t.stall = none → ∀ i ∈ Left t.init (earlier ++ t.starts), Explained t.init (earlier ++ t.starts) i

theorem Explained.went (h : Explained s starts i) (hwent : Went s s') (hidle : s.anyRunning = false) :
    Explained s' starts i := by
  refine h.congr hwent.face fun k ⟨hk, j, hj, hstate⟩ => ⟨hk, ?_⟩
  have hstates := congrArg (·[k]?) (hwent.idle hidle)
  simp only [List.getElem?_map, hj, Option.map_some, Option.map_eq_some_iff] at hstates
  obtain ⟨j', hj', hsame⟩ := hstates
  exact ⟨j', hj', hsame.trans hstate⟩

/-- The loop gives up only after rounds in which nothing ran and nothing was started. -/
theorem turnOk_startupRound {stall : Nat} {r : Round} (hquiet : r.client = none) (h : StartsOk s starts)
    (hidle : stall ≠ 0 → s.anyRunning = false) : TurnOk starts (startupRound s stall r) := by
  have hok := (startPass_spec r.start (List.range s.jobs.length) h).1
  have hnil := startPass_nil r.start h
  unfold startupRound
  generalize startPass r.start s (List.range s.jobs.length) = pass at hok hnil ⊢
  obtain ⟨s₁, new⟩ := pass
  dsimp only at hok hnil ⊢
  split
  · next hexit =>
    obtain ⟨_, hpfds, rfl⟩ := hexit
    obtain ⟨rfl, hblocked⟩ := hnil rfl
    refine ⟨hok.once, hok.ready, fun _ hs => (by cases hs), fun _ i hi => ?_⟩
    exact hok.explained (idle_of_pfds h.run hpfds) hblocked hi
  · have hwent := went_afterPoll hquiet hok.run
    have hok' := hwent.ok _ hok
    generalize hcount : (if (s₁.afterPoll r).1.stalls (!new.isEmpty) then stall + 1 else 0) = count
    have hstood : count ≠ 0 → (s₁.afterPoll r).1.anyRunning = false ∧ new = [] ∧ count = stall + 1 := by
      intro hne
      rw [← hcount] at hne ⊢
      split
      · next hs =>
        simp only [State.stalls, Bool.and_eq_true, Bool.not_eq_true', Bool.not_not, List.isEmpty_iff] at hs
        simp [hs.1.1, hs.1.2]
      · next hs => exact absurd (if_neg hs) hne
    unfold endRound
    split
    · next hgive =>
      -- the count is only this high after rounds that stood still
      simp only [maxStall] at hgive
      obtain ⟨_, hnone, hcount'⟩ := hstood (by omega)
      subst hnone
      obtain ⟨rfl, hblocked⟩ := hnil rfl
      have hidle := hidle (by omega)
      refine ⟨hok.once, hok.ready, fun _ hs => (by cases hs), fun _ i hi => ?_⟩
      have hleft : i ∈ Left s₁ (starts ++ []) := by
        have hlen := (length_of_face (failPending_face _)).trans (length_of_face hwent.face)
        exact ⟨hlen ▸ hi.1, hi.2⟩
      exact ((hok.explained hidle hblocked hleft).went hwent hidle).failPending
    · refine ⟨hok'.once, hok'.ready, fun stall' hs => ⟨hok', fun hne => ?_⟩, fun hs => (by cases hs)⟩
      obtain rfl := Option.some.inj hs
      exact (hstood hne).1

theorem AtHead.next {m : Machine} {stall : Nat} {r : Round} (h : AtHead m) (hphase : m.phase = .startup stall)
    (hquiet : r.client = none) : AtHead (m.next r) := by
  obtain ⟨hok, hidle⟩ := h.going stall hphase
  unfold Machine.next
  rw [hphase]
  dsimp only
  split
  · next hnone =>
    refine ⟨h.once, h.ready, fun _ hs => (Phase.noConfusion hs), fun _ i hi => ?_⟩
    obtain ⟨j, hj⟩ : ∃ j, m.init.jobs[i]? = some j := ⟨_, List.getElem?_eq_getElem hi.1⟩
    have hpending := (hok.pending i j hj).mpr hi.2
    have hnot := (List.countP_eq_zero.mp hnone) j (List.mem_of_getElem? hj)
    simp [hpending] at hnot
  · have hturn := turnOk_startupRound (r := r) hquiet hok hidle
    refine ⟨hturn.once, hturn.ready, fun stall' hs => hturn.going stall' ?_, fun hs => hturn.ended ?_⟩
    · dsimp only at hs
      split at hs
      · next heq => rw [heq, Phase.startup.inj hs]
      · cases hs
    · dsimp only at hs
      split at hs
      · cases hs
      · next heq => exact heq

theorem Starting.atHead {m : Machine} (h : Starting m) : AtHead m :=
  h.invariant AtHead (fun _ => atHead_booted) fun _ _ hm ⟨_, _, hphase, hquiet, he⟩ => he ▸ hm.next hphase hquiet

/-- Each job is started at most once and only when the jobs it lists are done, and when the loop
ends a job that was never started waits for one that failed or for a cycle. -/
theorem startup_safe_and_complete {m : Machine} (h : Starting m) :
    (m.starts.map (·.job)).Nodup ∧ (∀ e ∈ m.starts, e.Ready) ∧
      (m.phase = .service → ∀ i ∈ Left m.init m.starts, Explained m.init m.starts i) :=
  ⟨h.atHead.once, h.atHead.ready, h.atHead.ended⟩

/-! ## A job that waits for itself -/

def own : Config :=
  { execLine := .cut maxPath_pos [], readyMode := .exit, readyPattern := .cut maxPattern_pos []
    after := .cut maxDepsStr_pos [97] }

def waiting : Machine :=
  { init := { kernel := { file := fun _ => none, made := 0 }, jobs := [Job.fresh own [97]], ctlFd := none }
    phase := .startup 0, starts := [], calls := [] }

def still : Round :=
  { start := fun _ => ⟨none, none, none⟩
    ready := fun _ => false
    client := none
    pipe := fun _ => { read := [], status := 0 } }

theorem startup_safe_and_complete_cycle : (waiting.next still).phase = .service ∧ 0 ∈ Left (waiting.next still).init [] ∧
    Explained (waiting.next still).init [] 0 := by
  have hbooted : Booted waiting := by
    refine ⟨⟨fun j hj => ?_, fun fd f hf => by cases hf⟩, rfl, rfl, rfl⟩
    exact ⟨own, [97], List.mem_singleton.mp hj⟩
  have hstarts : (waiting.next still).starts = [] := by decide
  have hend : (waiting.next still).phase = .service := by decide
  have hleft : 0 ∈ Left (waiting.next still).init [] := ⟨by decide, by simp⟩
  have hrun : Starting (waiting.next still) := .step (.start hbooted) ⟨0, still, rfl, rfl, rfl⟩
  have hexplained := (startup_safe_and_complete hrun).2.2 hend
  rw [hstarts] at hexplained
  exact ⟨hend, hleft, hexplained 0 hleft⟩

end Serotonin.Init
