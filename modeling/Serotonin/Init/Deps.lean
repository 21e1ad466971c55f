import Mathlib.Data.List.TakeWhile
import Serotonin.Init.Model

/-! The dependencies that a job lists: the words of `after`, and the jobs that they name. -/

namespace Serotonin.Init

open List

variable {jobs jobs' : List Job}

/-- The words between spaces and commas. -/
def words (after : List UInt8) : List (List UInt8) := (after.splitOnP isSep).filter (· ≠ [])

theorem words_sep {c : UInt8} (hc : isSep c = true) (cs : List UInt8) : words (c :: cs) = words cs := by
  simp [words, splitOnP_cons_eq_if_modifyHead, hc]

theorem words_dropWhile (tok : List UInt8) : words (tok.dropWhile isSep) = words tok := by
  induction tok with
  | nil => rfl
  | cons c cs ih =>
    by_cases hc : isSep c = true
    · rw [dropWhile_cons_of_pos hc, ih, words_sep hc]
    · rw [dropWhile_cons_of_neg hc]

theorem words_word {word : List UInt8} (hne : word ≠ []) (hplain : ∀ c ∈ word, isSep c = false) : words word = [word] := by
  rw [words, splitOnP_eq_singleton hplain]
  simp [hne]

theorem words_cons {word : List UInt8} (hne : word ≠ []) (hplain : ∀ c ∈ word, isSep c = false) {c : UInt8}
    (hc : isSep c = true) (rest : List UInt8) : words (word ++ c :: rest) = word :: words rest := by
  rw [words, splitOnP_append_cons_of_forall_mem hplain c hc]
  simp [words, hne]

/-- The loop looks at every word. -/
theorem depsFrom_eq {n : Nat} {tok : List UInt8} (hn : tok.length < n) :
    depsFrom jobs n tok = (words tok).all (!unmet jobs ·) := by
  induction n generalizing tok with
  | zero => omega
  | succ n ih =>
    rw [depsFrom, ← words_dropWhile]
    have hlen : (tok.dropWhile isSep).length ≤ tok.length := length_dropWhile_le _ _
    generalize htok : tok.dropWhile isSep = t at hlen ⊢
    by_cases hnil : t = []
    · rw [if_pos hnil, hnil]
      rfl
    · rw [if_neg hnil]
      have hsplit : t.takeWhile (!isSep ·) ++ t.dropWhile (!isSep ·) = t := takeWhile_append_dropWhile
      have hplain : ∀ c ∈ t.takeWhile (!isSep ·), isSep c = false :=
        fun c hc => by simpa using mem_takeWhile_imp hc
      have hne : t.takeWhile (!isSep ·) ≠ [] := by
        obtain ⟨c, cs, rfl⟩ := exists_cons_of_ne_nil hnil
        have hc := head_dropWhile_not isSep (l := tok) (by simp [htok])
        simp only [htok, head_cons] at hc
        simp [hc]
      cases hrest : t.dropWhile (!isSep ·) with
      | nil =>
        generalize t.takeWhile (!isSep ·) = word at hsplit hplain hne ⊢
        rw [hrest, append_nil] at hsplit
        rw [← hsplit, words_word hne hplain]
        cases hu : unmet jobs word <;> simp [hu]
      | cons c rest =>
        have hc : isSep c = true := by
          have hhead := head_dropWhile_not (!isSep ·) (l := t) (by simp [hrest])
          simpa [hrest] using hhead
        generalize t.takeWhile (!isSep ·) = word at hsplit hplain hne ⊢
        rw [hrest] at hsplit
        have hshort : rest.length < n := by
          have hlen' := congrArg List.length hsplit
          rw [length_append, length_cons] at hlen'
          omega
        rw [← hsplit, words_cons hne hplain hc, all_cons]
        cases hu : unmet jobs word <;> simp [ih hshort]

theorem depsSatisfied_eq (jobs : List Job) (j : Job) :
    depsSatisfied jobs j = (words j.after.bytes).all (!unmet jobs ·) := by
  have hfits : j.after.bytes.length < maxDepsStr := j.after.fits
  unfold depsSatisfied
  split
  · next hnil => rw [hnil]; rfl
  · rw [take_of_length_le (by omega), depsFrom_eq hfits]

/-! ## The graph -/

/-- The job `a` lists the name of the job `b`. -/
def DependsOn (jobs : List Job) (a b : Nat) : Prop :=
  ∃ j, jobs[a]? = some j ∧ ∃ w ∈ words j.after.bytes, findJob jobs w = some b

/-- The job lists one that is not done. -/
def Blocked (jobs : List Job) (i : Nat) : Prop :=
  ∃ k, DependsOn jobs i k ∧ ∃ d, jobs[k]? = some d ∧ d.state ≠ .ready ∧ d.state ≠ .exited

theorem unmet_iff {w : List UInt8} : unmet jobs w = true ↔
    ∃ k, findJob jobs w = some k ∧ ∃ d, jobs[k]? = some d ∧ d.state ≠ .ready ∧ d.state ≠ .exited := by
  unfold unmet
  cases hfind : findJob jobs w with
  | none => simp
  | some k =>
    rw [Option.bind_some]
    cases hd : jobs[k]? with
    | none => simp [hd]
    | some d => simp [hd]

theorem blocked_iff {i : Nat} {j : Job} (hj : jobs[i]? = some j) :
    Blocked jobs i ↔ depsSatisfied jobs j = false := by
  rw [depsSatisfied_eq, all_eq_false]
  constructor
  · intro ⟨k, ⟨j', hj', w, hw, hfind⟩, d, hd, hstate⟩
    rw [hj] at hj'
    cases hj'
    exact ⟨w, hw, by simp [unmet_iff.mpr ⟨k, hfind, d, hd, hstate⟩]⟩
  · intro ⟨w, hw, hunmet⟩
    obtain ⟨k, hfind, d, hd, hstate⟩ := unmet_iff.mp (by simpa using hunmet)
    exact ⟨k, ⟨j, hj, w, hw, hfind⟩, d, hd, hstate⟩

/-! ## Tables that agree -/

/-- What others see of a job. -/
def Job.face (j : Job) : Text maxName × Text maxDepsStr := (j.name, j.after)

theorem findJob_congr (h : jobs'.map Job.face = jobs.map Job.face) (name : List UInt8) :
    findJob jobs' name = findJob jobs name := by
  have hmap : ∀ js : List Job, findJob js name = (js.map Job.face).findIdx? (·.1.bytes == name) := by
    intro js
    rw [List.findIdx?_map]
    rfl
  rw [hmap, hmap, h]

theorem dependsOn_congr (h : jobs'.map Job.face = jobs.map Job.face) {a b : Nat} :
    DependsOn jobs' a b ↔ DependsOn jobs a b := by
  have himp : ∀ {js js' : List Job}, js'.map Job.face = js.map Job.face → DependsOn js' a b → DependsOn js a b := by
    intro js js' h ⟨j', hj', w, hw, hfind⟩
    have hface : (js.map Job.face)[a]? = some j'.face := by rw [← h, List.getElem?_map, hj']; rfl
    rw [List.getElem?_map, Option.map_eq_some_iff] at hface
    obtain ⟨j, hj, he⟩ := hface
    have hafter : j.after = j'.after := (Prod.mk.inj he).2
    exact ⟨j, hj, w, by rwa [hafter], findJob_congr h w ▸ hfind⟩
  exact ⟨himp h, himp h.symm⟩

end Serotonin.Init
