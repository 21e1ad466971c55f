import Mathlib.Data.Finset.Card
import Serotonin.Exec.Load

/-! What the loader leaves in the new address space: which pages it has, what it costs in frames,
and what each of its stores leaves alone. -/

namespace Serotonin.Exec

open List
open ByteMem (Mem u32 load16 load32)
open Syscall (userSpaceStart userSpaceEnd pageSize)

theorem bind_ok {α β : Type} {x : Except Stop α} {f : α → Except Stop β} {r : β} (h : (x >>= f) = .ok r) :
    ∃ a, x = .ok a ∧ f a = .ok r := by
  cases x with
  | error e => cases h
  | ok a => exact ⟨a, rfl, h⟩

/-- Does the page lie in the user's range? -/
def InUser (p : Nat) : Prop := userSpaceStart ≤ p * pageSize ∧ p * pageSize ≤ userSpaceEnd

/-! ## Pages and frames -/

def newTables (sp : Space) (ps : List Nat) : Nat :=
  ((ps.map (· / 1024)).toFinset.filter fun t => sp.table t = false).card

/-- The frames that are needed for pages and their tables. -/
def cost (sp : Space) (ps : List Nat) : Nat := ps.length + newTables sp ps

structure Room (s : Build) (ps : List Nat) : Prop where
  nodup : ps.Nodup
  free : ∀ p ∈ ps, s.space.page p = false
  frames : cost s.space ps ≤ s.frames

structure Grows (s s' : Build) (ps : List Nat) : Prop where
  page : ∀ p, s'.space.page p = true ↔ p ∈ ps ∨ s.space.page p = true
  table : ∀ t, s'.space.table t = true ↔ t ∈ ps.map (· / 1024) ∨ s.space.table t = true
  frames : s'.frames + cost s.space ps = s.frames

theorem cost_append {s s' : Build} {ps : List Nat} (qs : List Nat)
    (h : ∀ t, s'.space.table t = true ↔ t ∈ ps.map (· / 1024) ∨ s.space.table t = true) :
    cost s.space (ps ++ qs) = cost s.space ps + cost s'.space qs := by
  have hsplit : ((ps ++ qs).map (· / 1024)).toFinset.filter (fun t => s.space.table t = false) =
      (ps.map (· / 1024)).toFinset.filter (fun t => s.space.table t = false) ∪
        (qs.map (· / 1024)).toFinset.filter (fun t => s'.space.table t = false) := by
    ext t
    have ht := h t
    simp only [map_append, toFinset_append, Finset.mem_filter, Finset.mem_union, mem_toFinset,
      ← Bool.not_eq_true, ht]
    tauto
  have hdisj : Disjoint ((ps.map (· / 1024)).toFinset.filter (fun t => s.space.table t = false))
      ((qs.map (· / 1024)).toFinset.filter (fun t => s'.space.table t = false)) := by
    rw [Finset.disjoint_left]
    intro t hp hq
    rw [Finset.mem_filter, mem_toFinset] at hp
    rw [Finset.mem_filter, ← Bool.not_eq_true, h t] at hq
    exact hq.2 (.inl hp.1)
  unfold cost newTables
  rw [hsplit, Finset.card_union_of_disjoint hdisj, length_append]
  omega

theorem cost_nil (sp : Space) : cost sp [] = 0 := rfl

theorem Grows.refl {s s' : Build} (hp : s'.space.page = s.space.page) (ht : s'.space.table = s.space.table)
    (hf : s'.frames = s.frames) : Grows s s' [] where
  page p := by simp [hp]
  table t := by simp [ht]
  frames := hf

theorem Grows.trans {s s' s'' : Build} {ps qs : List Nat} (h : Grows s s' ps) (h' : Grows s' s'' qs) :
    Grows s s'' (ps ++ qs) where
  page p := by
    rw [h'.page, h.page, mem_append]
    tauto
  table t := by
    rw [h'.table, h.table, map_append, mem_append]
    tauto
  frames := by
    have h1 := h.frames
    have h2 := h'.frames
    rw [cost_append qs h.table]
    omega

theorem Room.append {s s' : Build} {ps qs : List Nat} (h : Room s ps) (hg : Grows s s' ps) (h' : Room s' qs) :
    Room s (ps ++ qs) where
  nodup := by
    refine nodup_append.mpr ⟨h.nodup, h'.nodup, ?_⟩
    intro p hp q hq he
    have hfree := h'.free q hq
    rw [← he, ← Bool.not_eq_true, hg.page] at hfree
    exact hfree (.inl hp)
  free p hp := by
    rcases mem_append.mp hp with hp | hp
    · exact h.free p hp
    · have hfree := h'.free p hp
      rw [← Bool.not_eq_true, hg.page] at hfree
      exact Bool.not_eq_true _ ▸ fun ht => hfree (.inr ht)
  frames := by
    have h1 := hg.frames
    have h2 := h'.frames
    rw [cost_append qs hg.table]
    omega

theorem Room.left {s : Build} {ps qs : List Nat} (h : Room s (ps ++ qs)) : Room s ps where
  nodup := h.nodup.of_append_left
  free p hp := h.free p (mem_append_left _ hp)
  frames := by
    have hle : newTables s.space ps ≤ newTables s.space (ps ++ qs) := by
      refine Finset.card_le_card (Finset.filter_subset_filter _ ?_)
      intro t ht
      rw [mem_toFinset, map_append] at *
      exact mem_append_left _ ht
    have := h.frames
    unfold cost at *
    rw [length_append] at this
    omega

theorem Room.right {s s' : Build} {ps qs : List Nat} (h : Room s (ps ++ qs)) (hg : Grows s s' ps) : Room s' qs where
  nodup := h.nodup.of_append_right
  free q hq := by
    rw [← Bool.not_eq_true, hg.page]
    rintro (hp | hp)
    · exact disjoint_of_nodup_append h.nodup hp hq
    · exact Bool.eq_false_iff.mp (h.free q (mem_append_right _ hq)) hp
  frames := by
    have h1 := hg.frames
    have h2 := h.frames
    rw [cost_append qs hg.table] at h2
    omega

/-! ## What a part of the loader did when it came to its end -/

structure Ran (s s' : Build) (ps : List Nat) : Prop where
  room : Room s ps
  grows : Grows s s' ps
  log : s.log <+: s'.log

theorem Ran.trans {s s' s'' : Build} {ps qs : List Nat} (h : Ran s s' ps) (h' : Ran s' s'' qs) :
    Ran s s'' (ps ++ qs) where
  room := h.room.append h.grows h'.room
  grows := h.grows.trans h'.grows
  log := h.log.trans h'.log

theorem Ran.cast {s s' : Build} {ps qs : List Nat} (h : Ran s s' ps) (he : ps = qs) : Ran s s' qs := he ▸ h

theorem Room.nil (s : Build) : Room s [] where
  nodup := .nil
  free := by simp
  frames := by simp [cost_nil]

/-- A part that maps no page. -/
theorem Ran.same {s s' : Build} (hp : s'.space.page = s.space.page) (ht : s'.space.table = s.space.table)
    (hf : s'.frames = s.frames) (hl : s.log <+: s'.log) : Ran s s' [] := ⟨.nil s, .refl hp ht hf, hl⟩

theorem Ran.refl (s : Build) : Ran s s [] := .same rfl rfl rfl (prefix_refl _)

theorem cost_single (sp : Space) (p : Nat) : cost sp [p] = if sp.table (p / 1024) = false then 2 else 1 := by
  unfold cost newTables
  rw [map_singleton, length_singleton]
  split <;> rename_i h
  · simp [Finset.filter_singleton, h]
  · simp [Finset.filter_singleton, h]

theorem addPage_grows {s : Build} {p n : Nat} (h : n + cost s.space [p] = s.frames) : Grows s (s.addPage p n) [p] where
  page q := by simp [Build.addPage, Space.addPage]
  table t := by simp [Build.addPage, Space.addPage]
  frames := h

theorem room_single {s : Build} {p : Nat} : Room s [p] ↔ s.space.page p = false ∧ cost s.space [p] ≤ s.frames := by
  refine ⟨fun h => ⟨h.free p (mem_singleton_self p), h.frames⟩, fun h => ⟨nodup_singleton p, ?_, h.2⟩⟩
  intro q hq
  rw [mem_singleton.mp hq, h.1]

/-- `map_page` comes back exactly where there is room for the page. -/
theorem mapPage_eq (s : Build) (p : Nat) : (Room s [p] ∧ s.mapPage p = .ok (s.addPage p (s.frames - cost s.space [p]))) ∨
    (¬Room s [p] ∧ s.mapPage p = .error .panic) := by
  rw [room_single, cost_single]
  unfold Build.mapPage
  by_cases hf : s.frames = 0
  · refine .inr ⟨fun h => ?_, if_pos hf⟩
    have := h.2
    split at this <;> omega
  rw [if_neg hf]
  by_cases ht : s.space.table (p / 1024) = false
  · have hp : s.space.page p = false := by
      by_contra hp
      have := s.space.table_of_page p (by simpa using hp)
      rw [ht] at this
      cases this
    rw [if_pos ht, if_pos ht]
    by_cases h1 : s.frames = 1
    · exact .inr ⟨fun h => by omega, if_pos h1⟩
    · exact .inl ⟨⟨hp, by omega⟩, if_neg h1⟩
  · rw [if_neg ht, if_neg ht]
    cases hp : s.space.page p with
    | true => exact .inr ⟨fun h => (nomatch h.1), rfl⟩
    | false => exact .inl ⟨⟨rfl, by omega⟩, rfl⟩

theorem mapPage_ran {s s' : Build} {p : Nat} (h : s.mapPage p = .ok s') :
    Ran s s' [p] ∧ s'.space.mem = s.space.mem ∧ s'.log = s.log ++ [.map p] := by
  rcases mapPage_eq s p with ⟨hroom, he⟩ | ⟨-, he⟩
  · obtain rfl := Except.ok.inj (he.symm.trans h)
    have hc := hroom.frames
    exact ⟨⟨hroom, addPage_grows (by omega), prefix_append _ _⟩, rfl, rfl⟩
  · rw [he] at h
    cases h

theorem mapPage_returns {s : Build} {p : Nat} (h : Room s [p]) : ∃ s', s.mapPage p = .ok s' := by
  rcases mapPage_eq s p with ⟨-, he⟩ | ⟨hno, -⟩
  · exact ⟨_, he⟩
  · exact absurd h hno

theorem mapList_ran {ps : List Nat} {s s' : Build} (h : s.mapList ps = .ok s') :
    Ran s s' ps ∧ s'.space.mem = s.space.mem ∧ s'.log = s.log ++ ps.map .map := by
  induction ps generalizing s with
  | nil =>
    obtain rfl := Except.ok.inj h
    exact ⟨.refl s, rfl, (append_nil _).symm⟩
  | cons p ps ih =>
    obtain ⟨s1, h1, h2⟩ := bind_ok h
    obtain ⟨r1, m1, l1⟩ := mapPage_ran h1
    obtain ⟨r2, m2, l2⟩ := ih h2
    exact ⟨r1.trans r2, m2.trans m1, by rw [l2, l1, append_assoc]; rfl⟩

theorem mapList_returns {ps : List Nat} {s : Build} (h : Room s ps) : ∃ s', s.mapList ps = .ok s' := by
  induction ps generalizing s with
  | nil => exact ⟨s, rfl⟩
  | cons p ps ih =>
    rw [← singleton_append] at h
    obtain ⟨s1, h1⟩ := mapPage_returns h.left
    obtain ⟨s2, h2⟩ := ih (h.right (mapPage_ran h1).1.grows)
    exact ⟨s2, by rw [Build.mapList, h1]; exact h2⟩

/-! ## Stores -/

theorem u32_div_pageSize (x : Nat) : u32 x / pageSize = x / pageSize % 2 ^ 20 := by
  unfold u32 pageSize
  omega

theorem mem_touched {addr len p : Nat} : p ∈ touched addr len ↔ ∃ i, i < len ∧ u32 (addr + i) / pageSize = p := by
  unfold touched
  split
  · simp [*]
  rw [mem_map]
  constructor
  · rintro ⟨k, hk, rfl⟩
    rw [mem_range] at hk
    refine ⟨if k = 0 then 0 else k * pageSize - addr % pageSize, ?_, ?_⟩
    · unfold pageSize at *
      split <;> omega
    · rw [u32_div_pageSize]
      unfold pageSize at *
      congr 1
      split <;> omega
  · rintro ⟨i, hi, rfl⟩
    refine ⟨(addr % pageSize + i) / pageSize, mem_range.mpr ?_, ?_⟩
    · unfold pageSize at *
      omega
    · rw [u32_div_pageSize]
      unfold pageSize
      congr 1
      omega

/-- The bytes outside the range stay as they are. -/
theorem storeMem_of_not_mem {mem bytes : Mem} {addr len a : Nat} (ha : a < 2 ^ 32) (haddr : addr < 2 ^ 32)
    (h : a / pageSize ∉ touched addr len) : storeMem mem addr len bytes a = mem a := by
  unfold storeMem
  refine if_neg fun hlt => h (mem_touched.mpr ⟨_, hlt, ?_⟩)
  congr 1
  unfold u32 at *
  omega

theorem storeMem_zero (mem bytes : Mem) (addr : Nat) : storeMem mem addr 0 bytes = mem := by
  funext a
  unfold storeMem
  rw [if_neg (Nat.not_lt_zero _)]

theorem storeMem_inside {mem bytes : Mem} {addr len i : Nat} (haddr : addr < 2 ^ 32) (hi : i < len) (hi' : addr + i < 2 ^ 32) :
    storeMem mem addr len bytes (addr + i) = bytes i := by
  have he : u32 (addr + i + 2 ^ 32 - addr) = i := by
    unfold u32
    omega
  unfold storeMem
  rw [he, if_pos hi]

theorem storeMem_outside {mem bytes : Mem} {addr len a : Nat} (ha : a < 2 ^ 32) (hend : addr + len ≤ 2 ^ 32)
    (h : a < addr ∨ addr + len ≤ a) : storeMem mem addr len bytes a = mem a := by
  unfold storeMem
  refine if_neg ?_
  unfold u32
  omega

/-- A store comes back exactly where its pages are there. -/
theorem store_ran {s s' : Build} {e : Event} {addr len : Nat} {bytes : Mem} (h : s.store e addr len bytes = .ok s') :
    Ran s s' [] ∧ s'.space.mem = storeMem s.space.mem addr len bytes ∧ (∀ p ∈ touched addr len, s.space.page p = true) ∧
      (s'.log = s.log ∨ s'.log = s.log ++ [e]) ∧ (0 < len → e ∈ s'.log) := by
  unfold Build.store at h
  by_cases hlen : len = 0
  · rw [if_pos hlen] at h
    obtain rfl := Except.ok.inj h
    refine ⟨.refl s, ?_, ?_, .inl rfl, fun h => by omega⟩
    · rw [hlen, storeMem_zero]
    · intro p hp
      obtain ⟨i, hi, -⟩ := mem_touched.mp hp
      omega
  · rw [if_neg hlen] at h
    by_cases hall : (touched addr len).all s.space.page = true
    · rw [if_pos hall] at h
      have hs := (Except.ok.inj h).symm
      have hpage : s'.space.page = s.space.page := by rw [hs, Space.setMem_page]
      have htable : s'.space.table = s.space.table := by rw [hs, Space.setMem_table]
      have hmem : s'.space.mem = storeMem s.space.mem addr len bytes := by rw [hs, Space.setMem_mem]
      have hframes : s'.frames = s.frames := by rw [hs]
      have hlog : s'.log = s.log ++ [e] := by rw [hs]
      refine ⟨.same hpage htable hframes (hlog ▸ prefix_append _ _), hmem, all_eq_true.mp hall, .inr hlog, ?_⟩
      exact fun _ => hlog ▸ mem_append_right _ (mem_singleton_self e)
    · rw [if_neg hall] at h
      cases h

theorem store_returns {s : Build} {e : Event} {addr len : Nat} {bytes : Mem}
    (h : ∀ p ∈ touched addr len, s.space.page p = true) : ∃ s', s.store e addr len bytes = .ok s' := by
  unfold Build.store
  split
  · exact ⟨s, rfl⟩
  · rw [if_pos (all_eq_true.mpr h)]
    exact ⟨_, rfl⟩

end Serotonin.Exec
