import Serotonin.Fat32.Scan
import Mathlib.Data.List.Nodup
import Mathlib.Tactic.NormNum

/-! The entry that a name leads to, for the lookup and for the scans that change it: removal
does not skip blank entries, and the update of a size skips neither these nor labels and
begins at the cluster of the entry, without the pieces of its name that lie before. -/

namespace Serotonin.Fat32

open List
open ByteMem (Mem)

variable {g : Geometry} {v : Volume} {name : List UInt8}

/-- The cluster and the index of an entry. -/
def Slot.place (x : Slot) : Nat × Nat := (x.cluster, x.index)

def Hit.place (h : Hit) : Nat × Nat := (h.cluster, h.index)

/-! ## Places -/

theorem slotsFrom_split {c : Nat} {buf : Mem} {x : Slot} {zs : List Slot} (n : Nat) :
    ∀ i ys, slotsFrom c buf i n = ys ++ x :: zs →
      x = ⟨c, buf, i + ys.length⟩ ∧ ys = slotsFrom c buf i ys.length := by
  induction n with
  | zero =>
    intro i ys h
    cases ys <;> cases h
  | succ n ih =>
    intro i ys h
    rw [slotsFrom_succ] at h
    cases ys with
    | nil =>
      cases h
      exact ⟨rfl, rfl⟩
    | cons y ys =>
      obtain ⟨hy, h⟩ := List.cons.inj h
      obtain ⟨hx, hys⟩ := ih (i + 1) ys h
      refine ⟨?_, by rw [← hy, length_cons, slotsFrom_succ, ← hys]⟩
      rw [hx, length_cons, Nat.add_assoc, Nat.add_comm 1]

/-- What comes before a slot: the clusters before its own, and the slots before it. -/
theorem dirSlots_split {x : Slot} {zs : List Slot} (cs : List Nat) : ∀ ys, dirSlots g v cs = ys ++ x :: zs →
    ∃ cs₁ cs₂ rest, cs = cs₁ ++ x.cluster :: cs₂ ∧
      ys = dirSlots g v cs₁ ++ slotsFrom x.cluster x.buf 0 x.index ∧
      clusterSlots g v x.cluster = slotsFrom x.cluster x.buf 0 x.index ++ x :: rest := by
  induction cs with
  | nil =>
    intro ys h
    cases ys <;> cases h
  | cons c cs ih =>
    intro ys h
    rw [dirSlots_cons] at h
    rcases append_eq_append_iff.mp h with ⟨as, rfl, hrest⟩ | ⟨bs, hc, hrest⟩
    · obtain ⟨cs₁, cs₂, rest, rfl, rfl, hx⟩ := ih as hrest
      exact ⟨c :: cs₁, cs₂, rest, rfl, by rw [dirSlots_cons, append_assoc], hx⟩
    · cases bs with
      | nil =>
        obtain ⟨cs₁, cs₂, rest, rfl, hnil, hx⟩ := ih [] hrest.symm
        rw [append_nil] at hc
        refine ⟨c :: cs₁, cs₂, rest, rfl, ?_, hx⟩
        rw [dirSlots_cons, append_assoc, ← hnil, append_nil, hc]
      | cons b bs =>
        obtain ⟨rfl, hbs⟩ := List.cons.inj hrest
        obtain ⟨hx, hys⟩ := slotsFrom_split g.perCluster 0 ys hc
        have hcl : x.cluster = c := by rw [hx]
        have hidx : x.index = ys.length := by rw [hx]; exact Nat.zero_add _
        have hbuf : x.buf = v.cluster g c := by rw [hx]
        rw [hcl, hidx, hbuf, ← hys]
        exact ⟨[], cs, bs, rfl, rfl, hc⟩

theorem cluster_of_mem_slotsFrom {c i n : Nat} {buf : Mem} {x : Slot} (h : x ∈ slotsFrom c buf i n) : x.cluster = c := by
  obtain ⟨j, _, rfl⟩ := mem_map.mp h
  rfl

theorem cluster_of_mem_dirSlots {cs : List Nat} {x : Slot} (h : x ∈ dirSlots g v cs) : x.cluster ∈ cs := by
  obtain ⟨c, hc, hx⟩ := mem_flatMap.mp h
  rw [cluster_of_mem_slotsFrom hx]
  exact hc

theorem nodup_slotsFrom (c i n : Nat) (buf : Mem) : ((slotsFrom c buf i n).map Slot.place).Nodup := by
  rw [slotsFrom, map_map]
  exact List.Nodup.map (fun a b h => congrArg Prod.snd h) nodup_range'

theorem nodup_places {cs : List Nat} (hcs : cs.Nodup) : ((dirSlots g v cs).map Slot.place).Nodup := by
  induction cs with
  | nil => exact nodup_nil
  | cons c cs ih =>
    obtain ⟨hc, hcs⟩ := nodup_cons.mp hcs
    rw [dirSlots_cons, map_append]
    refine nodup_append.mpr ⟨nodup_slotsFrom .., ih hcs, fun p hp q hq hpq => ?_⟩
    obtain ⟨x, hx, rfl⟩ := mem_map.mp hp
    obtain ⟨y, hy, rfl⟩ := mem_map.mp hq
    have hcl : x.cluster = y.cluster := congrArg Prod.fst hpq
    rw [cluster_of_mem_slotsFrom hx] at hcl
    exact hc (hcl ▸ cluster_of_mem_dirSlots hy)

theorem shorts_cons (st : LfnState) (x : Slot) (xs : List Slot) : shorts st (x :: xs) =
    (if x.entry.isShort then [(x, st)] else []) ++ (st.pass x.entry).elim [] (shorts · xs) := by
  rw [shorts]
  cases st.pass x.entry <;> rfl

theorem shorts_sublist (xs : List Slot) : ∀ st, ((shorts st xs).map Prod.fst).Sublist xs := by
  induction xs with
  | nil => exact fun _ => List.Sublist.refl _
  | cons x xs ih =>
    intro st
    have hrest : (((st.pass x.entry).elim [] (shorts · xs)).map Prod.fst).Sublist xs := by
      cases st.pass x.entry with
      | none => exact nil_sublist _
      | some st' => exact ih st'
    rw [shorts_cons, map_append]
    split
    · exact hrest.cons_cons x
    · exact hrest.cons x

/-- The place tells the entries of the list apart. -/
theorem shorts_places {xs : List Slot} (h : (xs.map Slot.place).Nodup) (st : LfnState) :
    ((shorts st xs).map fun p => p.1.place).Nodup := by
  have hsub := ((shorts_sublist xs st).map Slot.place).nodup h
  rwa [map_map] at hsub

theorem shorts_cons_short {x : Slot} (h : x.entry.isShort = true) (st : LfnState) (xs : List Slot) :
    ∃ rest, shorts st (x :: xs) = (x, st) :: rest := by
  rw [shorts, if_pos h]
  exact ⟨_, rfl⟩

theorem shorts_split {xs : List Slot} {x : Slot} {st' : LfnState} {post : List (Slot × LfnState)} :
    ∀ {st pre}, shorts st xs = pre ++ (x, st') :: post →
      ∃ ys zs, xs = ys ++ x :: zs ∧ pieces st ys = some st' ∧ shorts st ys = pre ∧ x.entry.isShort = true := by
  induction xs with
  | nil =>
    intro st pre h
    cases pre <;> cases h
  | cons y xs ih =>
    intro st pre h
    rw [shorts_cons] at h
    have hskip : ∀ pre', pre = (if y.entry.isShort then [(y, st)] else []) ++ pre' →
        (st.pass y.entry).elim [] (shorts · xs) = pre' ++ (x, st') :: post →
        ∃ ys zs, y :: xs = ys ++ x :: zs ∧ pieces st ys = some st' ∧ shorts st ys = pre ∧ x.entry.isShort = true := by
      intro pre' hpre hrest
      cases hp : st.pass y.entry with
      | none =>
        rw [hp] at hrest
        cases pre' <;> cases hrest
      | some st₁ =>
        rw [hp] at hrest
        obtain ⟨ys, zs, rfl, hpieces, hshorts, hx⟩ := ih hrest
        refine ⟨y :: ys, zs, rfl, ?_, ?_, hx⟩
        · rw [pieces, hp]
          exact hpieces
        · rw [shorts_cons, hp, hpre]
          exact congrArg (_ ++ ·) hshorts
    by_cases hy : y.entry.isShort
    · rw [if_pos hy] at h hskip
      cases pre with
      | nil =>
        obtain ⟨hxy, -⟩ := List.cons.inj h
        cases hxy
        exact ⟨[], xs, rfl, rfl, rfl, hy⟩
      | cons p pre =>
        obtain ⟨hp, hrest⟩ := List.cons.inj h
        exact hskip pre (by rw [hp]; rfl) hrest
    · rw [if_neg hy] at h hskip
      exact hskip pre rfl h

/-! ## Pieces that are missing -/

/-- Without pieces, or the same. -/
def Weaker (st st' : LfnState) : Prop := st' = st ∨ st'.valid = false

theorem Weaker.longName {st st' : LfnState} (h : Weaker st st') (e : Entry) {long : List UInt8}
    (hl : st'.longName e = some long) : st.longName e = some long := by
  rcases h with rfl | h
  · exact hl
  · simp [LfnState.longName, h] at hl

theorem Weaker.nameMatches {st st' : LfnState} (h : Weaker st st') (e : Entry)
    (hm : nameMatches name st' e = true) : nameMatches name st e = true := by
  unfold Fat32.nameMatches at hm ⊢
  cases hl : st'.longName e with
  | none =>
    rw [hl, Bool.false_or] at hm
    rw [hm, Bool.or_true]
  | some long =>
    rw [hl] at hm
    rw [h.longName e hl]
    exact hm

/-- Pieces do not come back before the next run begins. -/
theorem Weaker.pass {st st' a : LfnState} (h : Weaker st st') (e : Entry) (ha : st.pass e = some a) :
    ∃ b, st'.pass e = some b ∧ Weaker a b := by
  rcases h with rfl | h
  · exact ⟨a, ha, .inl rfl⟩
  unfold LfnState.pass at ha ⊢
  by_cases h0 : e.first = 0
  · rw [if_pos h0] at ha
    cases ha
  rw [if_neg h0] at ha ⊢
  by_cases hdel : e.first = 0xE5
  · rw [if_pos hdel]
    exact ⟨_, rfl, .inr rfl⟩
  rw [if_neg hdel] at ha ⊢
  by_cases hlfn : e.isLfn
  · rw [if_pos hlfn] at ha ⊢
    by_cases horder : e.order &&& 0x40 ≠ 0
    · have hsame : st'.collect e = st.collect e := by simp only [LfnState.collect, if_pos horder]
      exact ⟨a, hsame.trans ha, .inl rfl⟩
    · refine ⟨st'.reset, ?_, .inr rfl⟩
      simp only [LfnState.collect, if_neg horder, h, Bool.false_eq_true, false_and, if_false]
  · rw [if_neg hlfn]
    exact ⟨_, rfl, .inr rfl⟩

theorem Weaker.pieces {xs : List Slot} : ∀ {st st' a : LfnState}, Weaker st st' → Fat32.pieces st xs = some a →
    ∃ b, Fat32.pieces st' xs = some b ∧ Weaker a b := by
  induction xs with
  | nil =>
    intro st st' a h ha
    cases ha
    exact ⟨st', rfl, h⟩
  | cons x xs ih =>
    intro st st' a h ha
    obtain ⟨st₁, hp, ha⟩ := Option.bind_eq_some_iff.mp ha
    obtain ⟨st₁', hp', h₁⟩ := h.pass x.entry hp
    obtain ⟨b, hb, hw⟩ := ih h₁ ha
    refine ⟨b, ?_, hw⟩
    rw [Fat32.pieces, hp']
    exact hb

/-- The same entries come up, with fewer pieces. -/
theorem Weaker.shorts {xs : List Slot} : ∀ {st st' a : LfnState}, Weaker st st' → Fat32.pieces st xs = some a →
    (∀ p ∈ Fat32.shorts st xs, ∃ q ∈ Fat32.shorts st' xs, q.1 = p.1) ∧
      ∀ q ∈ Fat32.shorts st' xs, ∃ p ∈ Fat32.shorts st xs, p.1 = q.1 ∧ Weaker p.2 q.2 := by
  induction xs with
  | nil => exact fun _ _ => ⟨fun p hp => absurd hp not_mem_nil, fun q hq => absurd hq not_mem_nil⟩
  | cons x xs ih =>
    intro st st' a h ha
    obtain ⟨st₁, hp, ha⟩ := Option.bind_eq_some_iff.mp ha
    obtain ⟨st₁', hp', h₁⟩ := h.pass x.entry hp
    obtain ⟨hleft, hright⟩ := ih h₁ ha
    rw [Fat32.shorts, Fat32.shorts, hp, hp']
    by_cases hx : x.entry.isShort
    · rw [if_pos hx, if_pos hx]
      refine ⟨fun p hp => ?_, fun q hq => ?_⟩
      · rcases mem_cons.mp hp with rfl | hp
        · exact ⟨(x, st'), mem_cons_self, rfl⟩
        · obtain ⟨q, hq, heq⟩ := hleft p hp
          exact ⟨q, mem_cons_of_mem _ hq, heq⟩
      · rcases mem_cons.mp hq with rfl | hq
        · exact ⟨(x, st), mem_cons_self, rfl, h⟩
        · obtain ⟨p, hp, heq⟩ := hright q hq
          exact ⟨p, mem_cons_of_mem _ hp, heq⟩
    · rw [if_neg hx, if_neg hx]
      exact ⟨hleft, hright⟩

/-! ## The first entry with a name -/

def Slot.isLive (x : Slot) : Bool := !x.entry.isVolumeId && x.entry.first != 32

/-- Is the name that of the entry, with these pieces before it? -/
def named (name : List UInt8) (p : Slot × LfnState) : Bool := nameMatches name p.2 p.1.entry

/-- The same with the pieces from its own cluster only. -/
def ownNamed (name : List UInt8) (x : Slot) : Bool :=
  match pieces .init (slotsFrom x.cluster x.buf 0 x.index) with
  | none => false
  | some st => nameMatches name st x.entry

/-- The names of the short entries of a directory in order, on which all scans agree. An entry
that is blank has the name only after a live one; and the first live one has it without
the pieces from clusters before its own, and before it in its cluster there is no label or
blank entry that has it. -/
structure Agreeable (name : List UInt8) (ps : List (Slot × LfnState)) : Prop where
  blank : ∀ pre p post, ps = pre ++ p :: post → p.1.entry.isVolumeId = false → p.1.entry.first = 32 → named name p →
    ∃ q ∈ pre, q.1.isLive ∧ named name q
  own : ∀ pre p post, ps = pre ++ p :: post → p.1.isLive → named name p → (∀ q ∈ pre, q.1.isLive → ¬named name q) →
    ownNamed name p.1 ∧ ∀ q ∈ pre, q.1.cluster = p.1.cluster → q.1.isLive = false → ¬ownNamed name q.1

/-! ## Two searches in one list -/

section Find

variable {α κ : Type}

/-- Where one search accepts more than another, both find the same if what only the first
accepts comes too late. -/
theorem find?_eq_find?_iff {F R : α → Bool} (hsub : ∀ a, F a → R a) (l : List α) : l.find? R = l.find? F ↔
    ∀ pre a post, l = pre ++ a :: post → R a → ¬F a → ∃ b ∈ pre, F b := by
  induction l with
  | nil =>
    refine ⟨fun _ pre a post h => ?_, fun _ => rfl⟩
    cases pre <;> cases h
  | cons x l ih =>
    have hcons : (∀ pre a post, x :: l = pre ++ a :: post → R a → ¬F a → ∃ b ∈ pre, F b) ↔
        (R x → F x) ∧ (F x ∨ ∀ pre a post, l = pre ++ a :: post → R a → ¬F a → ∃ b ∈ pre, F b) := by
      constructor
      · intro h
        refine ⟨fun hR => by_contra fun hF => ?_, or_iff_not_imp_left.mpr fun hF pre a post hl hR ha => ?_⟩
        · obtain ⟨b, hb, _⟩ := h [] x l rfl hR hF
          exact absurd hb not_mem_nil
        · obtain ⟨b, hb, hFb⟩ := h (x :: pre) a post (by rw [hl]; rfl) hR ha
          rcases mem_cons.mp hb with rfl | hb
          · exact absurd hFb hF
          · exact ⟨b, hb, hFb⟩
      · rintro ⟨hx, hl⟩ pre a post h hR ha
        cases pre with
        | nil =>
          cases h
          exact absurd (hx hR) ha
        | cons y pre =>
          obtain ⟨hxy, hrest⟩ := List.cons.inj h
          rcases hl with hF | hl
          · exact ⟨y, mem_cons_self, hxy ▸ hF⟩
          · obtain ⟨b, hb, hFb⟩ := hl pre a post hrest hR ha
            exact ⟨b, mem_cons_of_mem _ hb, hFb⟩
    rw [hcons]
    cases hF : F x with
    | true => simp [hsub x hF, hF]
    | false =>
      cases hR : R x with
      | true =>
        have hne : some x ≠ l.find? F := fun h => by
          have := List.find?_some h.symm
          rw [hF] at this
          cases this
        simp [hR, hF, hne]
      | false => simp [hR, hF, ih]

/-- A search stops at a place in a list of different places. -/
theorem find?_at {key : α → κ} {U : α → Bool} {a : α} {post : List α} (pre : List α)
    (hnd : ((pre ++ a :: post).map key).Nodup) :
    ((pre ++ a :: post).find? U).map key = some (key a) ↔ (∀ b ∈ pre, U b = false) ∧ U a := by
  induction pre with
  | nil =>
    have hpost : ∀ b ∈ post, key b ≠ key a := fun b hb h =>
      (nodup_cons.mp hnd).1 (mem_map.mpr ⟨b, hb, h⟩)
    rw [nil_append, List.find?_cons]
    cases hU : U a with
    | true => simp
    | false =>
      simp only [Bool.false_eq_true, and_false, iff_false]
      intro h
      obtain ⟨b, hb, hkey⟩ := Option.map_eq_some_iff.mp h
      exact hpost b (mem_of_find?_eq_some hb) hkey
  | cons x pre ih =>
    rw [cons_append, map_cons, nodup_cons] at hnd
    have hx : key x ≠ key a := fun h => hnd.1 (h ▸ mem_map.mpr ⟨a, by simp, rfl⟩)
    rw [cons_append, List.find?_cons]
    cases hU : U x with
    | true => simp [hU, hx]
    | false => simpa [hU] using ih hnd.2

end Find

/-! ## Runs of the scans -/

/-- The place of the entry that a scan stops at. -/
def Selects (g : Geometry) (sc : Scanner) (cluster : Nat) (s : Fs) (place : Option (Nat × Nat)) : Prop :=
  ∃ o s', Prog.run (onDisk g) (scanDir g sc cluster) s = .ok (o, s') ∧ o.map Hit.place = place

section Machine

variable {s s' : Fs} {c : Nat} {cs : List Nat} {sc : Scanner}

theorem scan_follows (hg : g.Valid) (hs : Mounted g s v) (hc : Chain g v.fat c cs) (sc : Scanner) :
    Prog.Follows .lost (Mounted g) (Prog.run (onDisk g) (scanDir g sc c) s)
      ((scanSlots sc 0 .init (dirSlots g v cs)).map fun o => (o, v)) := by
  rw [← run_scanDir hg sc hc]
  exact Prog.run_follows (fun o s v hm => hm.call hg o s v) _ s v hs

theorem scanSlots_ne_lost (sc : Scanner) (count : Nat) (st : LfnState) (xs : List Slot) :
    scanSlots sc count st xs ≠ .error .lost := by
  rw [scanSlots_eq_walk]
  intro h
  split at h
  · cases h
  · split at h <;> cases h

/-- What a scan of the machine gives is what the search of the slots gives. -/
theorem scan_ok (hg : g.Valid) (hs : Mounted g s v) (hc : Chain g v.fat c cs) {o : Option Hit}
    (hrun : Prog.run (onDisk g) (scanDir g sc c) s = .ok (o, s')) :
    scanSlots sc 0 .init (dirSlots g v cs) = .ok o ∧ Mounted g s' v := by
  have hf := scan_follows hg hs hc sc
  cases hscan : scanSlots sc 0 .init (dirSlots g v cs) with
  | error e =>
    rw [hscan] at hf
    have herr : Prog.run (onDisk g) (scanDir g sc c) s = .error e := hf fun h => scanSlots_ne_lost _ _ _ _ (h ▸ hscan)
    rw [hrun] at herr
    cases herr
  | ok o' =>
    rw [hscan] at hf
    obtain ⟨s₁, hrun', hs₁⟩ := hf
    rw [hrun] at hrun'
    cases hrun'
    exact ⟨rfl, hs₁⟩

theorem selects_iff (hg : g.Valid) (hs : Mounted g s v) (hc : Chain g v.fat c cs) (sc : Scanner)
    (place : Option (Nat × Nat)) :
    Selects g sc c s place ↔ ∃ o, scanSlots sc 0 .init (dirSlots g v cs) = .ok o ∧ o.map Hit.place = place := by
  constructor
  · rintro ⟨o, s', hrun, hplace⟩
    exact ⟨o, (scan_ok hg hs hc hrun).1, hplace⟩
  · rintro ⟨o, hscan, hplace⟩
    have hf := scan_follows hg hs hc sc
    rw [hscan] at hf
    obtain ⟨s', hrun, _⟩ := hf
    exact ⟨o, s', hrun, hplace⟩

end Machine

/-- A scan for a name, as a search in the list of the short entries. -/
theorem scanSlots_named (sc : Scanner) (hsc : ∀ count, sc.accept count = nameMatches name) (xs : List Slot) :
    scanSlots sc 0 .init xs =
      match (shorts .init xs).find? (fun q => !sc.skips q.1.entry && named name q) with
      | some p => .ok (some (p.1.hit p.2))
      | none => if overruns .init xs then .error .overrun else .ok none := by
  rw [scanSlots_eq_walk, walk_eq_find sc (nameMatches name) hsc]
  rfl

theorem scanSlots_named_ok (sc : Scanner) (hsc : ∀ count, sc.accept count = nameMatches name) (xs : List Slot)
    (o : Option Hit) : scanSlots sc 0 .init xs = .ok o ↔
      ((shorts .init xs).find? fun q => !sc.skips q.1.entry && named name q).map (fun q => q.1.hit q.2) = o ∧
        (o = none → overruns .init xs = false) := by
  rw [scanSlots_named sc hsc]
  cases (shorts .init xs).find? fun q => !sc.skips q.1.entry && named name q with
  | some q =>
    simp only [Except.ok.injEq, Option.map_some, iff_self_and]
    rintro rfl h
    cases h
  | none =>
    cases overruns .init xs with
    | true =>
      simp only [if_true, Option.map_none, Bool.true_eq_false, imp_false, reduceCtorEq]
      exact ⟨False.elim, fun h => h.2 h.1.symm⟩
    | false => simp

theorem selects_named {s : Fs} {c : Nat} {cs : List Nat} (hg : g.Valid) (hs : Mounted g s v) (hc : Chain g v.fat c cs)
    (sc : Scanner) (hsc : ∀ count, sc.accept count = nameMatches name) (place : Option (Nat × Nat)) :
    Selects g sc c s place ↔
      ((shorts .init (dirSlots g v cs)).find? fun q => !sc.skips q.1.entry && named name q).map (·.1.place) = place ∧
        (place = none → overruns .init (dirSlots g v cs) = false) := by
  rw [selects_iff hg hs hc]
  constructor
  · rintro ⟨o, hscan, rfl⟩
    obtain ⟨rfl, hover⟩ := (scanSlots_named_ok sc hsc _ o).mp hscan
    refine ⟨by rw [Option.map_map]; rfl, fun h => hover (Option.map_eq_none_iff.mp h)⟩
  · rintro ⟨rfl, hover⟩
    refine ⟨_, (scanSlots_named_ok sc hsc _ _).mpr ⟨rfl, fun h => hover ?_⟩, by rw [Option.map_map]; rfl⟩
    rw [Option.map_eq_none_iff.mp h, Option.map_none]

/-! ## Agreement -/

/-- Where removal and the update of the size stop, once the lookup has found an entry or none. -/
def Agrees (g : Geometry) (dir : Nat) (name : List UInt8) (s : Fs) : Option Hit → Prop
  | none => Selects g (removeScan name) dir s none
  | some h => Selects g (removeScan name) dir s (some h.place) ∧
      Selects g (updateScan (nodeOf name h).name) (nodeOf name h).parentCluster s (some h.place)

section Agree

variable {s s' : Fs} {dir : Nat} {cs : List Nat} {p : Slot × LfnState} {pre post : List (Slot × LfnState)}

theorem finddir_skips (x : Slot) : (!(finddirScan name).skips x.entry) = x.isLive := by
  simp [Scanner.skips, finddirScan, Slot.isLive, bne]

theorem remove_skips (x : Slot) : (!(removeScan name).skips x.entry) = !x.entry.isVolumeId := by
  simp [Scanner.skips, removeScan]

theorem update_skips (x : Slot) : (!(updateScan name).skips x.entry) = true := by
  simp [Scanner.skips, updateScan]

/-- Removal stops where the lookup does if no blank entry has the name before. -/
theorem remove_iff (hg : g.Valid) (hs : Mounted g s v) (hc : Chain g v.fat dir cs) {o : Option Hit}
    (ho : scanSlots (finddirScan name) 0 .init (dirSlots g v cs) = .ok o) :
    Selects g (removeScan name) dir s (o.map Hit.place) ↔
      ∀ pre p post, shorts .init (dirSlots g v cs) = pre ++ p :: post → p.1.entry.isVolumeId = false →
        p.1.entry.first = 32 → named name p → ∃ q ∈ pre, q.1.isLive ∧ named name q := by
  obtain ⟨hfind, hover⟩ := (scanSlots_named_ok (finddirScan name) (fun _ => rfl) _ o).mp ho
  rw [selects_named hg hs hc (removeScan name) fun _ => rfl]
  have hnd := shorts_places (nodup_places (g := g) (v := v) (hc.nodup hg)) .init
  simp only [finddir_skips, remove_skips] at hfind ⊢
  generalize shorts .init (dirSlots g v cs) = ps at hfind hnd
  have hsub : ∀ q : Slot × LfnState, (q.1.isLive && named name q) = true → (!q.1.entry.isVolumeId && named name q) = true := by
    intro q hq
    simp only [Slot.isLive, Bool.and_eq_true] at hq ⊢
    exact ⟨hq.1.1, hq.2⟩
  have hfirst : (ps.find? fun q => !q.1.entry.isVolumeId && named name q).map (·.1.place) = o.map Hit.place ↔
      (ps.find? fun q => !q.1.entry.isVolumeId && named name q) = ps.find? fun q => q.1.isLive && named name q := by
    rw [← hfind, Option.map_map]
    refine ⟨fun h => ?_, fun h => by rw [h]; rfl⟩
    cases hR : ps.find? fun q => !q.1.entry.isVolumeId && named name q with
    | none =>
      rw [hR] at h
      exact (Option.map_eq_none_iff.mp h.symm).symm
    | some q =>
      rw [hR] at h
      obtain ⟨q', hF, hplace⟩ := Option.map_eq_some_iff.mp h.symm
      rw [hF, inj_on_of_nodup_map hnd (mem_of_find?_eq_some hR) (mem_of_find?_eq_some hF) hplace.symm]
  rw [hfirst, find?_eq_find?_iff hsub, and_iff_left fun h => hover (Option.map_eq_none_iff.mp h)]
  refine forall₄_congr fun pre p post _ => ?_
  simp only [Slot.isLive, Bool.and_eq_true, Bool.not_eq_true', bne_iff_ne, ne_eq, not_and]
  constructor
  · intro h hvol hblank hnamed
    exact h ⟨hvol, hnamed⟩ fun hlive => absurd hblank hlive.2
  · rintro h ⟨hvol, hnamed⟩ hblank
    exact h hvol (by_contra fun hne => hblank ⟨hvol, hne⟩ hnamed) hnamed

/-- The name of an entry before which a cluster begins with nothing collected. -/
theorem ownNamed_of_mem {c n : Nat} {buf : Mem} {q : Slot × LfnState} (h : q ∈ shorts .init (slotsFrom c buf 0 n)) :
    ownNamed name q.1 = named name q := by
  obtain ⟨pre, post, hsplit⟩ := append_of_mem h
  obtain ⟨ys, zs, hslots, hpieces, _⟩ := shorts_split hsplit
  obtain ⟨hx, hys⟩ := slotsFrom_split n 0 ys hslots
  have hown : slotsFrom q.1.cluster q.1.buf 0 q.1.index = ys := by
    rw [hx, Nat.zero_add]
    exact hys.symm
  unfold ownNamed
  rw [hown, hpieces]
  rfl

/-- The update stops at the entry that the lookup has found, if nothing that the lookup skips
has the name in the cluster before, and the entry itself keeps it. -/
theorem update_iff (hg : g.Valid) (hs : Mounted g s v) (hc : Chain g v.fat dir cs)
    (hps : shorts .init (dirSlots g v cs) = pre ++ p :: post)
    (hfirst : ∀ q ∈ pre, q.1.isLive → ¬named name q) :
    Selects g (updateScan name) p.1.cluster s (some p.1.place) ↔
      ownNamed name p.1 ∧ ∀ q ∈ pre, q.1.cluster = p.1.cluster → q.1.isLive = false → ¬ownNamed name q.1 := by
  obtain ⟨x, st⟩ := p
  obtain ⟨ys, zs, hslots, hpieces, hpre, hshort⟩ := shorts_split hps
  obtain ⟨cs₁, cs₂, rest, rfl, rfl, hcl⟩ := dirSlots_split cs ys hslots
  have hnd := hc.nodup hg
  rw [pieces_append] at hpieces
  obtain ⟨st₁, h₁, hB⟩ := Option.bind_eq_some_iff.mp hpieces
  have hweak : Weaker st₁ .init := .inr rfl
  obtain ⟨own, hown, _⟩ := hweak.pieces hB
  obtain ⟨hleft, hright⟩ := hweak.shorts hB
  rw [shorts_append, h₁] at hpre
  have hlist : ∃ post', shorts .init (dirSlots g v (x.cluster :: cs₂)) =
      shorts .init (slotsFrom x.cluster x.buf 0 x.index) ++ (x, own) :: post' := by
    rw [dirSlots_cons, hcl, append_assoc, shorts_append, hown]
    obtain ⟨post', hpost⟩ := shorts_cons_short hshort own (rest ++ dirSlots g v cs₂)
    exact ⟨post', congrArg (_ ++ ·) hpost⟩
  obtain ⟨post', hlist⟩ := hlist
  have hplaces := shorts_places (nodup_places (g := g) (v := v) (hc.suffix.nodup hg)) .init
  rw [selects_named hg hs hc.suffix (updateScan name) fun _ => rfl]
  simp only [update_skips, Bool.true_and, reduceCtorEq, false_imp_iff, and_true]
  rw [hlist] at hplaces ⊢
  refine (find?_at (U := named name) _ hplaces).trans (and_comm.trans ?_)
  have hx : ownNamed name x = named name (x, own) := by
    unfold ownNamed
    rw [hown]
    rfl
  rw [hx]
  refine and_congr_right fun _ => ⟨fun h q hq hclq _ => ?_, fun h b hb => ?_⟩
  · have hqB : q ∈ shorts st₁ (slotsFrom x.cluster x.buf 0 x.index) := by
      rw [← hpre] at hq
      refine (mem_append.mp hq).resolve_left fun hq₁ => ?_
      -- an entry of this cluster does not stand in one before
      have hmem : q.1 ∈ dirSlots g v cs₁ := (shorts_sublist _ _).subset (mem_map_of_mem hq₁)
      have hin := cluster_of_mem_dirSlots hmem
      rw [hclq] at hin
      exact (nodup_append.mp hnd).2.2 _ hin _ mem_cons_self rfl
    obtain ⟨b, hb, heq⟩ := hleft q hqB
    rw [← heq, ownNamed_of_mem hb, h b hb]
    exact Bool.false_ne_true
  · obtain ⟨q, hq, heq, hw⟩ := hright b hb
    have hqpre : q ∈ pre := hpre ▸ mem_append_right _ hq
    rw [← Bool.not_eq_true]
    intro hnamed
    cases hlive : q.1.isLive with
    | true =>
      refine hfirst q hqpre hlive ?_
      rw [named, heq]
      exact hw.nameMatches _ hnamed
    | false =>
      have hclq : q.1.cluster = x.cluster := by
        rw [heq]
        exact cluster_of_mem_slotsFrom ((shorts_sublist _ _).subset (mem_map_of_mem hb))
      refine h q hqpre hclq hlive ?_
      rw [heq, ownNamed_of_mem hb]
      exact hnamed

/-- Once the lookup has returned, removal and update stop where it did, and so does removal
where it found nothing, exactly if the directory is one on which the scans agree. -/
theorem scanners_agree (hg : g.Valid) (hs : Mounted g s v) (hc : Chain g v.fat dir cs) (hname : name.length ≤ 255)
    {o : Option Hit} (hrun : Prog.run (onDisk g) (scanDir g (finddirScan name) dir) s = .ok (o, s')) :
    Agrees g dir name s' o ↔ Agreeable name (shorts .init (dirSlots g v cs)) := by
  obtain ⟨ho, hs'⟩ := scan_ok hg hs hc hrun
  have hremove := remove_iff hg hs' hc ho
  obtain ⟨hfind, _⟩ := (scanSlots_named_ok (finddirScan name) (fun _ => rfl) _ o).mp ho
  simp only [finddir_skips] at hfind
  cases hF : (shorts .init (dirSlots g v cs)).find? fun q => q.1.isLive && named name q with
  | none =>
    rw [hF] at hfind
    subst hfind
    refine hremove.trans ⟨fun h => ⟨h, fun pre p post hps hlive hnamed _ => ?_⟩, Agreeable.blank⟩
    have hnone := List.find?_eq_none.mp hF p (by rw [hps]; simp)
    simp [hlive, hnamed] at hnone
  | some p =>
    rw [hF] at hfind
    subst hfind
    obtain ⟨hp, pre, post, hps, hpre⟩ := List.find?_eq_some_iff_append.mp hF
    simp only [Bool.and_eq_true, Bool.not_eq_true', Bool.and_eq_false_iff] at hp hpre
    have hfirst : ∀ q ∈ pre, q.1.isLive → ¬named name q := fun q hq hlive hnamed => by
      rcases hpre q hq with h | h
      · rw [hlive] at h
        cases h
      · rw [hnamed] at h
        cases h
    have hupdate := update_iff hg hs' hc hps hfirst
    have hnode : (nodeOf name (p.1.hit p.2)).name = name := List.take_of_length_le hname
    show _ ∧ Selects g (updateScan (nodeOf name (p.1.hit p.2)).name) p.1.cluster s' (some p.1.place) ↔ _
    rw [hnode, hupdate]
    refine ⟨fun h => ⟨hremove.mp h.1, fun pre' p' post' hps' hlive hnamed hfirst' => ?_⟩, fun h =>
      ⟨hremove.mpr h.blank, h.own pre p post hps hp.1 hp.2 hfirst⟩⟩
    -- the first live entry with the name is one
    have hF' : (shorts .init (dirSlots g v cs)).find? (fun q => q.1.isLive && named name q) = some p' :=
      List.find?_eq_some_iff_append.mpr ⟨by simp [hlive, hnamed], pre', post', hps', fun q hq => by
        rw [Bool.not_eq_true', Bool.and_eq_false_imp]
        exact fun hl => Bool.eq_false_of_not_eq_true (hfirst' q hq hl)⟩
    cases Option.some.inj (hF'.symm.trans hF)
    exact (update_iff hg hs' hc hps' hfirst').mp (hupdate.mpr h.2)

end Agree

/-! ## A label with the name of a file -/

/-- A FAT of one sector, and clusters of one sector behind it. -/
def oneSector : Geometry where
  bytesPerSector := 512
  sectorsPerCluster := 1
  tableCount := 1
  fatSize := 1
  rootCluster := 2
  fatStartLba := 0
  clusterHeapStartLba := 1
  readOnly := false

theorem oneSector_valid : oneSector.Valid where
  bytesPerSector := rfl
  sectorsPerCluster := by decide
  tableCount := by decide
  fatSize := by decide
  clusterHeap := rfl
  clusters := by norm_num [oneSector, fat32ClusterEnd]
  sectors := by norm_num [oneSector]

/-- Cluster 2 is a directory of its own with these bytes. -/
def rootDisk (root : List UInt8) : Mem := fun x =>
  if x < 512 then [0xF8, 0xFF, 0xFF, 0x0F, 0xFF, 0xFF, 0xFF, 0x0F, 0xF8, 0xFF, 0xFF, 0x0F].getD x 0
  else root.getD (x - 512) 0

def rootVolume (root : List UInt8) : Volume := ⟨diskEntry oneSector (rootDisk root) 0, rootDisk root⟩

theorem mounted_root (root : List UInt8) :
    Mounted oneSector (fat32Mount oneSector (rootDisk root) true) (rootVolume root) :=
  mounted_mount oneSector_valid (fun k hk x _ => by rw [Nat.lt_one_iff.mp hk]) true

theorem rootVolume_fat (root : List UInt8) : (rootVolume root).fat 2 = fat32ClusterEnd := by
  show entryValue (ByteMem.load32 (rootDisk root) 8) = _
  simp [entryValue, ByteMem.load32, ByteMem.load16, rootDisk, fat32ClusterEnd]

theorem chain_root (root : List UInt8) : Chain oneSector (rootVolume root).fat 2 [2] :=
  .cons (by decide) (.nil (Nat.le_of_eq (rootVolume_fat root).symm))

/-- An entry with a name of 11 bytes. -/
def plainEntry (key : List UInt8) (attr : UInt8) (cluster : UInt8) : List UInt8 :=
  key ++ [attr] ++ List.replicate 14 0 ++ [cluster, 0, 0, 0, 0, 0]

def kernelKey : List UInt8 := [75, 69, 82, 78, 69, 76, 32, 32, 32, 32, 32]

/-- The volume is labelled `KERNEL`, and there is a file of that name. -/
def labelled : List UInt8 := plainEntry kernelKey 0x08 0 ++ plainEntry kernelKey 0x20 3

theorem exists_hit {e : Except Stop (Option Hit)} {place : Option (Nat × Nat)}
    (h : e.map (fun o => o.map Hit.place) = .ok place) : ∃ o, e = .ok o ∧ o.map Hit.place = place := by
  cases e with
  | error e => cases h
  | ok o => exact ⟨o, rfl, Except.ok.inj h⟩

/-- The size of the file is written into the label. -/
theorem not_always_agree : ¬∀ (g : Geometry) (s s' : Fs) (v : Volume) (dir : Nat) (cs : List Nat) (name : List UInt8)
    (o : Option Hit), g.Valid → Mounted g s v → Chain g v.fat dir cs → name.length ≤ 255 →
      Prog.run (onDisk g) (scanDir g (finddirScan name) dir) s = .ok (o, s') → Agrees g dir name s' o := by
  intro hall
  have hs := mounted_root labelled
  have hc := chain_root labelled
  have hlookup : (scanSlots (finddirScan (kernelKey.take 6)) 0 .init (dirSlots oneSector (rootVolume labelled) [2])).map
      (fun o => o.map Hit.place) = .ok (some (2, 1)) := rfl
  have hupdate : (scanSlots (updateScan (kernelKey.take 6)) 0 .init (dirSlots oneSector (rootVolume labelled) [2])).map
      (fun o => o.map Hit.place) = .ok (some (2, 0)) := rfl
  obtain ⟨o, s', hrun, ho⟩ := (selects_iff oneSector_valid hs hc _ _).mpr (exists_hit hlookup)
  obtain ⟨hit, rfl, hplace⟩ := Option.map_eq_some_iff.mp ho
  obtain ⟨_, hs'⟩ := scan_ok oneSector_valid hs hc hrun
  have hagree := hall _ _ _ _ _ _ _ _ oneSector_valid hs hc (by decide) hrun
  have hcluster : (nodeOf (kernelKey.take 6) hit).parentCluster = 2 := congrArg Prod.fst hplace
  have hsel := hagree.2
  rw [hcluster, hplace] at hsel
  obtain ⟨o', hscan, ho'⟩ := (selects_iff oneSector_valid hs' hc _ _).mp hsel
  obtain ⟨o'', hscan', ho''⟩ := exists_hit hupdate
  have hname : (nodeOf (kernelKey.take 6) hit).name = kernelKey.take 6 := rfl
  rw [hname, hscan'] at hscan
  rw [Except.ok.inj hscan, ho'] at ho''
  cases ho''

/-- A file `A`. -/
def oneFile : List UInt8 := plainEntry [65, 32, 32, 32, 32, 32, 32, 32, 32, 32, 32] 0x20 3

/-- Every scan finds the one file of a directory. -/
theorem scanners_agree_oneFile : ∃ o s', Prog.run (onDisk oneSector) (scanDir oneSector (finddirScan [65]) 2)
    (fat32Mount oneSector (rootDisk oneFile) true) = .ok (o, s') ∧ Agrees oneSector 2 [65] s' o := by
  have hs := mounted_root oneFile
  have hc := chain_root oneFile
  have hlookup : (scanSlots (finddirScan [65]) 0 .init (dirSlots oneSector (rootVolume oneFile) [2])).map
      (fun o => o.map Hit.place) = .ok (some (2, 0)) := rfl
  obtain ⟨o, s', hrun, _⟩ := (selects_iff oneSector_valid hs hc _ _).mpr (exists_hit hlookup)
  have hlist : shorts .init (dirSlots oneSector (rootVolume oneFile) [2]) =
      [(⟨2, (rootVolume oneFile).cluster oneSector 2, 0⟩, .init)] := rfl
  have hfirst : (entryAt ((rootVolume oneFile).cluster oneSector 2) 0).first = 65 := by decide +kernel
  have hown : ownNamed [65] ⟨2, (rootVolume oneFile).cluster oneSector 2, 0⟩ = true := by decide +kernel
  refine ⟨o, s', hrun, (scanners_agree oneSector_valid hs hc (by decide) hrun).mpr ⟨fun pre p post hps _ hblank _ => ?_,
    fun pre p post hps _ _ _ => ?_⟩⟩
  · rw [hlist] at hps
    obtain ⟨rfl, hp⟩ | ⟨_, _, hnil⟩ := List.cons_eq_append_iff.mp hps
    · cases hp
      rw [Slot.entry, hfirst] at hblank
      cases hblank
    · simp at hnil
  · rw [hlist] at hps
    obtain ⟨rfl, hp⟩ | ⟨_, _, hnil⟩ := List.cons_eq_append_iff.mp hps
    · cases hp
      exact ⟨hown, fun q hq => absurd hq List.not_mem_nil⟩
    · simp at hnil

end Serotonin.Fat32
