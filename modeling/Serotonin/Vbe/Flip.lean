import Serotonin.Vbe.Marks

/-! Incremental and full repaint. A flip puts together every pixel that is marked, so it leaves
the framebuffer as a repaint of the whole screen would. -/

namespace Serotonin.Vbe

open ByteMem (u32)

namespace Screen

variable {m : Mode} {s s' : Screen} {x y : Nat}

/-! ## Runs of tiles -/

theorem scan_spec (p : Nat → Bool) (last : Nat) : ∀ n tx, last + 1 ≤ tx + n →
    tx ≤ scan p last n tx ∧ (∀ t, tx ≤ t → t < scan p last n tx → t ≤ last ∧ p t = true) ∧
      (scan p last n tx ≤ last → p (scan p last n tx) = false) := by
  intro n
  induction n with
  | zero =>
    intro tx hn
    exact ⟨Nat.le_refl tx, fun t hle hlt => absurd hlt (Nat.not_lt.mpr hle), fun h => by simp only [scan] at h; omega⟩
  | succ n ih =>
    intro tx hn
    unfold scan
    split
    · next h =>
      obtain ⟨hle, hall, hstop⟩ := ih (tx + 1) (by omega)
      refine ⟨by omega, fun t htx ht => ?_, hstop⟩
      by_cases he : t = tx
      · rw [he]
        exact h
      · exact hall t (by omega) ht
    · next h =>
      refine ⟨Nat.le_refl tx, fun t hle hlt => absurd hlt (Nat.not_lt.mpr hle), fun hlast => ?_⟩
      rw [not_and] at h
      simpa using h hlast

/-- Every dirty tile is in one of the runs. -/
theorem runs_cover (dirty : Nat → Bool) {last : Nat} (hlast : last < 2 ^ 16) : ∀ n tx, last + 1 ≤ tx + n →
    ∀ t, tx ≤ t → t ≤ last → dirty t = true → ∃ run ∈ runs dirty last n tx, run.1 ≤ t ∧ t ≤ run.2 ∧ run.2 ≤ last := by
  intro n
  induction n with
  | zero =>
    intro tx hn t htx htl
    omega
  | succ n ih =>
    intro tx hn t htx htl hd
    obtain ⟨hle, hclean, hstart⟩ := scan_spec (fun tx => !dirty tx) last (last + 1) tx (by omega)
    unfold runs
    simp only
    generalize scan (fun tx => !dirty tx) last (last + 1) tx = start at hle hclean hstart ⊢
    have hst : start ≤ t := by
      by_contra hlt
      have := (hclean t htx (by omega)).2
      simp [hd] at this
    obtain ⟨hle', hdirty, hstop⟩ := scan_spec dirty last (last + 1) start (by omega)
    generalize scan dirty last (last + 1) start = stop at hle' hdirty hstop ⊢
    have hlt : start < stop := by
      refine Nat.lt_of_le_of_ne hle' fun he => ?_
      have h := hstop (by omega)
      have h' := hstart (by omega)
      rw [← he] at h
      simp [h] at h'
    have hstop' : u16 (stop - 1) = stop - 1 := by
      have := (hdirty (stop - 1) (by omega) (by omega)).1
      exact Nat.mod_eq_of_lt (by omega)
    have hn : ¬ last < start := by omega
    rw [if_neg hn]
    by_cases ht : t < stop
    · refine ⟨(start, u16 (stop - 1)), List.mem_cons_self, hst, ?_, ?_⟩
      · show t ≤ u16 (stop - 1)
        omega
      · show u16 (stop - 1) ≤ last
        rw [hstop']
        exact (hdirty (stop - 1) (by omega) (by omega)).1
    · obtain ⟨run, hrun, h⟩ := ih stop (by omega) t (by omega) htl hd
      exact ⟨run, List.mem_cons_of_mem _ hrun, h⟩

/-! ## A flip -/

/-- The pixel of the framebuffer is what there is to show. -/
def Shown (m : Mode) (s : Screen) (x y : Nat) : Prop := s.fb x y = s.composite m x y

/-- Only the framebuffer changes, and no pixel of it for the worse. -/
structure Shows (m : Mode) (s s' : Screen) : Prop where
  layer0 : s'.layer0 = s.layer0
  layers : s'.layers = s.layers
  cursor : s'.cursor = s.cursor
  shown : ∀ x y, s.Shown m x y → s'.Shown m x y

theorem Shows.refl (m : Mode) (s : Screen) : Shows m s s := ⟨rfl, rfl, rfl, fun _ _ h => h⟩

theorem Shows.trans {s'' : Screen} (h : Shows m s s') (h' : Shows m s' s'') : Shows m s s'' where
  layer0 := h'.layer0.trans h.layer0
  layers := h'.layers.trans h.layers
  cursor := h'.cursor.trans h.cursor
  shown x y hs := h'.shown x y (h.shown x y hs)

theorem composeRect_composite (s : Screen) (x0 y0 x1 y1 x y : Nat) :
    (s.composeRect m x0 y0 x1 y1).composite m x y = s.composite m x y := composite_congr rfl rfl rfl

theorem composeRect_shown (s : Screen) {x0 y0 x1 y1 : Nat} (hx : x0 ≤ x ∧ x < x1) (hy : y0 ≤ y ∧ y < y1) :
    (s.composeRect m x0 y0 x1 y1).Shown m x y := by
  unfold Shown
  rw [composeRect_composite]
  exact if_pos ⟨hx.1, hx.2, hy⟩

theorem composeRect_shows (s : Screen) (x0 y0 x1 y1 : Nat) : Shows m s (s.composeRect m x0 y0 x1 y1) := by
  refine ⟨rfl, rfl, rfl, fun x y hs => ?_⟩
  unfold Shown
  rw [composeRect_composite]
  show (if _ then _ else _) = _
  split
  · rfl
  · exact hs

theorem foldl_shows {α : Type} {f : Screen → α → Screen} (hf : ∀ s a, Shows m s (f s a)) (l : List α) (s : Screen) :
    Shows m s (l.foldl f s) := by
  induction l generalizing s with
  | nil => exact .refl m s
  | cons a l ih => exact (hf s a).trans (ih (f s a))

/-- What one turn shows is still shown in the end. -/
theorem foldl_shown {α : Type} {f : Screen → α → Screen} (hf : ∀ s a, Shows m s (f s a)) {l : List α} {a : α}
    (ha : a ∈ l) (h : ∀ s, (f s a).Shown m x y) (s : Screen) : (l.foldl f s).Shown m x y := by
  induction l generalizing s with
  | nil => cases ha
  | cons b l ih =>
    rcases List.mem_cons.mp ha with rfl | ha
    · exact (foldl_shows hf l (f s a)).shown x y (h s)
    · exact ih ha (f s b)

theorem ite_shows {c : Prop} [Decidable c] (h : Shows m s s') : Shows m s (if c then s else s') := by
  split
  · exact .refl m s
  · exact h

theorem flipRun_shows (b : Box) (y0 y1 : Nat) (s : Screen) (run : Nat × Nat) : Shows m s (flipRun m b y0 y1 s run) := by
  unfold flipRun
  exact ite_shows (composeRect_shows s _ _ _ _)

theorem flipRow_shows (work : Nat → Nat → Bool) (b : Box) (s : Screen) (ty : Nat) :
    Shows m s (flipRow m work b s ty) := by
  unfold flipRow
  exact ite_shows (foldl_shows (flipRun_shows b _ _) _ s)

/-- A pixel of the run that is in the box and in the row. -/
theorem flipRun_shown (hm : m.Compact) {b : Box} {y0 y1 : Nat} {run : Nat × Nat} (hx : x < m.width)
    (hrun : run.1 ≤ x / tileSize ∧ x / tileSize ≤ run.2 ∧ run.2 ≤ (b.x1 - 1) / tileSize) (hb : b.x0 ≤ x ∧ x < b.x1)
    (hbw : b.x1 ≤ m.width) (hy : y0 ≤ y ∧ y < y1) (s : Screen) : (flipRun m b y0 y1 s run).Shown m x y := by
  have hwidth := hm.width
  simp only [tileSize] at hrun
  have hleft : u16 (run.1 * tileSize) = run.1 * 16 := by
    refine Nat.mod_eq_of_lt ?_
    show run.1 * 16 < 2 ^ 16
    omega
  have hright : u16 ((run.2 + 1) * tileSize) = (run.2 + 1) * 16 := by
    refine Nat.mod_eq_of_lt ?_
    show (run.2 + 1) * 16 < 2 ^ 16
    omega
  have hedge : u16 m.width = m.width := Nat.mod_eq_of_lt (by omega)
  unfold flipRun
  rw [hleft, hright, hedge]
  simp only
  generalize h0 : (if run.1 * 16 < b.x0 then b.x0 else run.1 * 16) = x0
  generalize h1 : (if m.width < (run.2 + 1) * 16 then m.width else (run.2 + 1) * 16) = x1
  generalize h2 : (if b.x1 < x1 then b.x1 else x1) = x2
  have hx0 : x0 ≤ x := by
    subst h0
    split <;> omega
  have hx1 : x < x1 := by
    subst h1
    split <;> omega
  have hx2 : x < x2 := by
    subst h2
    split <;> omega
  rw [if_neg (by omega)]
  exact composeRect_shown s ⟨hx0, hx2⟩ hy

/-- A pixel of the row that is in the box, and whose tile is dirty. -/
theorem flipRow_shown (hm : m.Compact) {work : Nat → Nat → Bool} {b : Box} (hx : x < m.width) (hy : y < m.height)
    (htile : work (x / tileSize) (y / tileSize) = true) (hbx : b.x0 ≤ x ∧ x < b.x1) (hbw : b.x1 ≤ m.width)
    (hby : b.y0 ≤ y ∧ y < b.y1) (s : Screen) : (flipRow m work b s (y / tileSize)).Shown m x y := by
  have hwidth := hm.width
  have hheight := hm.height
  have htop : u16 (y / tileSize * tileSize) = y / 16 * 16 := by
    refine Nat.mod_eq_of_lt ?_
    show y / 16 * 16 < 2 ^ 16
    omega
  have hbottom : u16 (y / 16 * 16 + tileSize) = y / 16 * 16 + 16 := by
    refine Nat.mod_eq_of_lt ?_
    show y / 16 * 16 + 16 < 2 ^ 16
    omega
  have hedge : u16 m.height = m.height := Nat.mod_eq_of_lt (by omega)
  unfold flipRow
  simp only
  rw [htop, hbottom, hedge]
  generalize h0 : (if y / 16 * 16 < b.y0 then b.y0 else y / 16 * 16) = y0
  generalize h1 : (if m.height < y / 16 * 16 + 16 then m.height else y / 16 * 16 + 16) = y1
  generalize h2 : (if b.y1 < y1 then b.y1 else y1) = y2
  have hy0 : y0 ≤ y := by
    subst h0
    split <;> omega
  have hy1 : y < y1 := by
    subst h1
    split <;> omega
  have hy2 : y < y2 := by
    subst h2
    split <;> omega
  rw [if_neg (by omega)]
  have htx : x / tileSize < m.tilesX ∧ y / tileSize < m.tilesY := by
    simp only [Mode.tilesX, Mode.tilesY, tileSize, u16]
    omega
  have hdirty : (decide (x / tileSize < m.tilesX ∧ y / tileSize < m.tilesY) && work (x / tileSize) (y / tileSize)) = true := by
    rw [htile, decide_eq_true htx, Bool.and_self]
  have hlast : (b.x1 - 1) / tileSize < 2 ^ 16 := by
    simp only [tileSize]
    omega
  obtain ⟨run, hrun, h⟩ := runs_cover (fun tx => decide (tx < m.tilesX ∧ y / tileSize < m.tilesY) && work tx (y / tileSize))
    hlast ((b.x1 - 1) / tileSize + 1) (b.x0 / tileSize) (Nat.le_add_left _ _) (x / tileSize) (Nat.div_le_div_right hbx.1)
    (Nat.div_le_div_right (by omega)) hdirty
  exact foldl_shown (flipRun_shows b y0 y2) hrun (flipRun_shown hm hx h hbx hbw ⟨hy0, hy2⟩) s

/-- A flip shows every pixel that was kept, whether it was marked or not. -/
theorem flip_shown (hm : m.Compact) (hk : s.Kept m) (hx : x < m.width) (hy : y < m.height) : (s.flip m).Shown m x y := by
  have hwidth := hm.width
  have hheight := hm.height
  have hw : u16 m.width = m.width := Nat.mod_eq_of_lt (by omega)
  have hh : u16 m.height = m.height := Nat.mod_eq_of_lt (by omega)
  unfold flip
  rw [hw, hh]
  simp only
  generalize h1 : (if m.width < s.box.x1 then m.width else s.box.x1) = x1
  generalize h2 : (if m.height < s.box.y1 then m.height else s.box.y1) = y1
  split
  · next hu =>
    refine (hk x hx y hy).resolve_right fun hmarked => ?_
    obtain ⟨h0, -, h0', -⟩ := isUnused_eq_false.mp hmarked.used
    exact hu.elim h0 h0'
  · have hclear (h : s.Shown m x y) : Shown m { s with tiles := fun _ _ => false, box := Box.none } x y :=
      h.trans (composite_congr rfl rfl rfl).symm
    rcases hk x hx y hy with hshown | hmarked
    · split
      · exact hclear hshown
      · exact (foldl_shows (flipRow_shows s.tiles _) _ _).shown x y (hclear hshown)
    · have hr : x < x1 := by
        have := hmarked.right
        subst h1
        split <;> omega
      have hb : y < y1 := by
        have := hmarked.below
        subst h2
        split <;> omega
      have hx1 : x1 ≤ m.width := by
        subst h1
        split <;> omega
      have hl := hmarked.left
      have ha := hmarked.above
      rw [if_neg (by omega)]
      have hrow : ∀ s₁, (flipRow m s.tiles { s.box with x1 := x1, y1 := y1 } s₁ (y / tileSize)).Shown m x y :=
        flipRow_shown hm hx hy hmarked.tile ⟨hl, hr⟩ hx1 ⟨ha, hb⟩
      refine foldl_shown (flipRow_shows s.tiles _) (List.mem_range'_1.mpr ?_) hrow _
      have hfirst : s.box.y0 / tileSize ≤ y / tileSize := Nat.div_le_div_right ha
      have hlast : y / tileSize ≤ (y1 - 1) / tileSize := Nat.div_le_div_right (by omega)
      omega

/-! ## Every run -/

/-- What is drawn is drawn on the screen. -/
def Op.Sound (m : Mode) : Op → Prop
  | .fillrect x y w h _ =>
    ClipOk m.width x w ∧ ClipOk m.height y h ∨ x ≤ m.width ∧ w = 0 ∨ y ≤ m.height ∧ h = 0
  | .drawglyph data x y _ => ∀ row < fontHeight, ∀ col < fontWidth, (data row).testBit (7 - col) = true →
    x + col < m.width ∧ y + row < m.height
  | .putpixel .. | .attach .. | .detach .. | .region .. | .flip => True

def SoundRun (m : Mode) : Screen → Prop :=
  Run.Reachable (Clean m) fun s s' => ∃ op : Op, op.Fits m s ∧ op.Sound m ∧ s' = op.run m s

theorem Kept.step (hm : m.Compact) (hk : s.Kept m) (hs : ∀ z, (s.layers z).Small) {op : Op} (hf : op.Fits m s)
    (hsound : op.Sound m) : (op.run m s).Kept m := by
  cases op with
  | putpixel x y color => exact hk.putpixel hm x y color
  | fillrect x y w h color => exact hk.fillrect hm color hsound
  | drawglyph data x y color => exact hk.drawglyph hm color hsound
  | attach z buf cfg =>
    have hwidth := hm.width
    have hheight := hm.height
    refine hk.layerAttach hm hs z buf fun c hc => ?_
    obtain ⟨hx, hy, hxw, hyh⟩ := hf c hc
    exact ⟨by omega, by omega⟩
  | detach z => exact hk.layerDetach hm hs z
  | region z buf x y w h => exact hk.region hm hf
  | flip => exact fun x hx y hy => .inl (flip_shown hm hk hx hy)

theorem setLayer_small (hs : ∀ z, (s.layers z).Small) {z : Nat} {new : Layer} (hn : new.Small) (z' : Nat) :
    ((s.setLayer z new).layers z').Small := by
  by_cases hz : z' = z
  · subst hz
    simpa [setLayer] using hn
  · simpa [setLayer, Function.update_of_ne hz] using hs z'

theorem dots_layers (hm : m.Compact) (ds : List Dot) (s : Screen) : (s.dots m ds).layers = s.layers := by
  unfold dots
  induction ds generalizing s with
  | nil => rfl
  | cons d ds ih =>
    have hd : (s.dot m d).layers = (s.store d.off d.color).layers := (markPixelDirty_marks hm _ _ _).layers
    have hstore : (s.store d.off d.color).layers = s.layers := by
      cases d.color <;> rfl
    exact (ih (s.dot m d)).trans (hd.trans hstore)

theorem flip_layers (s : Screen) : (s.flip m).layers = s.layers := by
  unfold flip
  by_cases hu : s.box.x0 = unused ∨ s.box.y0 = unused
  · rw [if_pos hu]
  · rw [if_neg hu]
    exact (ite_shows (foldl_shows (flipRow_shows s.tiles _) _ { s with tiles := fun _ _ => false, box := Box.none })).layers

/-- The layers stay small. -/
theorem small_step (hm : m.Compact) (hs : ∀ z, (s.layers z).Small) {op : Op} (hf : op.Fits m s) (z : Nat) :
    ((op.run m s).layers z).Small := by
  have hwidth := hm.width
  have hheight := hm.height
  have h16 : ∀ n, u16 n < 2 ^ 16 := fun n => Nat.mod_lt _ (by decide)
  have hkept : ∀ s' : Screen, s'.layers = s.layers → (s'.layers z).Small := fun s' h => h ▸ hs z
  cases op with
  | putpixel x y color =>
    refine hkept _ ?_
    show (s.putpixel m x y color).layers = s.layers
    unfold Screen.putpixel
    split
    · rfl
    · exact dots_layers hm [_] s
  | fillrect x y w h color =>
    exact hkept _ ((markRegionDirty_marks hm _ (h16 x) (h16 y) (h16 _) (h16 _)).layers.trans (dots_layers hm _ s))
  | drawglyph data x y color => exact hkept _ (dots_layers hm _ s)
  | attach z' buf cfg =>
    have hnew := (attached_small m buf fun c hc => by
      obtain ⟨hx, hy, hxw, hyh⟩ := hf c hc
      exact ⟨by omega, by omega⟩).1
    show ((s.layerAttach m z' buf cfg).layers z).Small
    unfold layerAttach
    split
    · exact hs z
    · simp only
      rw [(markLayer_marks hm _ hnew _).layers, (markLayer_marks hm _ (hs z') _).layers]
      exact setLayer_small hs hnew z
  | detach z' =>
    show ((s.layerDetach m z').layers z).Small
    unfold layerDetach
    split
    · exact hs z
    · simp only
      rw [(markLayer_marks hm _ (hs z') _).layers]
      exact setLayer_small hs ⟨h16 _, h16 _, Nat.two_pow_pos 16, Nat.two_pow_pos 16⟩ z
  | region z' buf x y w h =>
    obtain ⟨hx, hy, hw, hh, -⟩ := hf
    unfold Op.run
    rw [(markRegionDirty_marks hm _ hx hy hw hh).layers]
    split
    · exact hs z
    · have hnew : ({ s.layers z' with buf := buf } : Layer).Small := hs z'
      exact setLayer_small hs hnew z
  | flip => exact hkept _ (flip_layers s)

theorem flip_repaints (hm : m.Compact) (h : SoundRun m s) :
    (s.flip m).fb = ((s.flip m).composeRect m 0 0 m.width m.height).fb := by
  have hinv := h.invariant (fun s => s.Kept m ∧ ∀ z, (s.layers z).Small)
    (fun _ hc => ⟨fun x hx y hy => .inl (hc.fb x hx y hy), hc.small⟩)
    (fun _ _ hi ⟨_, hf, hsound, hs⟩ => hs ▸ ⟨hi.1.step hm hi.2 hf hsound, small_step hm hi.2 hf⟩)
  funext x y
  by_cases hin : 0 ≤ x ∧ x < m.width ∧ 0 ≤ y ∧ y < m.height
  · exact (flip_shown hm hinv.1 hin.2.1 hin.2.2.2).trans (if_pos hin).symm
  · exact (if_neg hin).symm

/-- Nothing is on the screen, and only layer 0 is in use. -/
def blank : Screen where
  layer0 _ := 0
  layers _ := ⟨false, false, 0, 0, 0, 0, 0, fun _ => 0⟩
  defaultBuf _ _ := 0
  cursor := none
  tiles _ _ := false
  box := Box.none
  fb _ _ := 0

theorem blank_clean (m : Mode) : Clean m blank where
  small _ := ⟨Nat.two_pow_pos 16, Nat.two_pow_pos 16, Nat.two_pow_pos 16, Nat.two_pow_pos 16⟩
  fb _ _ _ _ := rfl
  box := rfl
  tiles _ _ := rfl

theorem vga_compact : vga.Compact := ⟨by decide, by decide, by decide, by decide, by decide⟩

theorem flip_repaints_vga :
    (((Op.putpixel 639 479 1).run vga blank).flip vga).fb =
      ((((Op.putpixel 639 479 1).run vga blank).flip vga).composeRect vga 0 0 640 480).fb :=
  flip_repaints vga_compact ((Run.Reachable.start (blank_clean vga)).step ⟨.putpixel 639 479 1, trivial, trivial, rfl⟩)

/-- A glyph four pixels before the right edge: the other four are stored into the row below,
and are not marked there. -/
theorem not_flip_repaints : vga.Compact ∧ ¬ ∀ s, Reachable vga s →
    (s.flip vga).fb = ((s.flip vga).composeRect vga 0 0 vga.width vga.height).fb := by
  refine ⟨vga_compact, fun hall => ?_⟩
  have h := hall _ ((Run.Reachable.start (blank_clean vga)).step
    ⟨.drawglyph (fun _ => 0xFF) 636 0 1, trivial, rfl⟩)
  exact absurd (congrFun (congrFun h 0) 1) (by decide +kernel)

end Screen

end Serotonin.Vbe
