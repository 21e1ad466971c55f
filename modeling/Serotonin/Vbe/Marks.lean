import Serotonin.Vbe.Compose
import Serotonin.Vbe.Bounds

/-! What the marks cover. A pixel of the framebuffer that is not what there is to show is
marked: its tile is dirty and it is in the box. -/

namespace Serotonin.Vbe

open ByteMem (Mem u32 u32_of_lt)

/-- A screen whose sizes leave room in 16 bits for a tile more, and whose rows are whole
pixels apart. -/
structure Mode.Compact (m : Mode) : Prop where
  width : m.width ≤ 65520
  height : m.height ≤ 65520
  pitch : 4 * m.width ≤ m.pitch
  whole : m.pitch % 4 = 0
  size : m.height * m.pitch < 2 ^ 32

/-- The pixel is stored where it is marked. -/
def Dot.Fits (m : Mode) (d : Dot) : Prop :=
  d.color ≠ none → d.x < m.width ∧ d.y < m.height ∧ d.off = d.y * m.pitch + 4 * d.x

namespace Screen

variable {m : Mode} {s s' : Screen} {x y : Nat}

/-! ## Marks -/

/-- The box is in use and the pixel is in it, and its tile is dirty. -/
structure Marked (s : Screen) (x y : Nat) : Prop where
  tile : s.tiles (x / tileSize) (y / tileSize) = true
  used : s.box.isUnused = false
  left : s.box.x0 ≤ x
  right : x < s.box.x1
  above : s.box.y0 ≤ y
  below : y < s.box.y1

/-- Nothing but marks were added. -/
structure Marks (m : Mode) (s s' : Screen) : Prop where
  layer0 : s'.layer0 = s.layer0
  layers : s'.layers = s.layers
  cursor : s'.cursor = s.cursor
  fb : s'.fb = s.fb
  marked : ∀ x < m.width, ∀ y < m.height, s.Marked x y → s'.Marked x y

theorem Marks.refl (m : Mode) (s : Screen) : Marks m s s := ⟨rfl, rfl, rfl, rfl, fun _ _ _ _ h => h⟩

theorem Marks.trans {s'' : Screen} (h : Marks m s s') (h' : Marks m s' s'') : Marks m s s'' where
  layer0 := h'.layer0.trans h.layer0
  layers := h'.layers.trans h.layers
  cursor := h'.cursor.trans h.cursor
  fb := h'.fb.trans h.fb
  marked x hx y hy hk := h'.marked x hx y hy (h.marked x hx y hy hk)

theorem isUnused_eq_false {b : Box} :
    b.isUnused = false ↔ b.x0 ≠ unused ∧ b.x1 ≠ unused ∧ b.y0 ≠ unused ∧ b.y1 ≠ unused := by
  simp [Box.isUnused, and_assoc]

/-- How far the box is widened to the right or below: no further than 16 bits go, or to the
edge of the screen. -/
def EdgeOk (edge size : Nat) : Prop := edge < unused ∨ u16 edge = size

theorem widen_right {old edge size x : Nat} (he : EdgeOk edge size) (hs : size < unused) (hx : x < size)
    (hold : old ≠ unused) (hlt : x < old) :
    x < (if old < edge then u16 edge else old) ∧ (if old < edge then u16 edge else old) ≠ unused := by
  rcases he with he | he
  · have hsame : u16 edge = edge := by
      simp only [u16, unused] at he ⊢
      omega
    rw [hsame]
    split <;> omega
  · rw [he]
    split <;> omega

theorem widen_left {old edge size x : Nat} (he : edge < 2 ^ 16) (hs : size < unused) (hx : x < size) (hle : old ≤ x) :
    (if edge < old then u16 edge else old) ≤ x ∧ (if edge < old then u16 edge else old) ≠ unused := by
  have hsame : u16 edge = edge := by
    simp only [u16]
    omega
  rw [hsame]
  split <;> omega

theorem widen_marks (hm : m.Compact) (s : Screen) {tx0 ty0 tx1 ty1 x0 y0 x1 y1 : Nat} (hx0 : x0 < 2 ^ 16)
    (hy0 : y0 < 2 ^ 16) (hx1 : EdgeOk x1 m.width) (hy1 : EdgeOk y1 m.height) :
    Marks m s ((s.markTiles m tx0 ty0 tx1 ty1).widen x0 y0 x1 y1) := by
  have hwidth : m.width < unused := Nat.lt_of_le_of_lt hm.width (by decide)
  have hheight : m.height < unused := Nat.lt_of_le_of_lt hm.height (by decide)
  refine ⟨rfl, rfl, rfl, rfl, fun x hx y hy h => ?_⟩
  have hused := h.used
  obtain ⟨-, hux1, -, huy1⟩ := isUnused_eq_false.mp hused
  obtain ⟨hl, hlu⟩ := widen_left hx0 hwidth hx h.left
  obtain ⟨ha, hau⟩ := widen_left hy0 hheight hy h.above
  obtain ⟨hr, hru⟩ := widen_right hx1 hwidth hx hux1 h.right
  obtain ⟨hb, hbu⟩ := widen_right hy1 hheight hy huy1 h.below
  have hbox : ((s.markTiles m tx0 ty0 tx1 ty1).widen x0 y0 x1 y1).box =
      { x0 := if x0 < s.box.x0 then u16 x0 else s.box.x0
        y0 := if y0 < s.box.y0 then u16 y0 else s.box.y0
        x1 := if s.box.x1 < x1 then u16 x1 else s.box.x1
        y1 := if s.box.y1 < y1 then u16 y1 else s.box.y1 } := by
    refine if_neg ?_
    show ¬ s.box.isUnused = true
    rw [hused]
    exact Bool.false_ne_true
  refine ⟨?_, ?_, ?_, ?_, ?_, ?_⟩
  · show (s.tiles _ _ || _) = true
    rw [h.tile, Bool.true_or]
  · rw [hbox]
    exact isUnused_eq_false.mpr ⟨hlu, hru, hau, hbu⟩
  · rw [hbox]
    exact hl
  · rw [hbox]
    exact hr
  · rw [hbox]
    exact ha
  · rw [hbox]
    exact hb

/-- A pixel inside the marked tiles and inside the edges. -/
theorem widen_marked (hm : m.Compact) (s : Screen) {tx0 ty0 tx1 ty1 x0 y0 x1 y1 : Nat} (hx : x < m.width)
    (hy : y < m.height) (htx : tx0 ≤ x / tileSize ∧ x / tileSize ≤ tx1) (hty : ty0 ≤ y / tileSize ∧ y / tileSize ≤ ty1)
    (hx0 : x0 ≤ x) (hx1 : x < x1) (hx1' : x1 ≤ m.width) (hy0 : y0 ≤ y) (hy1 : y < y1) (hy1' : y1 ≤ m.height) :
    ((s.markTiles m tx0 ty0 tx1 ty1).widen x0 y0 x1 y1).Marked x y := by
  have hwidth := hm.width
  have hheight := hm.height
  have h16 : ∀ n, n ≤ 65520 → u16 n = n := fun n hn => by
    simp only [u16]
    omega
  have htile : ((s.markTiles m tx0 ty0 tx1 ty1).widen x0 y0 x1 y1).tiles (x / tileSize) (y / tileSize) = true := by
    have hin : x / tileSize < m.tilesX ∧ y / tileSize < m.tilesY := by
      simp only [Mode.tilesX, Mode.tilesY, tileSize, u16]
      omega
    show (s.tiles _ _ || _) = true
    simp [htx, hty, hin]
  by_cases hu : s.box.isUnused = true
  · have hbox : ((s.markTiles m tx0 ty0 tx1 ty1).widen x0 y0 x1 y1).box = ⟨u16 x0, u16 y0, u16 x1, u16 y1⟩ := if_pos hu
    rw [h16 x0 (by omega), h16 y0 (by omega), h16 x1 (by omega), h16 y1 (by omega)] at hbox
    refine ⟨htile, ?_, ?_, ?_, ?_, ?_⟩
    · rw [hbox]
      exact isUnused_eq_false.mpr ⟨by simp only [unused]; omega, by simp only [unused]; omega,
        by simp only [unused]; omega, by simp only [unused]; omega⟩
    · rw [hbox]
      exact hx0
    · rw [hbox]
      exact hx1
    · rw [hbox]
      exact hy0
    · rw [hbox]
      exact hy1
  · have hbox : ((s.markTiles m tx0 ty0 tx1 ty1).widen x0 y0 x1 y1).box =
        { x0 := if x0 < s.box.x0 then u16 x0 else s.box.x0
          y0 := if y0 < s.box.y0 then u16 y0 else s.box.y0
          x1 := if s.box.x1 < x1 then u16 x1 else s.box.x1
          y1 := if s.box.y1 < y1 then u16 y1 else s.box.y1 } := if_neg hu
    obtain ⟨hux0, hux1, huy0, huy1⟩ := isUnused_eq_false.mp (by simpa using hu)
    rw [h16 x0 (by omega), h16 y0 (by omega), h16 x1 (by omega), h16 y1 (by omega)] at hbox
    refine ⟨htile, ?_, ?_, ?_, ?_, ?_⟩
    · rw [hbox]
      refine isUnused_eq_false.mpr ⟨?_, ?_, ?_, ?_⟩
      all_goals
        simp only [unused] at *
        split <;> omega
    all_goals
      rw [hbox]
      simp only
      split <;> omega

theorem markPixelDirty_marks (hm : m.Compact) (s : Screen) (x y : Nat) : Marks m s (s.markPixelDirty m x y) := by
  have hwidth := hm.width
  have hheight := hm.height
  unfold markPixelDirty
  split
  · exact .refl m s
  · next h =>
    rw [not_or, Nat.not_le, Nat.not_le] at h
    refine widen_marks hm s (by omega) (by omega) (.inl ?_) (.inl ?_)
    · simp only [unused]
      omega
    · simp only [unused]
      omega

theorem markPixelDirty_marked (hm : m.Compact) (s : Screen) (hx : x < m.width) (hy : y < m.height) :
    (s.markPixelDirty m x y).Marked x y := by
  have hn : ¬ (m.width ≤ x ∨ m.height ≤ y) := by omega
  unfold markPixelDirty
  rw [if_neg hn]
  exact widen_marked hm s hx hy ⟨Nat.le_refl _, Nat.le_refl _⟩ ⟨Nat.le_refl _, Nat.le_refl _⟩ (Nat.le_refl x)
    (Nat.lt_succ_self x) hx (Nat.le_refl y) (Nat.lt_succ_self y) hy

/-- The far edge of a region after clipping. -/
theorem clip_edgeOk {size a n : Nat} (hs : size ≤ 65520) (ha : a < 2 ^ 16) (hn : n < 2 ^ 16) :
    EdgeOk (a + if size < a + n then sub16 size a else n) size := by
  unfold EdgeOk u16 sub16 unused
  split
  · by_cases h : a ≤ size
    · left
      omega
    · right
      omega
  · left
    omega

theorem clip_of_lt {size a n : Nat} (ha : a ≤ size) (hs : size ≤ 65520) :
    a + (if size < a + n then sub16 size a else n) ≤ size ∧
      ∀ x < size, x < a + n → x < a + if size < a + n then sub16 size a else n := by
  unfold sub16
  split
  · refine ⟨?_, fun x hx _ => ?_⟩ <;> omega
  · exact ⟨by omega, fun x _ hlt => hlt⟩

theorem markRegionDirty_marks (hm : m.Compact) (s : Screen) {x y w h : Nat} (hx : x < 2 ^ 16) (hy : y < 2 ^ 16)
    (hw : w < 2 ^ 16) (hh : h < 2 ^ 16) : Marks m s (s.markRegionDirty m x y w h) := by
  have hright := clip_edgeOk hm.width hx hw
  have hbelow := clip_edgeOk hm.height hy hh
  unfold markRegionDirty
  simp only
  generalize (if m.width < x + w then sub16 m.width x else w) = w' at *
  generalize (if m.height < y + h then sub16 m.height y else h) = h' at *
  split
  · exact .refl m s
  · exact widen_marks hm s hx hy hright hbelow

/-- All pixels of the region that are on the screen are marked. -/
theorem markRegionDirty_marked (hm : m.Compact) (s : Screen) {x y w h px py : Nat} (hpx : px < m.width)
    (hpy : py < m.height) (hx : x ≤ px ∧ px < x + w) (hy : y ≤ py ∧ py < y + h) :
    (s.markRegionDirty m x y w h).Marked px py := by
  obtain ⟨hxw, hin⟩ := clip_of_lt (n := w) (show x ≤ m.width by omega) hm.width
  obtain ⟨hyh, hin'⟩ := clip_of_lt (n := h) (show y ≤ m.height by omega) hm.height
  have hxr := hin px hpx hx.2
  have hyr := hin' py hpy hy.2
  have hwidth := hm.width
  have hheight := hm.height
  unfold markRegionDirty
  simp only
  generalize (if m.width < x + w then sub16 m.width x else w) = w' at *
  generalize (if m.height < y + h then sub16 m.height y else h) = h' at *
  have hn : ¬ (w' = 0 ∨ h' = 0) := by omega
  rw [if_neg hn]
  refine widen_marked hm s hpx hpy ⟨?_, ?_⟩ ⟨?_, ?_⟩ hx.1 hxr hxw hy.1 hyr hyh
  · exact Nat.div_le_div_right hx.1
  · simp only [u16, tileSize]
    omega
  · exact Nat.div_le_div_right hy.1
  · simp only [u16, tileSize]
    omega

/-! ## The invariant -/

/-- A pixel of the framebuffer that is not what there is to show is marked. -/
def Kept (m : Mode) (s : Screen) : Prop :=
  ∀ x < m.width, ∀ y < m.height, s.fb x y = s.composite m x y ∨ s.Marked x y

/-- What is put together depends on the pixel of layer 0, the other layers and the cursor. -/
theorem composite_congr (hb : s'.basePixel m x y = s.basePixel m x y) (hl : s'.layers = s.layers)
    (hc : s'.cursor = s.cursor) : s'.composite m x y = s.composite m x y := by
  have hu : s'.underCursor m x y = s.underCursor m x y := by
    unfold underCursor
    rw [hc]
  have hp : ∀ sprites below, s'.pass sprites x y below = s.pass sprites x y below := by
    intro sprites below
    unfold pass
    rw [hl]
  unfold composite
  rw [hu, hb]
  simp only [hp]

theorem basePixel_congr (h : s'.layer0 = s.layer0) (x y : Nat) : s'.basePixel m x y = s.basePixel m x y := by
  unfold basePixel
  rw [h]

theorem Marks.composite (h : Marks m s s') (x y : Nat) : s'.composite m x y = s.composite m x y :=
  composite_congr (basePixel_congr h.layer0 x y) h.layers h.cursor

/-- Something is drawn, and then marked. -/
theorem Kept.draw {s₂ : Screen} (hk : s.Kept m) (s₁ : Screen) (hfb : s₁.fb = s.fb) (htiles : s₁.tiles = s.tiles)
    (hbox : s₁.box = s.box) (hmarks : Marks m s₁ s₂)
    (hsame : ∀ x < m.width, ∀ y < m.height, s₁.composite m x y = s.composite m x y ∨ s₂.Marked x y) : s₂.Kept m := by
  intro x hx y hy
  rcases hsame x hx y hy with h | h
  · rcases hk x hx y hy with hold | hold
    · left
      rw [hmarks.fb, hfb, hmarks.composite, h, hold]
    · right
      refine hmarks.marked x hx y hy ⟨?_, ?_, ?_, ?_, ?_, ?_⟩
      · rw [htiles]
        exact hold.tile
      all_goals rw [hbox]
      · exact hold.used
      · exact hold.left
      · exact hold.right
      · exact hold.above
      · exact hold.below
  · exact .inr h

theorem Kept.marks (hk : s.Kept m) (h : Marks m s s') : s'.Kept m :=
  hk.draw s rfl rfl rfl h fun _ _ _ _ => .inl rfl

/-! ## Drawing -/

/-- Two pixels of the screen have no byte in common. -/
theorem pixels_apart (hm : m.Compact) {x y x' y' : Nat} (hx : x < m.width) (hx' : x' < m.width)
    (hne : x ≠ x' ∨ y ≠ y') :
    y * m.pitch + 4 * x + 4 ≤ y' * m.pitch + 4 * x' ∨ y' * m.pitch + 4 * x' + 4 ≤ y * m.pitch + 4 * x := by
  have hp := hm.pitch
  rcases Nat.lt_trichotomy y y' with h | h | h
  · left
    have hrow : (y + 1) * m.pitch ≤ y' * m.pitch := Nat.mul_le_mul_right _ h
    rw [Nat.add_mul, Nat.one_mul] at hrow
    omega
  · subst h
    omega
  · right
    have hrow : (y' + 1) * m.pitch ≤ y * m.pitch := Nat.mul_le_mul_right _ h
    rw [Nat.add_mul, Nat.one_mul] at hrow
    omega

theorem Kept.dot (hm : m.Compact) (hk : s.Kept m) {d : Dot} (hd : d.Fits m) : (s.dot m d).Kept m := by
  unfold Screen.dot
  cases hc : d.color with
  | none => exact hk.marks (markPixelDirty_marks hm s _ _)
  | some color =>
    obtain ⟨hx, hy, hoff⟩ := hd (by rw [hc]; exact Option.some_ne_none color)
    have hwidth := hm.width
    have hheight := hm.height
    have hp := hm.pitch
    have hs := hm.size
    have hrow : (d.y + 1) * m.pitch ≤ m.height * m.pitch := Nat.mul_le_mul_right _ hy
    rw [Nat.add_mul, Nat.one_mul] at hrow
    have hux : u16 d.x = d.x := by
      simp only [u16]
      omega
    have huy : u16 d.y = d.y := by
      simp only [u16]
      omega
    have haddr : ByteMem.u32 d.off = d.y * m.pitch + 4 * d.x := by
      rw [hoff]
      exact u32_of_lt (by omega)
    rw [hux, huy]
    refine hk.draw (s.store d.off (some color)) rfl rfl rfl (markPixelDirty_marks hm _ _ _) fun x' hx' y' hy' => ?_
    by_cases hne : d.x ≠ x' ∨ d.y ≠ y'
    · left
      refine composite_congr ?_ rfl rfl
      show ByteMem.load32 (ByteMem.store32 s.layer0 (ByteMem.u32 d.off) color) _ = _
      rw [haddr, ByteMem.load32_store32_disjoint]
      · rfl
      · exact (pixels_apart hm hx hx' hne).symm
    · right
      rw [not_or, not_not, not_not] at hne
      obtain ⟨rfl, rfl⟩ := hne
      exact markPixelDirty_marked hm _ hx hy

theorem Kept.dots (hm : m.Compact) {ds : List Dot} (hk : s.Kept m) (hd : ∀ d ∈ ds, d.Fits m) : (s.dots m ds).Kept m := by
  unfold Screen.dots
  induction ds generalizing s with
  | nil => exact hk
  | cons d ds ih =>
    exact ih (hk.dot hm (hd d List.mem_cons_self)) fun d' hd' => hd d' (List.mem_cons_of_mem d hd')

theorem Kept.putpixel (hm : m.Compact) (hk : s.Kept m) (x y color : Nat) : (s.putpixel m x y color).Kept m := by
  unfold Screen.putpixel
  split
  · exact hk
  · next h =>
    rw [not_or, Nat.not_le, Nat.not_le] at h
    exact hk.dot hm fun _ => ⟨h.1, h.2, rfl⟩

/-- From `a` on, `n` places are inside, or the clip sees that they are not. -/
def ClipOk (size a n : Nat) : Prop := a ≤ size ∧ (a + n ≤ size ∨ size < u32 (a + n))

theorem ClipOk.inside {size a n : Nat} (h : ClipOk size a n) (hs : size ≤ 65520) :
    a + (if size < ByteMem.u32 (a + n) then sub32 size a else n) ≤ size := by
  obtain ⟨ha, h⟩ := h
  rw [sub32_of_le ha (by omega)]
  rcases h with h | h
  · rw [u32_of_lt (by omega), if_neg (by omega)]
    exact h
  · rw [if_pos h]
    omega

theorem clip_zero {size a : Nat} (ha : a ≤ size) (hs : size ≤ 65520) :
    (if size < ByteMem.u32 (a + 0) then sub32 size a else 0) = 0 := by
  rw [u32_of_lt (by omega)]
  exact if_neg (by omega)

theorem Kept.fillrect (hm : m.Compact) (hk : s.Kept m) {x y w h : Nat} (color : Nat)
    (hfit : ClipOk m.width x w ∧ ClipOk m.height y h ∨ x ≤ m.width ∧ w = 0 ∨ y ≤ m.height ∧ h = 0) :
    (s.fillrect m x y w h color).Kept m := by
  have hwidth := hm.width
  have hheight := hm.height
  have h16 : ∀ n, u16 n < 2 ^ 16 := fun n => Nat.mod_lt _ (by decide)
  unfold Screen.fillrect
  refine Kept.marks (hk.dots hm fun d hd => ?_) (markRegionDirty_marks hm _ (h16 _) (h16 _) (h16 _) (h16 _))
  obtain ⟨row, hrow, hd⟩ := List.mem_flatMap.mp hd
  obtain ⟨i, hi, rfl⟩ := List.mem_map.mp hd
  have hr := List.mem_range.mp hrow
  have hc := List.mem_range.mp hi
  rcases hfit with ⟨hxw, hyh⟩ | ⟨hx, rfl⟩ | ⟨hy, rfl⟩
  · have hxi := hxw.inside hwidth
    have hyr := hyh.inside hheight
    have huy : ByteMem.u32 (y + row) = y + row := u32_of_lt (by omega)
    refine fun _ => ⟨?_, ?_, ?_⟩
    · show x + i < m.width
      omega
    · show ByteMem.u32 (y + row) < m.height
      omega
    · show ByteMem.u32 (y + row) * m.pitch + 4 * x + 4 * i = ByteMem.u32 (y + row) * m.pitch + 4 * (x + i)
      rw [Nat.mul_add, Nat.add_assoc]
  · rw [clip_zero hx hwidth] at hc
    exact absurd hc (Nat.not_lt_zero i)
  · rw [clip_zero hy hheight] at hr
    exact absurd hr (Nat.not_lt_zero row)

theorem Kept.drawglyph (hm : m.Compact) (hk : s.Kept m) {data : Nat → Nat} {x y : Nat} (color : Nat)
    (hfit : ∀ row < fontHeight, ∀ col < fontWidth, (data row).testBit (7 - col) = true →
      x + col < m.width ∧ y + row < m.height) : (s.drawglyph m data x y color).Kept m := by
  refine hk.dots hm fun d hd => ?_
  obtain ⟨row, hrow, hd⟩ := List.mem_flatMap.mp hd
  obtain ⟨col, hcol, rfl⟩ := List.mem_map.mp hd
  intro hc
  have hbit : (data row).testBit (7 - col) = true := by
    by_contra hn
    exact hc (if_neg hn)
  obtain ⟨hx, hy⟩ := hfit row (List.mem_range.mp hrow) col (List.mem_range.mp hcol) hbit
  have hwhole : 4 * (m.pitch / 4) = m.pitch := by
    have := hm.whole
    omega
  refine ⟨hx, hy, ?_⟩
  show 4 * ((y + row) * (m.pitch / 4) + x + col) = (y + row) * m.pitch + 4 * (x + col)
  rw [Nat.add_assoc, Nat.mul_add, Nat.mul_left_comm, hwhole]

/-! ## Layers -/

theorem over_of_not_covers {l : Layer} (h : l.covers x y = false) (below : Nat) : l.over x y below = below := by
  unfold Layer.over
  rw [h]
  rfl

/-- A covered pixel is in the region that is marked for the layer. -/
theorem covers_inside {l : Layer} (h : l.covers x y = true) :
    l.active = true ∧ (l.x0 ≤ x ∧ x < l.x0 + l.width) ∧ (l.y0 ≤ y ∧ y < l.y0 + l.height) := by
  unfold Layer.covers u16 at h
  rw [Bool.and_eq_true, decide_eq_true_eq] at h
  have hx := Nat.mod_le (l.x0 + l.width) (2 ^ 16)
  have hy := Nat.mod_le (l.y0 + l.height) (2 ^ 16)
  obtain ⟨ha, hxl, hxr, hyl, hyr⟩ := h
  exact ⟨ha, ⟨hxl, Nat.lt_of_lt_of_le hxr hx⟩, hyl, Nat.lt_of_lt_of_le hyr hy⟩

theorem markLayer_marks (hm : m.Compact) (s : Screen) {l : Layer} (hl : l.Small) (active : Bool) :
    Marks m s (s.markLayer m l active) := by
  obtain ⟨hw, hh, hx, hy⟩ := hl
  unfold markLayer
  split
  · exact markRegionDirty_marks hm s hx hy hw hh
  · exact .refl m s

theorem markLayer_marked (hm : m.Compact) (s : Screen) {l : Layer} (hx : x < m.width) (hy : y < m.height)
    (h : l.covers x y = true) : (s.markLayer m l l.active).Marked x y := by
  obtain ⟨ha, hxl, hyl⟩ := covers_inside h
  have hn : l.active = true ∧ 0 < l.width ∧ 0 < l.height := ⟨ha, by omega, by omega⟩
  unfold markLayer
  rw [if_pos hn]
  exact markRegionDirty_marked hm s hx hy hxl hyl

/-- The new layer does to what is below what the old one did. -/
theorem setLayer_composite {z : Nat} {new : Layer}
    (h : ∀ sprites below, (if new.cursorSprite = sprites then new.over x y below else below) =
      if (s.layers z).cursorSprite = sprites then (s.layers z).over x y below else below) :
    (s.setLayer z new).composite m x y = s.composite m x y := by
  have hp : ∀ sprites below, (s.setLayer z new).pass sprites x y below = s.pass sprites x y below := by
    intro sprites below
    unfold pass
    congr 1
    funext below z'
    by_cases hz : z' = z
    · subst hz
      simpa [setLayer] using h sprites below
    · simp [setLayer, Function.update_of_ne hz]
  have hu : (s.setLayer z new).underCursor m x y = s.underCursor m x y := rfl
  have hb : (s.setLayer z new).basePixel m x y = s.basePixel m x y := rfl
  unfold composite
  rw [hu, hb]
  simp only [hp]

theorem setLayer_composite_of_not_covers {z : Nat} {new : Layer} (hold : (s.layers z).covers x y = false)
    (hnew : new.covers x y = false) : (s.setLayer z new).composite m x y = s.composite m x y := by
  refine setLayer_composite fun sprites below => ?_
  rw [over_of_not_covers hold, over_of_not_covers hnew, ite_self, ite_self]

theorem attached_small (m : Mode) (buf : Mem) {cfg : Option LayerConfig}
    (h : ∀ c ∈ cfg, c.x0 < 2 ^ 16 ∧ c.y0 < 2 ^ 16) : (attached m buf cfg).Small ∧ (attached m buf cfg).active = true := by
  have h16 : ∀ n, n % 2 ^ 16 < 2 ^ 16 := fun n => Nat.mod_lt _ (by decide)
  cases cfg with
  | none => exact ⟨⟨h16 _, h16 _, Nat.two_pow_pos 16, Nat.two_pow_pos 16⟩, rfl⟩
  | some c =>
    obtain ⟨hx, hy⟩ := h c rfl
    exact ⟨⟨h16 _, h16 _, hx, hy⟩, rfl⟩

theorem Kept.layerAttach (hm : m.Compact) (hk : s.Kept m) (hs : ∀ z, (s.layers z).Small) (z : Nat) (buf : Mem)
    {cfg : Option LayerConfig} (hnew : ∀ c ∈ cfg, c.x0 < 2 ^ 16 ∧ c.y0 < 2 ^ 16) : (s.layerAttach m z buf cfg).Kept m := by
  unfold Screen.layerAttach
  split
  · exact hk
  · obtain ⟨hsmall, hactive⟩ := attached_small m buf hnew
    show Kept m (((s.setLayer z (attached m buf cfg)).markLayer m (s.layers z) (s.layers z).active).markLayer m
      (attached m buf cfg) true)
    generalize attached m buf cfg = new at hsmall hactive ⊢
    have hlast := markLayer_marks hm ((s.setLayer z new).markLayer m (s.layers z) (s.layers z).active) hsmall true
    refine hk.draw (s.setLayer z new) rfl rfl rfl ((markLayer_marks hm _ (hs z) _).trans hlast) fun x hx y hy => ?_
    by_cases hold : (s.layers z).covers x y = true
    · exact .inr (hlast.marked x hx y hy (markLayer_marked hm _ hx hy hold))
    · by_cases hc : new.covers x y = true
      · right
        rw [← hactive]
        exact markLayer_marked hm _ hx hy hc
      · exact .inl (setLayer_composite_of_not_covers (by simpa using hold) (by simpa using hc))

theorem Kept.layerDetach (hm : m.Compact) (hk : s.Kept m) (hs : ∀ z, (s.layers z).Small) (z : Nat) :
    (s.layerDetach m z).Kept m := by
  unfold Screen.layerDetach
  split
  · exact hk
  · refine hk.draw (s.setLayer z _) rfl rfl rfl (markLayer_marks hm _ (hs z) _) fun x hx y hy => ?_
    by_cases hold : (s.layers z).covers x y = true
    · exact .inr (markLayer_marked hm _ hx hy hold)
    · refine .inl (setLayer_composite_of_not_covers (by simpa using hold) ?_)
      simp [Layer.covers]

/-- Something is drawn into a layer or into layer 0, and the region it is in is marked. -/
theorem Kept.region (hm : m.Compact) (hk : s.Kept m) {z : Nat} {buf : Mem} {x y w h : Nat}
    (hf : Op.Fits m s (.region z buf x y w h)) : (Op.run m s (.region z buf x y w h)).Kept m := by
  obtain ⟨hx, hy, hw, hh, hout⟩ := hf
  have hin : ∀ px < m.width, ∀ py < m.height, ∀ s₁ : Screen,
      (x ≤ px ∧ px < x + w ∧ y ≤ py ∧ py < y + h) → (s₁.markRegionDirty m x y w h).Marked px py :=
    fun px hpx py hpy s₁ h => markRegionDirty_marked hm s₁ hpx hpy ⟨h.1, h.2.1⟩ h.2.2
  unfold Op.run
  by_cases hz : z = 0
  · simp only [if_pos hz] at hout ⊢
    refine hk.draw { s with layer0 := buf } rfl rfl rfl (markRegionDirty_marks hm _ hx hy hw hh) fun px hpx py hpy => ?_
    by_cases hr : x ≤ px ∧ px < x + w ∧ y ≤ py ∧ py < y + h
    · exact .inr (hin px hpx py hpy _ hr)
    · exact .inl (composite_congr (hout px hpx py hpy hr) rfl rfl)
  · simp only [if_neg hz] at hout ⊢
    refine hk.draw (s.setLayer z { s.layers z with buf := buf }) rfl rfl rfl (markRegionDirty_marks hm _ hx hy hw hh)
      fun px hpx py hpy => ?_
    by_cases hr : x ≤ px ∧ px < x + w ∧ y ≤ py ∧ py < y + h
    · exact .inr (hin px hpx py hpy _ hr)
    · refine .inl (setLayer_composite fun sprites below => ?_)
      rw [hout px hpx py hpy hr]

end Screen

end Serotonin.Vbe
