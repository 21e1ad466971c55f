import Serotonin.Vbe.Bounds
import Serotonin.Vbe.Chunks

/-! The kernel's terminals. The terminal that is shown keeps its state in variables that all
terminals use, so an output to another one puts that one's state there for as long as it
draws into its own buffer. -/

namespace Serotonin.Vbe

open Function
open ByteMem (Mem u32 u32_of_lt)

variable {m : Mode} {f : Font} {ts : TermState}

/-! ## Memory -/

/-- A store, with the buffer at address `base`. -/
def Store.apply (base : Nat) (mem : Mem) : Store → Mem
  | .pixel off color => ByteMem.store32 mem (u32 (base + off)) color
  | .fill off len byte => ByteMem.fill mem (u32 (base + off)) (.ofNat byte) len
  | .move dst src len => ByteMem.blit mem (u32 (base + dst)) mem (u32 (base + src)) len

def applyAll (base : Nat) (mem : Mem) (out : List Store) : Mem := out.foldl (Store.apply base) mem

theorem applyAll_append (base : Nat) (mem : Mem) (out out' : List Store) :
    applyAll base mem (out ++ out') = applyAll base (applyAll base mem out) out' := List.foldl_append

/-! ## Terminals -/

def numKernelVtys : Nat := 4

/-- `term` are the variables in use, `saved` the `term_state` of each terminal, `screenBuf` the
addresses of their buffers and `layer0` that of the buffer in use. -/
structure Vtys where
  active : Nat
  term : TermState
  saved : Nat → TermState
  onlcr : Nat → Bool
  screenBuf : Nat → Nat
  layer0 : Nat
  mem : Mem

namespace Vtys

/-- `vbe_terminal_puts` on the variables and the buffer in use. -/
def puts (m : Mode) (f : Font) (v : Vtys) (s : List UInt8) : Vtys :=
  { v with
    term := (terminalPuts m f v.term s).1
    mem := applyAll v.layer0 v.mem (terminalPuts m f v.term s).2 }

/-- `vbe_terminal_puts_ctx` with the state of a terminal. -/
def putsCtx (m : Mode) (f : Font) (v : Vtys) (id : Nat) (s : List UInt8) : Vtys :=
  let kept := v.term
  let v := ({ v with term := v.saved id }).puts m f s
  { v with saved := update v.saved id v.term, term := kept }

def renderToVty (m : Mode) (f : Font) (v : Vtys) (id : Nat) (s : List UInt8) : Vtys :=
  if id = v.active then v.puts m f s
  else
    let kept := v.layer0
    let v := ({ v with layer0 := v.screenBuf id }).putsCtx m f id s
    { v with layer0 := kept }

def renderLine (m : Mode) (f : Font) (v : Vtys) (id : Nat) (line : List UInt8) : Vtys :=
  if line = [] then v else v.renderToVty m f id line

/-- The loop of `pty_ldisc_output`. -/
def outputLines (m : Mode) (f : Font) (v : Vtys) (id : Nat) (line : List UInt8) : List UInt8 → Vtys
  | [] => v.renderLine m f id line
  | c :: cs =>
    if c = '\n'.toUInt8 then
      outputLines m f ((v.renderLine m f id line).renderToVty m f id newline) id [] cs
    else outputLines m f v id (line ++ [c]) cs

/-- `pty_ldisc_output` on a kernel terminal. -/
def output (m : Mode) (f : Font) (v : Vtys) (id : Nat) (s : List UInt8) : Vtys :=
  if v.onlcr id then v.outputLines m f id [] s else v.renderToVty m f id s

def switchVty (v : Vtys) (id : Nat) : Vtys :=
  if numKernelVtys ≤ id ∨ id = v.active then v
  else
    let saved := update v.saved v.active v.term
    { v with saved := saved, term := saved id, layer0 := v.screenBuf id, active := id }

/-- The state of a terminal, in use or saved. -/
def state (v : Vtys) (id : Nat) : TermState := if id = v.active then v.term else v.saved id

/-- A terminal in a new state, after stores into its buffer. -/
def drawn (v : Vtys) (id : Nat) (r : TermState × List Store) : Vtys :=
  if id = v.active then { v with term := r.1, mem := applyAll v.layer0 v.mem r.2 }
  else { v with saved := update v.saved id r.1, mem := applyAll (v.screenBuf id) v.mem r.2 }

theorem renderToVty_eq (v : Vtys) (id : Nat) (s : List UInt8) :
    v.renderToVty m f id s = v.drawn id (terminalPuts m f (v.state id) s) := by
  unfold renderToVty drawn state
  by_cases h : id = v.active
  · simp only [h, if_true]
    rfl
  · simp only [h, if_false]
    rfl

theorem drawn_drawn (v : Vtys) (id : Nat) (r r' : TermState × List Store) :
    (v.drawn id r).drawn id r' = v.drawn id (r'.1, r.2 ++ r'.2) := by
  unfold drawn
  by_cases h : id = v.active
  · simp [h, applyAll_append]
  · simp [h, applyAll_append]

theorem state_drawn (v : Vtys) (id : Nat) (r : TermState × List Store) : (v.drawn id r).state id = r.1 := by
  unfold drawn state
  by_cases h : id = v.active
  · simp [h]
  · simp [h]

theorem drawn_self (v : Vtys) (id : Nat) : v.drawn id (v.state id, []) = v := by
  unfold drawn state
  by_cases h : id = v.active
  · simp [h, applyAll]
  · simp [h, applyAll]

theorem renderLine_eq (v : Vtys) (id : Nat) (line : List UInt8) :
    v.renderLine m f id line = v.drawn id (Vbe.renderLine m f (v.state id) line) := by
  unfold renderLine Vbe.renderLine
  split
  · exact (v.drawn_self id).symm
  · exact v.renderToVty_eq id line

theorem outputLines_eq (v : Vtys) (id : Nat) (line s : List UInt8) :
    v.outputLines m f id line s = v.drawn id (Vbe.outputLines m f (v.state id) line s) := by
  induction s generalizing v line with
  | nil => exact v.renderLine_eq id line
  | cons c cs ih =>
    unfold outputLines Vbe.outputLines
    split
    · simp only [ih, renderToVty_eq, renderLine_eq, state_drawn, drawn_drawn, List.append_assoc]
    · exact ih v _

/-- An output is the output of the terminal alone, put in its place. -/
theorem output_eq (v : Vtys) (id : Nat) (s : List UInt8) :
    v.output m f id s = v.drawn id (ldiscOutput m f (v.onlcr id) (v.state id) s) := by
  unfold output ldiscOutput
  split
  · exact v.outputLines_eq id [] s
  · exact v.renderToVty_eq id s

end Vtys

/-! ## Stores inside a buffer -/

/-- A store inside a buffer leaves another buffer alone. -/
theorem Store.apply_agree {base lo hi : Nat} {w : Store} (hw : w.Inside m) (mem : Mem)
    (hroom : base + m.height * m.pitch < 2 ^ 32)
    (hapart : hi ≤ base ∨ base + m.height * m.pitch ≤ lo) : ByteMem.AgreeOn mem (w.apply base mem) lo hi := by
  have hin : w.off + w.len ≤ m.height * m.pitch := hw
  have haddr : u32 (base + w.off) = base + w.off := u32_of_lt (by omega)
  cases w with
  | pixel off color =>
    have hlen : off + 4 ≤ m.height * m.pitch := hin
    have haddr : u32 (base + off) = base + off := haddr
    refine ByteMem.store32_agree ?_
    rw [haddr]
    omega
  | fill off len byte =>
    have hlen : off + len ≤ m.height * m.pitch := hin
    have haddr : u32 (base + off) = base + off := haddr
    refine ByteMem.fill_agree ?_
    rw [haddr]
    omega
  | move dst src len =>
    have hlen : dst + len ≤ m.height * m.pitch := hin
    have haddr : u32 (base + dst) = base + dst := haddr
    refine ByteMem.blit_agree ?_
    rw [haddr]
    omega

theorem applyAll_agree {base lo hi : Nat} {out : List Store} (h : AllInside m out) (mem : Mem)
    (hroom : base + m.height * m.pitch < 2 ^ 32) (hapart : hi ≤ base ∨ base + m.height * m.pitch ≤ lo) :
    ByteMem.AgreeOn mem (applyAll base mem out) lo hi := by
  induction out generalizing mem with
  | nil => exact .refl mem lo hi
  | cons w out ih =>
    exact (Store.apply_agree (h w List.mem_cons_self) mem hroom hapart).trans
      (ih (fun w' hw' => h w' (List.mem_cons_of_mem w hw')) _)

/-! ## Outputs that stay inside -/

/-- No byte of the output completes a request that wraps. -/
def WriteBounded (m : Mode) (f : Font) (onlcr : Bool) (t : Term) : List UInt8 → Prop
  | [] => True
  | c :: cs =>
    (∀ r ∈ completed t.parser c, r.Bounded m t.ts) ∧ WriteBounded m f onlcr (emit m f onlcr t c).1 cs

theorem newline_good (hm : m.Fits) (h : Placed m ts) : Good m (terminalPuts m f ts newline) := by
  have hcr := terminalPutchar_good (f := f) hm h '\r'.toUInt8
  have hlf := terminalPutchar_good (f := f) hm hcr.1 '\n'.toUInt8
  have heq : terminalPuts m f ts newline = ((terminalPutchar m f (terminalPutchar m f ts '\r'.toUInt8).1 '\n'.toUInt8).1,
      (terminalPutchar m f ts '\r'.toUInt8).2 ++ ((terminalPutchar m f (terminalPutchar m f ts '\r'.toUInt8).1 '\n'.toUInt8).2 ++ [])) :=
    rfl
  rw [heq, List.append_nil]
  exact ⟨hlf.1, hcr.2.append hlf.2⟩

theorem emit_placed (hm : m.Fits) (onlcr : Bool) {t : Term} (h : Placed m t.ts) (c : UInt8) :
    Placed m (emit m f onlcr t c).1.ts := by
  unfold emit
  split
  · exact (newline_good (f := f) hm h).1
  · exact feed_placed hm h c

theorem emitAll_placed (hm : m.Fits) (onlcr : Bool) {t : Term} (h : Placed m t.ts) (s : List UInt8) :
    Placed m (emitAll m f onlcr t s).1.ts := by
  induction s generalizing t with
  | nil => exact h
  | cons c cs ih => exact ih (emit_placed hm onlcr h c)

theorem emitAll_inside (hm : m.Fits) {onlcr : Bool} {t : Term} (h : Placed m t.ts) {s : List UInt8}
    (hb : WriteBounded m f onlcr t s) : AllInside m (emitAll m f onlcr t s).2 := by
  induction s generalizing t with
  | nil => exact allInside_nil
  | cons c cs ih =>
    have hfirst : AllInside m (emit m f onlcr t c).2 := by
      unfold emit
      split
      · exact (newline_good (f := f) hm h).2
      · exact (feed_good hm h c hb.1).2
    exact hfirst.append (ih (emit_placed hm onlcr h c) hb.2)

theorem ldiscOutput_placed (hm : m.Fits) (onlcr : Bool) (h : Placed m ts) (s : List UInt8) :
    Placed m (ldiscOutput m f onlcr ts s).1 := by
  rw [ldiscOutput_eq]
  exact emitAll_placed (t := ⟨ts, none⟩) hm onlcr h s

theorem ldiscOutput_inside (hm : m.Fits) {onlcr : Bool} (h : Placed m ts) {s : List UInt8}
    (hb : WriteBounded m f onlcr ⟨ts, none⟩ s) : AllInside m (ldiscOutput m f onlcr ts s).2 := by
  rw [ldiscOutput_eq]
  exact emitAll_inside hm h hb

/-! ## Runs -/

/-- Outputs and switches, and what the kernel prints on the terminal that is shown. -/
inductive VtyOp where
  | output (id : Nat) (s : List UInt8)
  | switch (id : Nat)
  | print (s : List UInt8)
  | putchar (c : UInt8)
  | back
  | setCursor (col row : Nat)

namespace VtyOp

def Fits : VtyOp → Prop
  | .output id _ => id < numKernelVtys
  | .switch _ | .print _ | .putchar _ | .back | .setCursor .. => True

def run (m : Mode) (f : Font) (v : Vtys) : VtyOp → Vtys
  | .output id s => v.output m f id s
  | .switch id => v.switchVty id
  | .print s => v.drawn v.active (terminalPuts m f v.term s)
  | .putchar c => v.drawn v.active (terminalPutchar m f v.term c)
  | .back => v.drawn v.active (terminalBack m v.term)
  | .setCursor col row => v.drawn v.active (Vbe.setCursor m v.term col row, [])

end VtyOp

/-- The buffers are in memory, apart from each other. -/
structure Vtys.Layout (m : Mode) (v : Vtys) : Prop where
  room : ∀ i < numKernelVtys, v.screenBuf i + m.height * m.pitch < 2 ^ 32
  apart : ∀ i < numKernelVtys, ∀ j < numKernelVtys, i ≠ j →
    v.screenBuf i + m.height * m.pitch ≤ v.screenBuf j ∨ v.screenBuf j + m.height * m.pitch ≤ v.screenBuf i

/-- After `pty_init`. -/
structure Vtys.Boot (m : Mode) (v : Vtys) : Prop where
  active : v.active = 0
  layer0 : v.layer0 = v.screenBuf 0
  term : v.term.Home
  saved : ∀ i, (v.saved i).Home
  layout : v.Layout m

namespace Vtys

def Reachable (m : Mode) (f : Font) : Vtys → Prop :=
  Run.Reachable (Boot m) fun v v' => ∃ op : VtyOp, op.Fits ∧ v' = op.run m f v

structure Inv (m : Mode) (v : Vtys) : Prop where
  active : v.active < numKernelVtys
  layer0 : v.layer0 = v.screenBuf v.active
  placed : ∀ i, Placed m (v.state i)
  layout : v.Layout m

theorem Inv.drawn {v : Vtys} (hi : v.Inv m) {id : Nat} {r : TermState × List Store} (hr : Placed m r.1) :
    (v.drawn id r).Inv m := by
  have hplaced := hi.placed
  unfold state at hplaced
  unfold Vtys.drawn
  split
  · next h =>
    subst h
    refine ⟨hi.active, hi.layer0, fun i => ?_, ⟨hi.layout.room, hi.layout.apart⟩⟩
    have hpi := hplaced i
    unfold state
    split
    · exact hr
    · next hne => rwa [if_neg hne] at hpi
  · next h =>
    refine ⟨hi.active, hi.layer0, fun i => ?_, ⟨hi.layout.room, hi.layout.apart⟩⟩
    have hpi := hplaced i
    unfold state
    show Placed m (if i = v.active then v.term else update v.saved id r.1 i)
    split
    · next heq => rwa [if_pos heq] at hpi
    · next hne =>
      by_cases hid : i = id
      · subst hid
        rwa [update_self]
      · rw [update_of_ne hid]
        rwa [if_neg hne] at hpi

theorem Inv.switchVty {v : Vtys} (hi : v.Inv m) (id : Nat) : (v.switchVty id).Inv m := by
  unfold Vtys.switchVty
  split
  · exact hi
  · next h =>
    rw [not_or, Nat.not_le] at h
    obtain ⟨hlt, hne⟩ := h
    have hplaced := hi.placed
    refine ⟨hlt, rfl, fun i => ?_, ⟨hi.layout.room, hi.layout.apart⟩⟩
    show Placed m (if i = id then update v.saved v.active v.term id else update v.saved v.active v.term i)
    have hall : ∀ j, Placed m (update v.saved v.active v.term j) := fun j => by
      have hj := hplaced j
      unfold state at hj
      by_cases hja : j = v.active
      · subst hja
        rw [update_self]
        rwa [if_pos rfl] at hj
      · rw [update_of_ne hja]
        rwa [if_neg hja] at hj
    split
    · exact hall id
    · exact hall i

/-! ## Isolation -/

theorem terminalPuts_placed (hm : m.Fits) (h : Placed m ts) (s : List UInt8) : Placed m (terminalPuts m f ts s).1 := by
  have hall := emitAll_placed (f := f) (t := ⟨ts, none⟩) hm false h s
  rw [emitAll_false] at hall
  exact hall

theorem Inv.run (hm : m.Fits) {v : Vtys} (hi : v.Inv m) (op : VtyOp) : (op.run m f v).Inv m := by
  have hterm : Placed m v.term := by
    have hp := hi.placed v.active
    unfold state at hp
    rwa [if_pos rfl] at hp
  cases op with
  | output id s =>
    show (v.output m f id s).Inv m
    rw [output_eq]
    exact hi.drawn (ldiscOutput_placed hm _ (hi.placed id) s)
  | switch id => exact hi.switchVty id
  | print s => exact hi.drawn (terminalPuts_placed hm hterm s)
  | putchar c => exact hi.drawn (terminalPutchar_good hm hterm c).1
  | back => exact hi.drawn (terminalBack_good hm hterm).1
  | setCursor col row => exact hi.drawn (hterm.setCursor col row)

theorem Boot.inv (hm : m.Fits) {v : Vtys} (hb : v.Boot m) : v.Inv m where
  active := by rw [hb.active]; decide
  layer0 := by rw [hb.active]; exact hb.layer0
  placed i := by
    unfold state
    split
    · exact hb.term.placed hm
    · exact (hb.saved i).placed hm
  layout := hb.layout

theorem Reachable.inv (hm : m.Fits) {v : Vtys} (h : Reachable m f v) : v.Inv m :=
  Run.Reachable.invariant (Inv m) (fun _ hb => hb.inv hm) (fun _ _ hi ⟨op, _, hv⟩ => hv ▸ hi.run hm op) h

/-- The same terminal is shown, with the same state and the same memory. -/
structure SameShown (v v' : Vtys) : Prop where
  active : v'.active = v.active
  term : v'.term = v.term
  layer0 : v'.layer0 = v.layer0
  mem : v'.mem = v.mem

/-- An output to a terminal that is not shown: nothing that is shown changes, it does not
matter whether the terminal is shown before or after the output, and showing it and going
back changes nothing. -/
structure Isolated (m : Mode) (f : Font) (v : Vtys) (id : Nat) (s : List UInt8) : Prop where
  active : (v.output m f id s).active = v.active
  term : (v.output m f id s).term = v.term
  layer0 : (v.output m f id s).layer0 = v.layer0
  shown : ByteMem.AgreeOn v.mem (v.output m f id s).mem v.layer0 (v.layer0 + m.height * m.pitch)
  switched : SameShown ((v.output m f id s).switchVty id) ((v.switchVty id).output m f id s)
  back : SameShown v ((v.switchVty id).switchVty v.active)

theorem switchVty_eq {v : Vtys} {id : Nat} (hid : id < numKernelVtys) (hne : id ≠ v.active) :
    v.switchVty id = { v with
      saved := update v.saved v.active v.term, term := v.saved id, layer0 := v.screenBuf id, active := id } := by
  unfold switchVty
  rw [if_neg (not_or.mpr ⟨Nat.not_le.mpr hid, hne⟩)]
  simp only [update_of_ne hne]

theorem drawn_of_ne {v : Vtys} {id : Nat} (hne : id ≠ v.active) (r : TermState × List Store) :
    v.drawn id r = { v with saved := update v.saved id r.1, mem := applyAll (v.screenBuf id) v.mem r.2 } :=
  if_neg hne

theorem switched_right {v : Vtys} {id : Nat} (hid : id < numKernelVtys) (hne : id ≠ v.active) (s : List UInt8) :
    SameShown ((v.output m f id s).switchVty id) ((v.switchVty id).output m f id s) := by
  have hstate : v.state id = v.saved id := if_neg hne
  rw [output_eq, output_eq, hstate, drawn_of_ne hne, switchVty_eq hid (by exact hne), switchVty_eq hid hne]
  simp only [drawn, state, if_true, update_self]
  exact ⟨rfl, rfl, rfl, rfl⟩

theorem back_right {v : Vtys} (hi : v.Inv m) {id : Nat} (hid : id < numKernelVtys) (hne : id ≠ v.active) :
    SameShown v ((v.switchVty id).switchVty v.active) := by
  have hback : v.active ≠ (v.switchVty id).active := by
    rw [switchVty_eq hid hne]
    exact Ne.symm hne
  rw [switchVty_eq hi.active hback, switchVty_eq hid hne]
  exact ⟨rfl, update_self .., hi.layer0.symm, rfl⟩

/-- In every state, an output to a terminal that is not shown leaves what is shown alone, as
long as none of its requests wraps. -/
theorem vtys_isolated (hm : m.Fits) {v : Vtys} (h : Reachable m f v) {id : Nat} (hid : id < numKernelVtys)
    (hne : id ≠ v.active) {s : List UInt8} (hb : WriteBounded m f (v.onlcr id) ⟨v.state id, none⟩ s) :
    Isolated m f v id s := by
  have hi := h.inv hm
  have hout := ldiscOutput_inside hm (hi.placed id) hb
  have heq : v.output m f id s = v.drawn id (ldiscOutput m f (v.onlcr id) (v.state id) s) := v.output_eq id s
  rw [drawn_of_ne hne] at heq
  refine ⟨by rw [heq], by rw [heq], by rw [heq], ?_, switched_right hid hne s, back_right hi hid hne⟩
  rw [heq, hi.layer0]
  refine applyAll_agree hout v.mem (hi.layout.room id hid) ?_
  exact (hi.layout.apart id hid v.active hi.active hne).symm

/-- Four terminals whose buffers are sixty-four bytes apart. -/
def four : Vtys where
  active := 0
  term := freshTerm
  saved _ := freshTerm
  onlcr _ := true
  screenBuf i := 0x1000000 + i * (vga.fbSizeBytes + 64)
  layer0 := 0x1000000
  mem _ := 0

theorem four_boot : four.Boot vga where
  active := rfl
  layer0 := rfl
  term := freshTerm_home
  saved _ := freshTerm_home
  layout := ⟨by decide, by decide⟩

instance (m : Mode) (f : Font) (onlcr : Bool) : ∀ (t : Term) (s : List UInt8), Decidable (WriteBounded m f onlcr t s)
  | _, [] => isTrue trivial
  | t, c :: cs =>
    have := instDecidableWriteBounded m f onlcr (emit m f onlcr t c).1 cs
    inferInstanceAs (Decidable (_ ∧ _))

theorem vtys_isolated_four : Isolated vga blankFont four 2 (bytes "\x1b[3Xhello\n") :=
  vtys_isolated vga_fits (.start four_boot) (by decide) (by decide) (by decide)

/-- Eighty-four characters are deleted on the second terminal: the first of the bytes that are
cleared belong to the buffer of the one that is shown. -/
theorem not_vtys_isolated : ¬ ∀ v, Reachable vga blankFont v → ∀ id < numKernelVtys, id ≠ v.active →
    ∀ s, Isolated vga blankFont v id s := by
  intro hall
  have hiso := hall four (.start four_boot) 1 (by decide) (by decide) (bytes "\x1b[84P")
  have hsame := hiso.shown (four.layer0 + vga.fbSizeBytes - 61) (by decide) (by decide)
  have hbyte : (four.output vga blankFont 1 (bytes "\x1b[84P")).mem (four.layer0 + vga.fbSizeBytes - 61) = 255 := by
    decide +kernel
  rw [hbyte] at hsame
  exact absurd hsame (by decide)

end Vtys

end Serotonin.Vbe
