import Linuxab.Console.OnScreen

/-! The hardware cursor of kernel/cursor.c. The registers of the CRTC are written through a port that selects
one and a port that stores into the selected one. -/
namespace Linuxab.Console
open Linuxab.Base

def VGA_CRTC_INDEX : UInt16 := 0x3D4
def VGA_CRTC_DATA : UInt16 := 0x3D5

def CURSOR_LOC_HIGH : UInt8 := 0x0E
def CURSOR_LOC_LOW : UInt8 := 0x0F
def CURSOR_START : UInt8 := 0x0A
def CURSOR_END : UInt8 := 0x0B

/-- The selected register and what was last written to each. -/
structure Crtc where
  index : UInt8
  regs : UInt8 → UInt8

namespace Crtc

def outb (port : UInt16) (val : UInt8) (crtc : Crtc) : Crtc :=
  if port = VGA_CRTC_INDEX then { crtc with index := val }
  else if port = VGA_CRTC_DATA then { crtc with regs := Function.update crtc.regs crtc.index val }
  else crtc

/-- The two location registers, read as one number. -/
def location (crtc : Crtc) : ℕ := (crtc.regs CURSOR_LOC_HIGH).toNat*256+(crtc.regs CURSOR_LOC_LOW).toNat

end Crtc

/-- The port writes of `cursor_update_hw`. -/
def updatePorts (s : CursorState) (crtc : Crtc) : Crtc :=
  let pos := UInt16.ofNat s.offset
  let crtc := crtc.outb VGA_CRTC_INDEX CURSOR_LOC_LOW
  let crtc := crtc.outb VGA_CRTC_DATA (pos &&& 0xFF).toUInt8
  let crtc := crtc.outb VGA_CRTC_INDEX CURSOR_LOC_HIGH
  crtc.outb VGA_CRTC_DATA ((pos >>> 8) &&& 0xFF).toUInt8

/-- The port writes of `cursor_set_shape`. -/
def shapePorts (start stop : UInt8) (crtc : Crtc) : Crtc :=
  let crtc := crtc.outb VGA_CRTC_INDEX CURSOR_START
  let crtc := crtc.outb VGA_CRTC_DATA start
  let crtc := crtc.outb VGA_CRTC_INDEX CURSOR_END
  crtc.outb VGA_CRTC_DATA stop

/-- The position and the colour are set without a check. -/
def CursorState.cursorRestoreState (s : CursorState) (x y c : UInt8) : CursorState :=
  CursorState.cursorUpdateHw { s with cursorX := x, cursorY := y, color := c }

/-- The console with its hardware. -/
structure Display where
  state : CursorState
  crtc : Crtc

inductive DisplayCall
  | init
  | setPos (x y : UInt8)
  | move (dx dy : Int8)
  | clearScreen
  | putchar (c : UInt8)
  | restoreState (x y c : UInt8)
  | insertChar (c : UInt8)
  | deleteChar
  | insertLine
  | deleteLine
  deriving DecidableEq

namespace Display

/-- A function that ends in state `s` with `cursor_update_hw`. -/
def finish (d : Display) (s : CursorState) : Display := ⟨s,updatePorts s d.crtc⟩

/-- `cursor_init` updates the location before it resets the position, and `cursor_delete_char` returns at once
behind the last column. -/
def call (d : Display) : DisplayCall → Display
  | .init => ⟨d.state.cursorInit,updatePorts d.state (shapePorts 0 15 d.crtc)⟩
  | .setPos x y => d.finish (d.state.cursorSetPos x y)
  | .move dx dy => d.finish (d.state.cursorMove dx dy)
  | .clearScreen => d.finish d.state.cursorClearScreen
  | .putchar c => d.finish (d.state.cursorPutchar c)
  | .restoreState x y c => d.finish (d.state.cursorRestoreState x y c)
  | .insertChar c => d.finish (d.state.cursorInsertChar c)
  | .deleteChar => if d.state.cursorX ≥ 80 then d else d.finish d.state.cursorDeleteChar
  | .insertLine => d.finish d.state.cursorInsertLine
  | .deleteLine => d.finish d.state.cursorDeleteLine

def run (d : Display) (calls : List DisplayCall) : Display := calls.foldl call d

/-- The hardware cursor is where the software cursor is. -/
def Follows (d : Display) : Prop := d.crtc.location = d.state.offset

variable {d : Display} {c : DisplayCall}

section Ports
open Crtc

lemma offset_lt (s : CursorState) : s.offset < UInt16.size := by
  have hx := s.cursorX.toNat_lt
  have hy := s.cursorY.toNat_lt
  rw [CursorState.offset,UInt16.size]
  omega

/-- The high and the low byte of the position are stored, whichever register was selected. -/
lemma location_updatePorts (s : CursorState) (crtc : Crtc) : (updatePorts s crtc).location = s.offset := by
  have hlt : s.offset < 65536 := offset_lt s
  have hpos : (UInt16.ofNat s.offset).toNat = s.offset := UInt16.toNat_ofNat_of_lt' hlt
  have hmask : (0xFF : UInt16).toNat = 2^8-1 := rfl
  have hlow : (UInt16.ofNat s.offset &&& 0xFF).toUInt8.toNat = s.offset%256 := by
    rw [UInt16.toNat_toUInt8,UInt16.toNat_and,hpos,hmask,Nat.and_two_pow_sub_one_eq_mod]
    omega
  have hhigh : ((UInt16.ofNat s.offset >>> 8) &&& 0xFF).toUInt8.toNat = s.offset/256 := by
    have hshift : (UInt16.ofNat s.offset >>> 8).toNat = s.offset/256 := by
      rw [UInt16.toNat_shiftRight,hpos]
      exact Nat.shiftRight_eq_div_pow s.offset 8
    rw [UInt16.toNat_toUInt8,UInt16.toNat_and,hshift,hmask,Nat.and_two_pow_sub_one_eq_mod]
    omega
  have hregs : (updatePorts s crtc).location =
      ((UInt16.ofNat s.offset >>> 8) &&& 0xFF).toUInt8.toNat*256+(UInt16.ofNat s.offset &&& 0xFF).toUInt8.toNat := by
    simp [updatePorts,outb,location,VGA_CRTC_INDEX,VGA_CRTC_DATA,CURSOR_LOC_HIGH,CURSOR_LOC_LOW]
  rw [hregs,hlow,hhigh]
  omega

lemma follows_finish (d : Display) (s : CursorState) : (d.finish s).Follows := location_updatePorts s d.crtc

end Ports

/-- The location that the model of the console keeps is that of the registers. -/
def Agrees (d : Display) : Prop := d.crtc.location = d.state.location.toNat

lemma agrees_finish (d : Display) (s : CursorState) : (d.finish s.cursorUpdateHw).Agrees :=
  (location_updatePorts _ d.crtc).trans (UInt16.toNat_ofNat_of_lt' (offset_lt s)).symm

lemma Agrees.call (h : d.Agrees) (c : DisplayCall) : (d.call c).Agrees := by
  cases c with
  | init => exact (location_updatePorts d.state _).trans (UInt16.toNat_ofNat_of_lt' (offset_lt d.state)).symm
  | deleteChar =>
    unfold Display.call CursorState.cursorDeleteChar
    split_ifs
    · exact h
    · exact agrees_finish d _
  | _ => exact agrees_finish d _

theorem Agrees.run (h : d.Agrees) (calls : List DisplayCall) : (d.run calls).Agrees :=
  List.foldlRecOn _ _ h fun _ hd c _ => hd.call c

/-- All calls but `cursor_init` keep the two cursors together. -/
lemma Follows.call (h : d.Follows) (hc : c ≠ .init) : (d.call c).Follows := by
  cases c with
  | init => exact absurd rfl hc
  | deleteChar =>
    unfold Display.call
    split_ifs
    · exact h
    · exact follows_finish d _
  | _ => exact follows_finish d _

/-- After `cursor_init` the hardware cursor is where the software cursor was. -/
lemma follows_init_iff (d : Display) : (d.call .init).Follows ↔ d.state.cursorX = 0 ∧ d.state.cursorY = 0 := by
  have hlocation : (d.call .init).crtc.location = d.state.offset := location_updatePorts d.state _
  have hoffset : (d.call .init).state.offset = 0 := rfl
  rw [Follows,hlocation,hoffset,CursorState.offset,← UInt8.toNat_inj,← UInt8.toNat_inj,UInt8.toNat_zero]
  omega

lemma run_append (d : Display) (pre : List DisplayCall) (c : DisplayCall) :
    d.run (pre ++ [c]) = (d.run pre).call c := by
  rw [run,List.foldl_append]
  rfl

end Display

/-- From `cursor_init` on the hardware cursor follows exactly if the cursor is in the first cell at every
`cursor_init`. -/
theorem location_follows_iff (d : Display) (calls : List DisplayCall) :
    (∀ pre c, pre ++ [c] <+: .init::calls → (d.run (pre ++ [c])).Follows) ↔
      ∀ pre, pre ++ [.init] <+: .init::calls → (d.run pre).state.cursorX = 0 ∧ (d.run pre).state.cursorY = 0 := by
  constructor
  · intro h pre hpre
    have hinit := h pre .init hpre
    rwa [Display.run_append,Display.follows_init_iff] at hinit
  · intro h
    have hall : ∀ pre, pre <+: .init::calls → pre ≠ [] → (d.run pre).Follows := by
      intro pre hpre hne
      induction pre using List.reverseRecOn with
      | nil => exact absurd rfl hne
      | append_singleton pre c ih =>
        rw [Display.run_append]
        by_cases hc : c = .init
        · subst hc
          exact (Display.follows_init_iff _).mpr (h pre hpre)
        · -- the first call is `cursor_init`
          have hlater : pre ≠ [] := by
            rintro rfl
            exact hc (List.cons_prefix_cons.mp hpre).1
          exact (ih ((List.prefix_append pre [c]).trans hpre) hlater).call hc
    intro pre c hpre
    exact hall (pre ++ [c]) hpre (by simp)

/-- With the cursor in another cell the hardware cursor stays there. -/
theorem location_lags :
    (Display.run ⟨⟨fun _ => 0,[],7,2,0x0F,0⟩,⟨0,fun _ => 0⟩⟩ [.init]).crtc.location = 167 ∧
    (Display.run ⟨⟨fun _ => 0,[],7,2,0x0F,0⟩,⟨0,fun _ => 0⟩⟩ [.init]).state.offset = 0 := by
  decide

end Linuxab.Console
