import Mathlib.Data.List.FinRange
import Mathlib.Tactic.SplitIfs

/-!
`drm_edid_parse`: two loops over the four descriptors of an EDID block, the first reads them as standard
timings, the second as detailed ones.  The calls of `printk` are left out.
-/

namespace Linuxab.Kernel

structure DisplayMode where
  name : String
  clock : UInt32
  hdisplay : UInt16
  hsyncStart : UInt16
  hsyncEnd : UInt16
  htotal : UInt16
  vdisplay : UInt16
  vsyncStart : UInt16
  vsyncEnd : UInt16
  vtotal : UInt16
  flags : UInt16
  type : UInt32
  hskew : Int32
  deriving DecidableEq, Repr

def drmModeTypePreferred : UInt32 := (1 : UInt32) <<< 3
def drmModeTypeDriver : UInt32 := (1 : UInt32) <<< 6

/-- `%dx%d`; the longest such text is shorter than the field. -/
def sizeName (x y : UInt16) : String := toString x.toNat ++ "x" ++ toString y.toNat

/-- The body of the first loop; `none` where it continues. -/
def standardMode (d : ℕ → UInt8) : Option DisplayMode :=
  if d 0 = 0 ∧ d 1 = 0 then none
  else
    let xres := UInt16.ofNat (((d 2).toNat+31)*8)
    let yres := xres
    let clock := UInt32.ofNat (((d 0).toNat*256+(d 1).toNat)*10000)
    some
      { name := sizeName xres yres
        clock := clock/1000
        hdisplay := xres
        vdisplay := yres
        htotal := xres+100
        vtotal := yres+10
        hsyncStart := xres+10
        hsyncEnd := xres+50
        vsyncStart := yres+2
        vsyncEnd := yres+6
        flags := 0
        type := drmModeTypeDriver
        hskew := 0 }

/-- The body of the second loop.  The sync offsets and widths are kept in bytes. -/
def detailedMode (d : ℕ → UInt8) : Option DisplayMode :=
  if d 0 = 0 ∧ d 1 = 0 then none
  else if d 3 = 0xFD ∨ d 3 = 0xFC ∨ d 3 = 0xFE ∨ d 3 = 0xFF then none
  else
    let pixclk := UInt32.ofNat (((d 0).toNat+(d 1).toNat <<< 8)*10000)
    let ha := UInt16.ofNat ((d 2).toNat+((d 4).toNat &&& 0xF0) <<< 4)
    let hbl := UInt16.ofNat ((d 3).toNat+((d 4).toNat &&& 0x0F) <<< 8)
    let va := UInt16.ofNat ((d 5).toNat+((d 7).toNat &&& 0xF0) <<< 4)
    let vbl := UInt16.ofNat ((d 6).toNat+((d 7).toNat &&& 0x0F) <<< 8)
    let hso := UInt8.ofNat ((d 8).toNat+((d 11).toNat &&& 0xC0) <<< 2)
    let hsw := UInt8.ofNat ((d 9).toNat+((d 11).toNat &&& 0x30) <<< 4)
    let vso := UInt8.ofNat (((d 10).toNat &&& 0xF0) >>> 4+((d 11).toNat &&& 0x0C) <<< 2)
    let vsw := UInt8.ofNat (((d 10).toNat &&& 0x0F)+((d 11).toNat &&& 0x03) <<< 4)
    some
      { name := "EDID:" ++ sizeName ha va
        clock := pixclk/1000
        hdisplay := ha
        htotal := ha+hbl
        hsyncStart := ha+hso.toUInt16
        hsyncEnd := ha+hso.toUInt16+hsw.toUInt16
        vdisplay := va
        vtotal := va+vbl
        vsyncStart := va+vso.toUInt16
        vsyncEnd := va+vso.toUInt16+vsw.toUInt16
        flags := 0
        type := drmModeTypePreferred ||| drmModeTypeDriver
        hskew := 0 }

/-- `&edid[0x36 + i * 18]`. -/
def descriptor (edid : ℕ → UInt8) (i : ℕ) : ℕ → UInt8 := fun k => edid (0x36+i*18+k)

/-- A loop over the descriptors that appends modes while there is room. -/
def modeLoop (body : (ℕ → UInt8) → Option DisplayMode) (edid : ℕ → UInt8) (maxModes : Int32)
    (modes : List DisplayMode) : List DisplayMode :=
  (List.range 4).foldl (fun modes i =>
    if (modes.length : ℤ) < maxModes.toInt then modes ++ (body (descriptor edid i)).toList else modes) modes

/-- The modes of the first loop. -/
def standardModes (edid : ℕ → UInt8) (maxModes : Int32) : List DisplayMode := modeLoop standardMode edid maxModes []

def checksum (edid : ℕ → UInt8) : UInt8 := (List.range 128).foldl (fun sum i => sum+edid i) 0

/-- The modes written to `modes`; their number is returned. -/
def drmEdidParse (edid : Option (ℕ → UInt8)) (maxModes : Int32) : List DisplayMode :=
  match edid with
  | none => []
  | some edid =>
    if edid 0 ≠ 0 ∨ edid 7 ≠ 0 then []
    else if checksum edid ≠ 0 then []
    else modeLoop detailedMode edid maxModes (standardModes edid maxModes)

/-! ## Detailed timings -/

/-- The numbers of a detailed timing, each in the range its bits have room for. -/
structure Timing where
  ha : ℕ
  hbl : ℕ
  va : ℕ
  vbl : ℕ
  hso : ℕ
  hsw : ℕ
  vso : ℕ
  vsw : ℕ
  ha_lt : ha < 4096
  hbl_lt : hbl < 4096
  va_lt : va < 4096
  vbl_lt : vbl < 4096
  hso_lt : hso < 1024
  hsw_lt : hsw < 1024
  vso_lt : vso < 64
  vsw_lt : vsw < 64

/-- The descriptor holds the timing and a pixel clock that is not zero. -/
def Encodes (d : ℕ → UInt8) (t : Timing) : Prop :=
  ¬(d 0 = 0 ∧ d 1 = 0) ∧
  (d 2).toNat = t.ha%256 ∧ (d 3).toNat = t.hbl%256 ∧ (d 4).toNat = t.ha/256*16+t.hbl/256 ∧
  (d 5).toNat = t.va%256 ∧ (d 6).toNat = t.vbl%256 ∧ (d 7).toNat = t.va/256*16+t.vbl/256 ∧
  (d 8).toNat = t.hso%256 ∧ (d 9).toNat = t.hsw%256 ∧ (d 10).toNat = t.vso%16*16+t.vsw%16 ∧
  (d 11).toNat = t.hso/256*64+t.hsw/256*16+t.vso/16*4+t.vsw/16

instance (d : ℕ → UInt8) (t : Timing) : Decidable (Encodes d t) := by unfold Encodes; infer_instance

structure Sizes where
  hdisplay : ℕ
  htotal : ℕ
  hsyncStart : ℕ
  hsyncEnd : ℕ
  vdisplay : ℕ
  vtotal : ℕ
  vsyncStart : ℕ
  vsyncEnd : ℕ
  deriving DecidableEq, Repr

def DisplayMode.sizes (m : DisplayMode) : Sizes :=
  ⟨m.hdisplay.toNat,m.htotal.toNat,m.hsyncStart.toNat,m.hsyncEnd.toNat,m.vdisplay.toNat,m.vtotal.toNat,
    m.vsyncStart.toNat,m.vsyncEnd.toNat⟩

/-- The sizes that a timing stands for. -/
def Timing.sizes (t : Timing) : Sizes :=
  ⟨t.ha,t.ha+t.hbl,t.ha+t.hso,t.ha+t.hso+t.hsw,t.va,t.va+t.vbl,t.va+t.vso,t.va+t.vso+t.vsw⟩

/-- Its fields as they are read back: the horizontal sync without its high bits. -/
def Timing.readBack (t : Timing) : Sizes :=
  ⟨t.ha,t.ha+t.hbl,t.ha+t.hso%256,t.ha+t.hso%256+t.hsw%256,t.va,t.va+t.vbl,t.va+t.vso,t.va+t.vso+t.vsw⟩

/-- The masks of `drm_edid_parse` on a byte. -/
theorem byte_masks : ∀ n < 256, n &&& 0xF0 = n/16*16 ∧ n &&& 0x0F = n%16 ∧ n &&& 0xC0 = n/64*64 ∧
    n &&& 0x30 = n/16%4*16 ∧ n &&& 0x0C = n/4%4*4 ∧ n &&& 0x03 = n%4 := by decide +kernel

/-- Two numbers of twelve bits from their low bytes and the byte with a nibble of each. -/
theorem unpack_twelve {a b low low' high : ℕ} (ha : a < 4096) (hb : b < 4096) (hlow : low = a%256)
    (hlow' : low' = b%256) (hhigh : high = a/256*16+b/256) :
    low+(high &&& 0xF0) <<< 4 = a ∧ low'+(high &&& 0x0F) <<< 8 = b := by
  obtain ⟨hupper,hlower,-⟩ := byte_masks high (by omega)
  rw [hupper,hlower,Nat.shiftLeft_eq,Nat.shiftLeft_eq]
  omega

/-- The four pairs of bits of a byte. -/
theorem byte_quarters {n a b c d : ℕ} (h : n = a*64+b*16+c*4+d) (hb : b < 4) (hc : c < 4) (hd : d < 4) :
    n/64 = a ∧ n/16%4 = b ∧ n/4%4 = c ∧ n%4 = d := by
  refine ⟨?_,?_,?_,?_⟩ <;> omega

/-- The four numbers whose high bits share a byte. -/
theorem unpack_sync {t : Timing} {d8 d9 d10 d11 : ℕ} (h8 : d8 = t.hso%256) (h9 : d9 = t.hsw%256)
    (h10 : d10 = t.vso%16*16+t.vsw%16) (h11 : d11 = t.hso/256*64+t.hsw/256*16+t.vso/16*4+t.vsw/16) :
    d8+(d11 &&& 0xC0) <<< 2 = t.hso ∧ d9+(d11 &&& 0x30) <<< 4 = t.hsw ∧
      (d10 &&& 0xF0) >>> 4+(d11 &&& 0x0C) <<< 2 = t.vso ∧ (d10 &&& 0x0F)+(d11 &&& 0x03) <<< 4 = t.vsw := by
  have hhso := t.hso_lt
  have hhsw := t.hsw_lt
  have hvso := t.vso_lt
  have hvsw := t.vsw_lt
  obtain ⟨hupper,hlower,-⟩ := byte_masks d10 (by omega)
  obtain ⟨-,-,mhso,mhsw,mvso,mvsw⟩ := byte_masks d11 (by omega)
  obtain ⟨qhso,qhsw,qvso,qvsw⟩ := byte_quarters h11 (by omega) (by omega) (by omega)
  rw [hupper,hlower,mhso,mhsw,mvso,mvsw,qhso,qhsw,qvso,qvsw,h8,h9,h10]
  simp only [Nat.shiftLeft_eq,Nat.shiftRight_eq_div_pow]
  refine ⟨?_,?_,?_,?_⟩ <;> omega

theorem detailedMode_of_encodes {d : ℕ → UInt8} {t : Timing} (h : Encodes d t) :
    (detailedMode d).map DisplayMode.sizes = if t.hbl%256 < 252 then some t.readBack else none := by
  obtain ⟨hclock,h2,h3,h4,h5,h6,h7,h8,h9,h10,h11⟩ := h
  have hskip : (d 3 = 0xFD ∨ d 3 = 0xFC ∨ d 3 = 0xFE ∨ d 3 = 0xFF) ↔ ¬t.hbl%256 < 252 := by
    simp only [← UInt8.toNat_inj,h3]
    change (t.hbl%256 = 253 ∨ t.hbl%256 = 252 ∨ t.hbl%256 = 254 ∨ t.hbl%256 = 255) ↔ _
    omega
  rw [detailedMode,if_neg hclock]
  by_cases hread : t.hbl%256 < 252
  · rw [if_pos hread,if_neg (by rw [hskip]; exact not_not.mpr hread)]
    obtain ⟨eha,ehbl⟩ := unpack_twelve t.ha_lt t.hbl_lt h2 h3 h4
    obtain ⟨eva,evbl⟩ := unpack_twelve t.va_lt t.vbl_lt h5 h6 h7
    obtain ⟨ehso,ehsw,evso,evsw⟩ := unpack_sync h8 h9 h10 h11
    rw [eha,ehbl,eva,evbl,ehso,ehsw,evso,evsw]
    have hha := t.ha_lt
    have hhbl := t.hbl_lt
    have hva := t.va_lt
    have hvbl := t.vbl_lt
    have hvso := t.vso_lt
    have hvsw := t.vsw_lt
    simp only [Option.map_some,DisplayMode.sizes,Timing.readBack,UInt16.toNat_add,UInt8.toNat_toUInt16,
      UInt8.toNat_ofNat',UInt16.toNat_ofNat',Option.some_inj,Sizes.mk.injEq]
    refine ⟨?_,?_,?_,?_,?_,?_,?_,?_⟩ <;> omega
  · rw [if_neg hread,if_pos (hskip.mpr hread)]
    rfl

theorem Timing.readBack_eq_sizes_iff (t : Timing) : t.readBack = t.sizes ↔ t.hso < 256 ∧ t.hsw < 256 := by
  rw [readBack,sizes,Sizes.mk.injEq]
  omega

/-! ## The loops -/

/-- While there is room for a mode from every descriptor, none is left out. -/
theorem foldl_modes_of_room (f : ℕ → Option DisplayMode) {m : ℤ} {l : List ℕ} {modes : List DisplayMode}
    (hroom : (modes.length : ℤ)+l.length ≤ m) :
    l.foldl (fun modes i => if (modes.length : ℤ) < m then modes ++ (f i).toList else modes) modes
      = modes ++ l.filterMap f := by
  induction l generalizing modes with
  | nil => simp
  | cons i l ih =>
    rw [List.length_cons] at hroom
    have hone : (f i).toList.length ≤ 1 := by cases f i <;> simp
    rw [List.foldl_cons,if_pos (by omega),ih (by rw [List.length_append]; omega),List.append_assoc]
    cases hf : f i <;> simp [hf]

theorem modeLoop_of_room {body : (ℕ → UInt8) → Option DisplayMode} {edid : ℕ → UInt8} {maxModes : Int32}
    {modes : List DisplayMode} (hroom : (modes.length : ℤ)+4 ≤ maxModes.toInt) :
    modeLoop body edid maxModes modes = modes ++ (List.finRange 4).filterMap fun i => body (descriptor edid i.val) := by
  rw [modeLoop,foldl_modes_of_room _ (by simpa using hroom)]
  congr 1

theorem filterMap_eq_map_iff {ι α : Type*} {p : ι → Prop} [DecidablePred p] {f g : ι → α} {l : List ι} :
    l.filterMap (fun i => if p i then some (f i) else none) = l.map g ↔ ∀ i ∈ l, p i ∧ f i = g i := by
  induction l with
  | nil => simp
  | cons i l ih =>
    by_cases hp : p i
    · simp [hp,ih]
    · -- with one left out the lists differ in length
      have hshort : (l.filterMap fun i => if p i then some (f i) else none).length ≤ l.length :=
        List.length_filterMap_le _ l
      constructor
      · intro heq
        have hlength := congrArg List.length heq
        simp [hp] at hlength
        omega
      · intro hall
        exact absurd (hall i List.mem_cons_self).1 hp

/-- A block that `drm_edid_parse` accepts, with a timing in each of its descriptors. -/
structure ValidBlock (edid : ℕ → UInt8) (t : Fin 4 → Timing) : Prop where
  header : edid 0 = 0 ∧ edid 7 = 0
  checksum : checksum edid = 0
  timings : ∀ i : Fin 4, Encodes (descriptor edid i.val) (t i)

theorem sync_256_lt : 256 < 1024 := by decide

/-- A timing that has a sync offset only. -/
def syncOnly (hso : ℕ) (h : hso < 1024) : Timing :=
  ⟨0,0,0,0,hso,0,0,0,Nat.succ_pos _,Nat.succ_pos _,Nat.succ_pos _,Nat.succ_pos _,h,Nat.succ_pos _,Nat.succ_pos _,
    Nat.succ_pos _⟩

/-- A block of four descriptors with this byte at position 11. -/
def syncBlock (high : UInt8) : ℕ → UInt8 := fun k =>
  if k = 127 then 252
  else if k < 0x36 ∨ 126 ≤ k then 0
  else if (k-0x36)%18 = 0 then 1
  else if (k-0x36)%18 = 11 then high
  else 0

end Linuxab.Kernel
