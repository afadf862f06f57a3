import Mathlib.Data.Int.Notation
import Mathlib.Data.List.Induction
import Mathlib.Data.List.Infix
import Mathlib.Data.List.Nodup
import Mathlib.Tactic.SplitIfs

/-! The ACPI bus of kernel/drivers/accel/acpi_bus.c: drivers and devices are added in any order and bound
to each other as they come. A driver is an element of an arbitrary type, a device is its index in
`acpi_devices`, and a text is given by its bytes before the NUL. -/
namespace Linuxab.Acpi

def ACPI_MAX_DEVICES : ℕ := 256
def ACPI_MAX_DRIVERS : ℕ := 32

structure AcpiDevice (Δ : Type) where
  parent : Option ℕ
  name : List UInt8
  busId : List UInt8
  handle : UInt64
  powerState : ℤ
  driver : Option Δ

/-- A call of a driver's `add`, and whether the device had a driver when it was made. -/
structure AddCall (Δ : Type) where
  driver : Δ
  device : ℕ
  bound : Bool

/-- `acpi_devices` and `acpi_drivers` up to their counts, with the calls of `add` so far. -/
structure AcpiBus (Δ : Type) where
  devices : List (AcpiDevice Δ)
  drivers : List Δ
  calls : List (AddCall Δ)

/-- The arguments of `acpi_bus_add_device`; the type is not used. -/
structure DeviceArgs where
  parent : Option ℕ
  name : List UInt8
  type : UInt32
  handle : UInt64

def strncmp : List UInt8 → List UInt8 → ℕ → ℤ
  | _,_,0 => 0
  | [],[],_+1 => 0
  | [],b::_,_+1 => -b.toNat
  | a::_,[],_+1 => a.toNat
  | a::s,b::t,n+1 => if a = b then strncmp s t n else a.toNat-b.toNat

/-- The loop over `ids`, which ends with an entry whose text is empty. -/
def acpiMatchDeviceIds (busId : List UInt8) : List (List UInt8) → Bool
  | [] => false
  | id::ids =>
    if id = [] then false
    else if strncmp busId id id.length = 0 then true
    else acpiMatchDeviceIds busId ids

theorem strncmp_length_eq_zero_iff {t : List UInt8} (ht : 0 ∉ t) (s : List UInt8) :
    strncmp s t t.length = 0 ↔ t <+: s := by
  induction t generalizing s with
  | nil => cases s <;> simp [strncmp]
  | cons b t ih =>
    simp only [List.mem_cons,not_or] at ht
    cases s with
    | nil =>
      have hb : b.toNat ≠ 0 := fun h => ht.1 (UInt8.toNat_inj.mp h.symm)
      simpa [strncmp] using hb
    | cons a s =>
      by_cases hab : a = b
      · simp [strncmp,hab,ih ht.2]
      · have hne : (a.toNat : ℤ)-b.toNat ≠ 0 := by
          intro h
          exact hab (UInt8.toNat_inj.mp (by omega))
        simp [strncmp,hab,hne,Ne.symm hab]

/-- A device matches if one of the ids before the end begins its bus id. -/
theorem acpiMatchDeviceIds_iff (busId : List UInt8) {ids : List (List UInt8)} (h : ∀ id ∈ ids, 0 ∉ id) :
    acpiMatchDeviceIds busId ids = true ↔ ∃ id ∈ ids.takeWhile (· ≠ []), id <+: busId := by
  induction ids with
  | nil => simp [acpiMatchDeviceIds]
  | cons id ids ih =>
    have htail := ih fun t ht => h t (List.mem_cons_of_mem id ht)
    by_cases hid : id = []
    · simp [acpiMatchDeviceIds,hid]
    · have hone := strncmp_length_eq_zero_iff (h id List.mem_cons_self) busId
      by_cases hpre : id <+: busId
      · simp [acpiMatchDeviceIds,hid,hone,hpre]
      · simp [acpiMatchDeviceIds,hid,hone,hpre,htail]

namespace AcpiBus
variable {Δ : Type} (ids : Δ → List (List UInt8)) (add : Δ → ℕ → ℤ)

/-- One round of the loop of `acpi_bus_register_driver`. -/
def probeOne (driver : Δ) (i : ℕ) (dev : AcpiDevice Δ) : AcpiDevice Δ × List (AddCall Δ) :=
  if dev.driver.isNone && acpiMatchDeviceIds dev.busId (ids driver) then
    (if add driver i = 0 then { dev with driver := some driver } else dev,[⟨driver,i,dev.driver.isSome⟩])
  else (dev,[])

/-- That loop from device `i` on. -/
def probeLoop (driver : Δ) : ℕ → List (AcpiDevice Δ) → List (AcpiDevice Δ) × List (AddCall Δ)
  | _,[] => ([],[])
  | i,dev::devs =>
    let r := probeOne ids add driver i dev
    let rest := probeLoop driver (i+1) devs
    (r.1::rest.1,r.2 ++ rest.2)

def registerDriver (bus : AcpiBus Δ) (driver : Δ) : ℤ × AcpiBus Δ :=
  if bus.drivers.length ≥ ACPI_MAX_DRIVERS then (-1,bus)
  else
    let r := probeLoop ids add driver 0 bus.devices
    (0,⟨r.1,bus.drivers ++ [driver],bus.calls ++ r.2⟩)

/-- The loop of `acpi_bus_add_device` over the drivers, for device `i`. -/
def bindLoop (i : ℕ) (dev : AcpiDevice Δ) : List Δ → AcpiDevice Δ × List (AddCall Δ)
  | [] => (dev,[])
  | drv::drvs =>
    if acpiMatchDeviceIds dev.busId (ids drv) then
      if add drv i = 0 then ({ dev with driver := some drv },[⟨drv,i,dev.driver.isSome⟩])
      else
        let rest := bindLoop i dev drvs
        (rest.1,⟨drv,i,dev.driver.isSome⟩::rest.2)
    else bindLoop i dev drvs

/-- The device as it is before the drivers are tried: the texts are cut to their fields of 32 and 16 bytes. -/
def newDevice (a : DeviceArgs) : AcpiDevice Δ := ⟨a.parent,a.name.take 31,a.name.take 15,a.handle,-1,none⟩

def addDevice (bus : AcpiBus Δ) (a : DeviceArgs) : ℤ × AcpiBus Δ :=
  if bus.devices.length ≥ ACPI_MAX_DEVICES then (-1,bus)
  else
    let r := bindLoop ids add bus.devices.length (newDevice a) bus.drivers
    (0,⟨bus.devices ++ [r.1],bus.drivers,bus.calls ++ r.2⟩)

inductive Op (Δ : Type)
  | registerDriver (driver : Δ)
  | addDevice (args : DeviceArgs)

def step (bus : AcpiBus Δ) : Op Δ → AcpiBus Δ
  | .registerDriver driver => (registerDriver ids add bus driver).2
  | .addDevice args => (addDevice ids add bus args).2

/-- Both tables are empty at the start. -/
def run (ops : List (Op Δ)) : AcpiBus Δ := ops.foldl (step ids add) ⟨[],[],[]⟩

end AcpiBus

section Binding
variable {Δ : Type}

def driversOf (ops : List (AcpiBus.Op Δ)) : List Δ :=
  ops.filterMap fun
    | .registerDriver driver => some driver
    | .addDevice _ => none

def devicesOf (ops : List (AcpiBus.Op Δ)) : List DeviceArgs :=
  ops.filterMap fun
    | .registerDriver _ => none
    | .addDevice args => some args

variable (ids : Δ → List (List UInt8)) (add : Δ → ℕ → ℤ)

/-- The driver matches device `i` and accepts it. -/
def Accepts (i : ℕ) (a : DeviceArgs) (driver : Δ) : Bool :=
  acpiMatchDeviceIds (a.name.take 15) (ids driver) && decide (add driver i = 0)

/-- The first driver that matches device `i` and accepts it. -/
def firstDriver (drivers : List Δ) (i : ℕ) (a : DeviceArgs) : Option Δ := drivers.find? (Accepts ids add i a)

/-- Device `i` when the drivers have been tried. -/
def boundDevice (drivers : List Δ) (i : ℕ) (a : DeviceArgs) : AcpiDevice Δ :=
  { (AcpiBus.newDevice a : AcpiDevice Δ) with driver := firstDriver ids add drivers i a }

/-- Every device has the first driver that takes it, and `add` was called once at most for a driver and
a device, while the device had no driver. -/
structure Settled (drivers : List Δ) (devices : List DeviceArgs) (bus : AcpiBus Δ) : Prop where
  table : bus.drivers = drivers
  bound : bus.devices = devices.mapIdx (boundDevice ids add drivers)
  once : (bus.calls.map fun c => (c.driver,c.device)).Nodup
  unbound : ∀ c ∈ bus.calls, c.bound = false
  known : ∀ c ∈ bus.calls, c.driver ∈ drivers ∧ c.device < devices.length

/-- A driver that comes last gets a device that no earlier one has taken. -/
theorem probeOne_fst (drivers : List Δ) (driver : Δ) (i : ℕ) (a : DeviceArgs) :
    (AcpiBus.probeOne ids add driver i (boundDevice ids add drivers i a)).1 =
      boundDevice ids add (drivers ++ [driver]) i a := by
  rw [AcpiBus.probeOne,boundDevice,boundDevice,firstDriver,firstDriver,List.find?_append]
  cases hfirst : drivers.find? (Accepts ids add i a) with
  | some d => simp
  | none =>
    by_cases hmatch : acpiMatchDeviceIds (a.name.take 15) (ids driver) = true
    · by_cases hadd : add driver i = 0 <;> simp [AcpiBus.newDevice,Accepts,hmatch,hadd]
    · simp [AcpiBus.newDevice,Accepts,hmatch]

theorem probeOne_snd (driver : Δ) (i : ℕ) (dev : AcpiDevice Δ) :
    (AcpiBus.probeOne ids add driver i dev).2 = [] ∨
    (AcpiBus.probeOne ids add driver i dev).2 = [⟨driver,i,false⟩] := by
  rw [AcpiBus.probeOne]
  cases hdriver : dev.driver with
  | some d => exact .inl rfl
  | none =>
    by_cases hmatch : acpiMatchDeviceIds dev.busId (ids driver) = true
    · exact .inr (by simp [hmatch])
    · exact .inl (by simp [hmatch])

theorem probeLoop_fst (drivers : List Δ) (driver : Δ) (i : ℕ) (devices : List DeviceArgs) :
    (AcpiBus.probeLoop ids add driver i (devices.mapIdx fun j => boundDevice ids add drivers (i+j))).1 =
      devices.mapIdx fun j => boundDevice ids add (drivers ++ [driver]) (i+j) := by
  induction devices generalizing i with
  | nil => rfl
  | cons a devices ih =>
    have htail := ih (i+1)
    simp only [Nat.add_assoc,Nat.add_comm 1] at htail
    simp only [List.mapIdx_cons,AcpiBus.probeLoop,Nat.add_zero,probeOne_fst]
    rw [htail]

/-- A new driver calls `add` for some of the devices, in their order. -/
theorem probeLoop_snd (driver : Δ) (i : ℕ) (devs : List (AcpiDevice Δ)) :
    ∃ tried : List ℕ, tried.Sublist (List.range' i devs.length) ∧
      (AcpiBus.probeLoop ids add driver i devs).2 = tried.map fun j => ⟨driver,j,false⟩ := by
  induction devs generalizing i with
  | nil => exact ⟨[],List.Sublist.refl _,rfl⟩
  | cons dev devs ih =>
    obtain ⟨tried,hsub,hcalls⟩ := ih (i+1)
    rw [AcpiBus.probeLoop,List.length_cons,List.range'_succ,hcalls]
    obtain hone | hone := probeOne_snd ids add driver i dev
    · exact ⟨tried,hsub.cons i,by rw [hone]; rfl⟩
    · exact ⟨i::tried,hsub.cons_cons i,by rw [hone]; rfl⟩

/-- A new device is given to the first driver that takes it. -/
theorem bindLoop_fst (drivers : List Δ) (i : ℕ) (a : DeviceArgs) :
    (AcpiBus.bindLoop ids add i (AcpiBus.newDevice a) drivers).1 = boundDevice ids add drivers i a := by
  induction drivers with
  | nil => rfl
  | cons d drivers ih =>
    rw [AcpiBus.bindLoop,boundDevice,firstDriver,List.find?_cons]
    by_cases hmatch : acpiMatchDeviceIds (a.name.take 15) (ids d) = true
    · by_cases hadd : add d i = 0
      · simp [AcpiBus.newDevice,Accepts,hmatch,hadd]
      · simpa [AcpiBus.newDevice,Accepts,hmatch,hadd,boundDevice,firstDriver] using ih
    · simpa [AcpiBus.newDevice,Accepts,hmatch,boundDevice,firstDriver] using ih

/-- For a new device `add` of some of the drivers is called, in their order. -/
theorem bindLoop_snd (drivers : List Δ) (i : ℕ) (a : DeviceArgs) :
    ∃ tried : List Δ, tried.Sublist drivers ∧
      (AcpiBus.bindLoop ids add i (AcpiBus.newDevice a) drivers).2 = tried.map fun d => ⟨d,i,false⟩ := by
  induction drivers with
  | nil => exact ⟨[],List.Sublist.refl _,rfl⟩
  | cons d drivers ih =>
    obtain ⟨tried,hsub,hcalls⟩ := ih
    rw [AcpiBus.bindLoop]
    split_ifs
    · exact ⟨[d],(List.nil_sublist drivers).cons_cons d,rfl⟩
    · exact ⟨d::tried,hsub.cons_cons d,congrArg (_::·) hcalls⟩
    · exact ⟨tried,hsub.cons d,hcalls⟩

variable {ids add} {drivers : List Δ} {devices : List DeviceArgs} {bus : AcpiBus Δ}

/-- Calls with a new driver or for a new device come on top of those made before. -/
theorem Settled.extend (h : Settled ids add drivers devices bus) {drivers' : List Δ} {devices' : List DeviceArgs}
    {bus' : AcpiBus Δ} {calls : List (AddCall Δ)} (htable : bus'.drivers = drivers')
    (hbound : bus'.devices = devices'.mapIdx (boundDevice ids add drivers'))
    (hcalls : bus'.calls = bus.calls ++ calls) (hdrivers : drivers ⊆ drivers')
    (hdevices : devices.length ≤ devices'.length)
    (honce : (calls.map fun c => (c.driver,c.device)).Nodup) (hunbound : ∀ c ∈ calls, c.bound = false)
    (hknown : ∀ c ∈ calls, c.driver ∈ drivers' ∧ c.device < devices'.length)
    (hfresh : ∀ c ∈ calls, c.driver ∉ drivers ∨ devices.length ≤ c.device) :
    Settled ids add drivers' devices' bus' := by
  refine ⟨htable,hbound,?_,?_,?_⟩
  · rw [hcalls,List.map_append,List.nodup_append]
    refine ⟨h.once,honce,?_⟩
    rintro _ hold _ hnew rfl
    obtain ⟨c,hc,hpair⟩ := List.mem_map.mp hold
    obtain ⟨c',hc',rfl⟩ := List.mem_map.mp hnew
    obtain ⟨hdriver,hdevice⟩ := h.known c hc
    rw [Prod.mk.injEq] at hpair
    rw [hpair.1] at hdriver
    exact (hfresh c' hc').elim (· hdriver) (by omega)
  · rw [hcalls]
    exact List.forall_mem_append.mpr ⟨h.unbound,hunbound⟩
  · rw [hcalls]
    refine List.forall_mem_append.mpr ⟨fun c hc => ?_,hknown⟩
    exact ⟨hdrivers (h.known c hc).1,(h.known c hc).2.trans_le hdevices⟩

theorem Settled.registerDriver (h : Settled ids add drivers devices bus) {driver : Δ} (hnew : driver ∉ drivers)
    (hlimit : drivers.length < ACPI_MAX_DRIVERS) :
    Settled ids add (drivers ++ [driver]) devices (bus.registerDriver ids add driver).2 := by
  obtain ⟨tried,hsub,hcalls⟩ := probeLoop_snd ids add driver 0 bus.devices
  have hloop := probeLoop_fst ids add drivers driver 0 devices
  simp only [Nat.zero_add] at hloop
  have hlen : bus.devices.length = devices.length := by rw [h.bound,List.length_mapIdx]
  rw [AcpiBus.registerDriver,h.table,if_neg (by omega)]
  refine h.extend rfl (by rw [h.bound]; exact hloop) (congrArg (bus.calls ++ ·) hcalls)
    (List.subset_append_left _ _) le_rfl ?_ ?_ ?_ ?_
  · rw [List.map_map]
    exact (hsub.nodup List.nodup_range').map fun i j hij => (Prod.ext_iff.mp hij).2
  · simp
  · intro c hc
    obtain ⟨j,hj,rfl⟩ := List.mem_map.mp hc
    have hj := List.mem_range'_1.mp (hsub.subset hj)
    exact ⟨by simp,show j < devices.length by omega⟩
  · intro c hc
    obtain ⟨j,-,rfl⟩ := List.mem_map.mp hc
    exact .inl hnew

theorem Settled.addDevice (h : Settled ids add drivers devices bus) (hnodup : drivers.Nodup) (a : DeviceArgs)
    (hlimit : devices.length < ACPI_MAX_DEVICES) :
    Settled ids add drivers (devices ++ [a]) (bus.addDevice ids add a).2 := by
  have hlen : bus.devices.length = devices.length := by rw [h.bound,List.length_mapIdx]
  obtain ⟨tried,hsub,hcalls⟩ := bindLoop_snd ids add drivers devices.length a
  rw [AcpiBus.addDevice,h.table,hlen,if_neg (by omega)]
  refine h.extend rfl ?_ (congrArg (bus.calls ++ ·) hcalls) (List.Subset.refl _) (by simp) ?_ ?_ ?_ ?_
  · rw [h.bound,List.mapIdx_concat]
    exact congrArg (_ ++ [·]) (bindLoop_fst ids add drivers devices.length a)
  · rw [List.map_map]
    exact (hsub.nodup hnodup).map fun d e hde => (Prod.ext_iff.mp hde).1
  · simp
  · intro c hc
    obtain ⟨d,hd,rfl⟩ := List.mem_map.mp hc
    exact ⟨hsub.subset hd,by simp⟩
  · intro c hc
    obtain ⟨d,-,rfl⟩ := List.mem_map.mp hc
    exact .inr le_rfl

/-- Within the limits of the tables, every order of the calls leaves the bus settled. -/
theorem settled_run (ops : List (AcpiBus.Op Δ)) (hnodup : (driversOf ops).Nodup)
    (hdrivers : (driversOf ops).length ≤ ACPI_MAX_DRIVERS) (hdevices : (devicesOf ops).length ≤ ACPI_MAX_DEVICES) :
    Settled ids add (driversOf ops) (devicesOf ops) (AcpiBus.run ids add ops) := by
  induction ops using List.reverseRecOn with
  | nil => exact ⟨rfl,rfl,List.nodup_nil,nofun,nofun⟩
  | append_singleton ops op ih =>
    rw [AcpiBus.run,List.foldl_append,List.foldl_cons,List.foldl_nil]
    cases op with
    | registerDriver driver =>
      have hsplit : driversOf (ops ++ [.registerDriver driver]) = driversOf ops ++ [driver] := by simp [driversOf]
      have hsame : devicesOf (ops ++ [.registerDriver driver]) = devicesOf ops := by simp [devicesOf]
      rw [hsplit] at hnodup hdrivers
      rw [hsame] at hdevices
      rw [hsplit,hsame]
      rw [List.length_append,List.length_singleton] at hdrivers
      obtain ⟨hinit,-,hnew⟩ := List.nodup_append.mp hnodup
      have hprev := ih hinit (by omega) hdevices
      exact hprev.registerDriver (fun hmem => hnew driver hmem driver (by simp) rfl) (by omega)
    | addDevice args =>
      have hsame : driversOf (ops ++ [.addDevice args]) = driversOf ops := by simp [driversOf]
      have hsplit : devicesOf (ops ++ [.addDevice args]) = devicesOf ops ++ [args] := by simp [devicesOf]
      rw [hsplit] at hdevices
      rw [hsame] at hnodup hdrivers
      rw [hsplit,hsame]
      rw [List.length_append,List.length_singleton] at hdevices
      have hprev := ih hnodup hdrivers (by omega)
      exact hprev.addDevice hnodup args (by omega)

end Binding

/-- The calls register the drivers and add the devices in their given orders. -/
def Interleaves {Δ : Type} (drivers : List Δ) (devices : List DeviceArgs) (ops : List (AcpiBus.Op Δ)) : Prop :=
  driversOf ops = drivers ∧ devicesOf ops = devices

/-- Any two interleavings bind every device to the same driver, the first that matches and accepts it, with
at most one call of `add` for a driver and a device and none for a bound device. -/
theorem binding_independent {Δ : Type} (ids : Δ → List (List UInt8)) (add : Δ → ℕ → ℤ) (drivers : List Δ)
    (hnodup : drivers.Nodup) (hdrivers : drivers.length ≤ ACPI_MAX_DRIVERS) (devices : List DeviceArgs)
    (hdevices : devices.length ≤ ACPI_MAX_DEVICES) (ops ops' : List (AcpiBus.Op Δ))
    (h : Interleaves drivers devices ops) (h' : Interleaves drivers devices ops') :
    (AcpiBus.run ids add ops).devices.map (·.driver) = (AcpiBus.run ids add ops').devices.map (·.driver) ∧
    (AcpiBus.run ids add ops).devices.map (·.driver) = devices.mapIdx (firstDriver ids add drivers) ∧
    ((AcpiBus.run ids add ops).calls.map fun c => (c.driver,c.device)).Nodup ∧
    ∀ c ∈ (AcpiBus.run ids add ops).calls, c.bound = false := by
  have hsettled : ∀ o, Interleaves drivers devices o → Settled ids add drivers devices (AcpiBus.run ids add o) := by
    rintro o ⟨rfl,rfl⟩
    exact settled_run o hnodup hdrivers hdevices
  have hmap : ∀ o, Interleaves drivers devices o →
      (AcpiBus.run ids add o).devices.map (·.driver) = devices.mapIdx (firstDriver ids add drivers) := by
    intro o ho
    rw [(hsettled o ho).bound]
    exact List.ext_getElem (by simp) (by simp [boundDevice])
  exact ⟨(hmap ops h).trans (hmap ops' h').symm,hmap ops h,(hsettled ops h).once,(hsettled ops h).unbound⟩

/-- Of two drivers for one device the first gets it, whether the device comes before or after them. -/
theorem binding_independent_two :
    [false,true].Nodup ∧
    (AcpiBus.run (fun _ => [[80,78,80]]) (fun _ _ => 0)
      [.addDevice ⟨none,[80,78,80,48],0,0⟩,.registerDriver false,.registerDriver true]).devices.map (·.driver) =
    (AcpiBus.run (fun _ => [[80,78,80]]) (fun _ _ => 0)
      [.registerDriver false,.registerDriver true,.addDevice ⟨none,[80,78,80,48],0,0⟩]).devices.map (·.driver) :=
  ⟨by decide,(binding_independent (fun _ => [[80,78,80]]) (fun _ _ => 0) [false,true] (by decide) (by decide)
    [⟨none,[80,78,80,48],0,0⟩] (by decide) _ _ ⟨rfl,rfl⟩ ⟨rfl,rfl⟩).1⟩

end Linuxab.Acpi
