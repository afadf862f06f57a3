import Mathlib.Data.Vector.Basic
import Mathlib.Data.Int.Basic
import Linuxab.Base.Program

/-! The primitive actions of the network stack. A function of the stack is a program over these
commands that works on one buffer, the `skb` it was given. Addresses are integers; the bytes a
header pointer reaches are read and written by `load` and `store`. -/
namespace Linuxab.Net
open Linuxab.Base

/-- The fields of `struct net_device` the stack reads. `hardStartXmit` tells whether the driver
installed a transmit function. -/
structure NetDevice where
  name : String
  flags : UInt16
  devAddr : List.Vector UInt8 6
  hardStartXmit : Bool
  deriving DecidableEq

def iffRunning : UInt16 := 0x40

def netifRunning (dev : NetDevice) : Bool := dev.flags &&& iffRunning ≠ 0

structure InetSock where
  inetSaddr : UInt32
  inetSport : UInt16
  inetDaddr : UInt32
  inetDport : UInt16
  inetNum : UInt16
  deriving DecidableEq

inductive PacketType
  | host
  | broadcast
  | multicast
  | otherhost
  | outgoing
  | loopback
  deriving DecidableEq

/-- The fields of `struct sk_buff` the stack uses. `nh` is the header pointer of the union. -/
structure SkBuff where
  head : ℤ
  data : ℤ
  tail : ℤ
  bufEnd : ℤ
  len : UInt32
  dev : Option NetDevice
  sk : Option InetSock
  protocol : UInt16
  pktType : PacketType
  nh : ℤ

/-- Places of the source that the statements refer to: the entry of a function, or the point
where a receive function is left with the data for the socket. -/
inductive Place
  | tcpRcv
  | udpRcv
  | icmpRcv
  | devQueueXmit
  | tcpDeliver
  | udpDeliver
  deriving DecidableEq

inductive LogLevel
  | debug
  | warning
  deriving DecidableEq

inductive NetCmd : Type → Type
  /-- Read the fields of the buffer. -/
  | getSkb : NetCmd SkBuff
  /-- Write the fields of the buffer. -/
  | setSkb (skb : SkBuff) : NetCmd Unit
  | skbPull (len : UInt32) : NetCmd Unit
  | load (address : ℤ) (count : ℕ) : NetCmd (List.Vector UInt8 count)
  | store (address : ℤ) (bytes : List UInt8) : NetCmd Unit
  /-- The `ihl` read through the uninitialised pointer of `ip_local_deliver`; `received` is the
  value in the header that was received. -/
  | loadUninit (received : UInt8) : NetCmd UInt8
  | devGetByName (name : String) : NetCmd (Option NetDevice)
  | kmallocPage : NetCmd (Option ℤ)
  | kfreeSkb : NetCmd Unit
  | hardStartXmit (dev : NetDevice) : NetCmd ℤ
  | arpRcv : NetCmd Unit
  | printk (level : LogLevel) (format : String) (args : List ℕ) : NetCmd Unit
  | reach (place : Place) : NetCmd Unit

abbrev NetProg := Program NetCmd

/-- The memory of a machine after storing the bytes from the address on. -/
def writeBytes (mem : ℤ → UInt8) (address : ℤ) (bytes : List UInt8) : ℤ → UInt8 :=
  fun x => if address ≤ x then bytes.getD (x-address).toNat (mem x) else mem x

def readBytes (mem : ℤ → UInt8) (address : ℤ) (count : ℕ) : List UInt8 :=
  (List.range count).map fun (i : ℕ) => mem (address+i)

@[simp] lemma readBytes_length (mem : ℤ → UInt8) (address : ℤ) (count : ℕ) :
    (readBytes mem address count).length = count := by simp [readBytes]

/-- A machine with one buffer in hand. `page` is what `kmalloc_page` returns and `txStatus` what
the driver returns from `hard_start_xmit`. -/
structure Machine where
  mem : ℤ → UInt8
  skb : SkBuff
  devBase : List NetDevice
  page : Option ℤ
  txStatus : ℤ

/-- The bytes of the buffer between `data` and `data + len`. -/
def Machine.frame (m : Machine) : List UInt8 := readBytes m.mem m.skb.data m.skb.len.toNat

/-- How a machine answers the commands. -/
def Machine.handle : {β : Type} → NetCmd β → Machine → β × Machine
  | _,.getSkb,m => (m.skb,m)
  | _,.setSkb skb,m => ((),{ m with skb := skb })
  | _,.skbPull len,m =>
    ((),{ m with skb := { m.skb with len := m.skb.len-len, data := m.skb.data+len.toNat } })
  | _,.load a n,m => (⟨readBytes m.mem a n,readBytes_length m.mem a n⟩,m)
  | _,.store a bytes,m => ((),{ m with mem := writeBytes m.mem a bytes })
  | _,.loadUninit received,m => (received,m)
  | _,.devGetByName name,m => (m.devBase.find? (fun dev => dev.name = name),m)
  | _,.kmallocPage,m => (m.page,m)
  | _,.kfreeSkb,m => ((),m)
  | _,.hardStartXmit _,m => (m.txStatus,m)
  | _,.arpRcv,m => ((),m)
  | _,.printk _ _ _,m => ((),m)
  | _,.reach _,m => ((),m)

/-- The run makes the command in the machine state `s`. -/
def Machine.Makes {α β : Type} (p : NetProg α) (m : Machine) (c : NetCmd β) (s : Machine) : Prop :=
  (s,⟨β,c⟩) ∈ p.visited Machine.handle m

end Linuxab.Net
