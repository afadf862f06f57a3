import Linuxab.Net.Checksum
import Linuxab.Net.Command

/-! The send and receive paths of the network stack: `skbuff.h`, `dev.c`, `eth.c`, `ip_input.c`,
`ip_output.c`, `icmp.c`, `udp.c` and `tcp.c`. Every function works on the buffer in hand. Header
fields are read and written at their byte offsets; multi-byte fields are little-endian in memory. -/
namespace Linuxab.Net
open Linuxab.Base Linuxab.Base.Program

/-- `__builtin_bswap16`, the definition of both `htons` and `ntohs`. -/
def bswap16 (x : UInt16) : UInt16 := UInt16.ofNat (x.toNat % 256*256+x.toNat / 256)
def bswap32 (x : UInt32) : UInt32 :=
  UInt32.ofNat (x.toNat % 256*16777216+x.toNat / 256 % 256*65536+x.toNat / 65536 % 256*256+
    x.toNat / 16777216)
def htons (x : UInt16) : UInt16 := bswap16 x
def ntohs (x : UInt16) : UInt16 := bswap16 x
def ntohl (x : UInt32) : UInt32 := bswap32 x

def bytes16 (x : UInt16) : List UInt8 := [UInt8.ofNat x.toNat,UInt8.ofNat (x.toNat / 256)]
def bytes32 (x : UInt32) : List UInt8 :=
  [UInt8.ofNat x.toNat,UInt8.ofNat (x.toNat / 256),UInt8.ofNat (x.toNat / 65536),
    UInt8.ofNat (x.toNat / 16777216)]

/-- Bit fields of four bits each. -/
def lowNibble (b : UInt8) : UInt8 := UInt8.ofNat (b.toNat % 16)
def highNibble (b : UInt8) : UInt8 := UInt8.ofNat (b.toNat / 16)
def setLowNibble (b v : UInt8) : UInt8 := UInt8.ofNat (b.toNat / 16*16+v.toNat)
def setHighNibble (b v : UInt8) : UInt8 := UInt8.ofNat (v.toNat*16+b.toNat % 16)

section Access

def getSkb : NetProg SkBuff := perform .getSkb
def setSkb (skb : SkBuff) : NetProg Unit := perform (.setSkb skb)
def store (address : ℤ) (bytes : List UInt8) : NetProg Unit := perform (.store address bytes)
def kfreeSkb : NetProg Unit := perform .kfreeSkb
def reach (place : Place) : NetProg Unit := perform (.reach place)
def printk (level : LogLevel) (format : String) (args : List ℕ) : NetProg Unit :=
  perform (.printk level format args)

def load (address : ℤ) (count : ℕ) : NetProg (List UInt8) := do
  let v ← perform (.load address count)
  return v.toList

def load8 (address : ℤ) : NetProg UInt8 := do
  let v ← perform (.load address 1)
  return v.get 0

def load16 (address : ℤ) : NetProg UInt16 := do
  let v ← perform (.load address 2)
  return UInt16.ofNat (le16 (v.get 0) (v.get 1))

def load32 (address : ℤ) : NetProg UInt32 := do
  let v ← perform (.load address 4)
  return UInt32.ofNat (le32 (v.get 0) (v.get 1) (v.get 2) (v.get 3))

end Access

/-! ### `skbuff.h` and `skbuff.c` -/

def skbPut (len : UInt32) : NetProg ℤ := do
  let skb ← getSkb
  setSkb { skb with tail := skb.tail+len.toNat, len := skb.len+len }
  return skb.tail

def skbPush (len : UInt32) : NetProg ℤ := do
  let skb ← getSkb
  setSkb { skb with data := skb.data-len.toNat, len := skb.len+len }
  return skb.data-len.toNat

def skbPull (len : UInt32) : NetProg Unit := perform (.skbPull len)

def skbReserve (len : ℤ) : NetProg Unit := do
  let skb ← getSkb
  setSkb { skb with data := skb.data+len, tail := skb.tail+len }

/-- `SKB_DATA_ALIGN(sizeof(struct sk_buff))`: the structure has 136 bytes. -/
def skbHeaderSize : ℤ := 192

/-- Allocate a page for the buffer structure and its data; `false` is a NULL result. -/
def allocSkb (size : UInt32) : NetProg Bool := do
  match ← perform .kmallocPage with
  | none => return false
  | some skb =>
    let data := skb+skbHeaderSize
    setSkb
      { head := data, data := data, tail := data, bufEnd := data+size.toNat, len := 0, dev := none,
        sk := none, protocol := 0, pktType := .host, nh := 0 }
    return true

/-! ### `dev.c`, transmission -/

def devQueueXmit : NetProg ℤ := do
  reach .devQueueXmit
  let skb ← getSkb
  match skb.dev with
  | none =>
    kfreeSkb
    return -1
  | some dev =>
    if !netifRunning dev then
      kfreeSkb
      return -1
    else if !dev.hardStartXmit then
      kfreeSkb
      return -1
    else perform (.hardStartXmit dev)

/-! ### `ip_output.c` -/

def ipOutput : NetProg ℤ := do
  let skb ← getSkb
  let iph := skb.nh
  match ← perform (.devGetByName "eth0") with
  | none =>
    kfreeSkb
    return -1
  | some dev =>
    let skb ← getSkb
    setSkb { skb with dev := some dev }
    let ttl ← load8 (iph+8)
    store (iph+8) [ttl-1]
    let ttl ← load8 (iph+8)
    if ttl ≤ 0 then
      kfreeSkb
      return -1
    else
      store (iph+10) (bytes16 0)
      let ihl ← load8 iph
      let header ← load iph (4*(lowNibble ihl).toNat)
      store (iph+10) (bytes16 (ipFastCsum header))
      let _ ← skbPush 14
      let skb ← getSkb
      setSkb { skb with protocol := htons 0x0800 }
      devQueueXmit

def ipBuildAndSendPkt (saddr daddr : UInt32) : NetProg ℤ := do
  let _ ← skbPush 20
  let skb ← getSkb
  setSkb { skb with nh := skb.data }
  let iph := skb.data
  let b ← load8 iph
  store iph [setHighNibble b 4]
  let b ← load8 iph
  store iph [setLowNibble b 5]
  store (iph+1) [0]
  let skb ← getSkb
  store (iph+2) (bytes16 (htons (UInt16.ofNat skb.len.toNat)))
  store (iph+4) (bytes16 0)
  store (iph+6) (bytes16 (htons 0x4000))
  store (iph+8) [64]
  let skb ← getSkb
  store (iph+9) [match skb.sk with | some inet => UInt8.ofNat inet.inetNum.toNat | none => 0]
  store (iph+10) (bytes16 0)
  store (iph+12) (bytes32 saddr)
  store (iph+16) (bytes32 daddr)
  let ihl ← load8 iph
  let header ← load iph (4*(lowNibble ihl).toNat)
  store (iph+10) (bytes16 (ipFastCsum header))
  ipOutput

/-! ### `udp.c` and `tcp.c`, transmission -/

/-- `payload` is what the first `iovec` of the message points to. -/
def udpSendmsg (inet : InetSock) (payload : List UInt8) (size : UInt64) : NetProg ℤ := do
  if ← allocSkb (UInt32.ofNat (size.toNat+128)) then
    skbReserve 128
    let tail ← skbPut (UInt32.ofNat payload.length)
    store tail payload
    let uh ← skbPush 8
    store uh (bytes16 inet.inetSport)
    store (uh+2) (bytes16 inet.inetDport)
    let skb ← getSkb
    store (uh+4) (bytes16 (htons (UInt16.ofNat skb.len.toNat)))
    store (uh+6) (bytes16 0)
    ipBuildAndSendPkt inet.inetSaddr inet.inetDaddr
  else return -1

def tcpSendmsg (inet : InetSock) (payload : List UInt8) (size : UInt64) : NetProg ℤ := do
  if ← allocSkb (UInt32.ofNat (size.toNat+128)) then
    skbReserve 128
    let tail ← skbPut (UInt32.ofNat payload.length)
    store tail payload
    let th ← skbPush 20
    let skb ← getSkb
    setSkb { skb with nh := skb.data }
    store th (List.replicate 20 0)
    store th (bytes16 inet.inetSport)
    store (th+2) (bytes16 inet.inetDport)
    store (th+4) (bytes32 0)
    store (th+8) (bytes32 0)
    let b ← load8 (th+12)
    store (th+12) [setHighNibble b 5]
    let b ← load8 (th+13)
    store (th+13) [b ||| 8]
    let b ← load8 (th+13)
    store (th+13) [b ||| 16]
    store (th+14) (bytes16 (htons 65535))
    store (th+16) (bytes16 0)
    ipBuildAndSendPkt inet.inetSaddr inet.inetDaddr
  else return -1

/-! ### `tcp.c`, `udp.c` and `icmp.c`, reception -/

/-- The character printed for a flag bit. -/
def flagChar (flags mask : UInt8) (c : Char) : ℕ := (if flags &&& mask ≠ 0 then c else '.').toNat

def tcpRcv : NetProg ℤ := do
  reach .tcpRcv
  let skb ← getSkb
  let th := skb.data
  let doff ← load8 (th+12)
  let thlen := (highNibble doff).toNat*4
  let source ← load16 th
  let dest ← load16 (th+2)
  let seq ← load32 (th+4)
  let ackSeq ← load32 (th+8)
  let flags ← load8 (th+13)
  printk .debug "tcp_rcv: sport=%d dport=%d seq=%u ack=%u flags=%c%c%c\n"
    [(ntohs source).toNat,(ntohs dest).toNat,(ntohl seq).toNat,(ntohl ackSeq).toNat,
      flagChar flags 2 'S',flagChar flags 16 'A',flagChar flags 1 'F']
  skbPull (UInt32.ofNat thlen)
  reach .tcpDeliver
  kfreeSkb
  return 0

def udpRcv : NetProg ℤ := do
  reach .udpRcv
  let skb ← getSkb
  let uh := skb.data
  let len ← load16 (uh+4)
  let source ← load16 uh
  let dest ← load16 (uh+2)
  printk .debug "udp_rcv: sport=%d dport=%d len=%d\n"
    [(ntohs source).toNat,(ntohs dest).toNat,(ntohs len).toNat]
  skbPull 8
  reach .udpDeliver
  kfreeSkb
  return 0

/-- The `int` argument of `ip_compute_csum` is negative from `2^31` on, and then nothing is
summed. -/
def csumLength (len : UInt32) : ℕ := if len.toNat < 2^31 then len.toNat else 0

def icmpRcv : NetProg ℤ := do
  reach .icmpRcv
  let skb ← getSkb
  let icmph := skb.data
  let type ← load8 icmph
  let code ← load8 (icmph+1)
  printk .debug "icmp_rcv: type=%d code=%d\n" [type.toNat,code.toNat]
  let type ← load8 icmph
  if type = 8 then
    let skb ← getSkb
    let ihl ← load8 skb.nh
    let iph := skb.data-20-4*(lowNibble ihl).toNat
    let tmp ← load32 (iph+16)
    let saddr ← load32 (iph+12)
    store (iph+16) (bytes32 saddr)
    store (iph+12) (bytes32 tmp)
    store icmph [0]
    store (icmph+2) (bytes16 0)
    let skb ← getSkb
    let message ← load icmph (csumLength skb.len)
    store (icmph+2) (bytes16 (ipComputeCsum message))
    let skb ← getSkb
    setSkb { skb with pktType := .outgoing }
    let _ ← ipOutput
    return 0
  else
    kfreeSkb
    return 0

/-! ### `ip_input.c` -/

/-- `received` is the `ihl` of the header that `ip_rcv` has just pulled. -/
def ipLocalDeliver (received : UInt8) : NetProg ℤ := do
  let ihl ← perform (.loadUninit received)
  let skb ← getSkb
  let iph := skb.data-4*ihl.toNat
  let protocol ← load8 (iph+9)
  if protocol = 6 then tcpRcv
  else if protocol = 17 then udpRcv
  else if protocol = 1 then icmpRcv
  else
    printk .debug "IP: unknown protocol %d\n" [protocol.toNat]
    kfreeSkb
    return -1

def ipRcv : NetProg ℤ := do
  let skb ← getSkb
  let iph := skb.data
  let version ← load8 iph
  if highNibble version ≠ 4 then
    kfreeSkb
    return -1
  else
    let ihl ← load8 iph
    if lowNibble ihl < 5 then
      kfreeSkb
      return -1
    else
      let totLen ← load16 (iph+2)
      let len := (ntohs totLen).toNat
      let skb ← getSkb
      if skb.len.toNat < len then
        kfreeSkb
        return -1
      else
        let ihl ← load8 iph
        let header ← load iph (4*(lowNibble ihl).toNat)
        if ipComputeCsum header ≠ 0 then
          printk .warning "IP checksum failed from %pI4\n" []
        let protocol ← load8 (iph+9)
        printk .debug "ip_rcv: %pI4 -> %pI4, proto=%d, len=%d\n" [protocol.toNat,len]
        let ihl ← load8 iph
        skbPull (UInt32.ofNat (4*(lowNibble ihl).toNat))
        ipLocalDeliver (lowNibble ihl)

/-! ### `eth.c` and `dev.c`, reception -/

/-- The comparisons of the destination address in `eth_type_trans`. -/
def ethPacketType (dest : List UInt8) (dev : Option NetDevice) : PacketType :=
  if some dest = dev.map (fun d => d.devAddr.toList) then .host
  else if dest = List.replicate 6 0xff then .broadcast
  else .otherhost

def ethTypeTrans (dev : Option NetDevice) : NetProg UInt16 := do
  let skb ← getSkb
  let eth := skb.data
  setSkb { skb with dev := dev }
  let proto ← load16 (eth+12)
  let skb ← getSkb
  setSkb { skb with protocol := proto }
  let dest ← load eth 6
  let skb ← getSkb
  setSkb { skb with pktType := ethPacketType dest dev }
  skbPull 14
  let skb ← getSkb
  return skb.protocol

def ethRcv : NetProg Unit := do
  let skb ← getSkb
  let proto ← ethTypeTrans skb.dev
  if ntohs proto = 0x0800 then
    let _ ← ipRcv
    return ()
  else if ntohs proto = 0x0806 then
    printk .debug "eth_rcv: ARP packet\n" []
    kfreeSkb
  else
    printk .debug "eth_rcv: unknown proto 0x%04x\n" [(ntohs proto).toNat]
    kfreeSkb

def netifRx : NetProg Unit := do
  let skb ← getSkb
  if skb.protocol = htons 0x0800 then
    let _ ← ipRcv
    return ()
  else
    let skb ← getSkb
    if skb.protocol = htons 0x0806 then perform .arpRcv
    else kfreeSkb

end Linuxab.Net
