import Mathlib.Data.Int.Notation
import Mathlib.Data.Nat.Notation
import Mathlib.Logic.Basic
import Mathlib.Logic.Function.Basic
import Mathlib.Tactic.SplitIfs

/-! Creation and release of sockets: net/socket_core.c with the create functions of net/af_inet.c and
net/af_netlink.c. Pages are numbered by the calls of `kmalloc_page` that returned them. -/
namespace Linuxab.Net.Sockets

def AF_INET : ℤ := 2
def AF_NETLINK : ℤ := 16
def AF_MAX : ℤ := 32
def SOCK_STREAM : UInt16 := 1
def SOCK_DGRAM : UInt16 := 2
def IPPROTO_TCP : ℤ := 6
def IPPROTO_UDP : ℤ := 17

inductive SockState
  | free
  | unconnected
  | connecting
  | connected
  | disconnecting
  deriving DecidableEq, Repr

/-- The tables `inet_stream_ops`, `inet_dgram_ops` and `netlink_ops`. -/
inductive ProtoOps
  | inetStream
  | inetDgram
  | netlink
  deriving DecidableEq, Repr

structure Socket where
  state : SockState
  type : UInt16
  family : UInt16
  refcnt : Int32
  sk : Option ℕ
  ops : Option ProtoOps

structure InetSock where
  skSocket : Option ℕ
  ucTtl : Int32

structure NetlinkSock where
  portid : UInt32
  protocol : UInt32

/-- What `kmalloc_page` will answer, the pages it has given out and those that were given back, and the
contents of the pages under their three uses. -/
structure SockKernel where
  grants : ℕ → Bool
  asked : ℕ
  obtained : List ℕ
  freed : List ℕ
  sockets : ℕ → Socket
  inetSocks : ℕ → InetSock
  netlinkSocks : ℕ → NetlinkSock

namespace SockKernel

def kmallocPage (k : SockKernel) : Option ℕ × SockKernel :=
  if k.grants k.asked then (some k.asked,{ k with asked := k.asked+1, obtained := k.asked::k.obtained })
  else (none,{ k with asked := k.asked+1 })

def kfreePage (k : SockKernel) (page : ℕ) : SockKernel := { k with freed := page::k.freed }

def setSocket (k : SockKernel) (sock : ℕ) (f : Socket → Socket) : SockKernel :=
  { k with sockets := Function.update k.sockets sock (f (k.sockets sock)) }

def sockAlloc (k : SockKernel) : Option ℕ × SockKernel :=
  match k.kmallocPage with
  | (none,k) => (none,k)
  | (some sock,k) => (some sock,k.setSocket sock fun s => { s with state := .free, refcnt := 1, sk := none })

/-- What `sock->sk` points to is not freed: that is a comment in the source. -/
def sockFree (k : SockKernel) (sock : ℕ) : SockKernel := k.kfreePage sock

/-- The end of `inet_create`, with the operations that the type has selected. -/
def inetAttach (k : SockKernel) (sock inet : ℕ) (ops : ProtoOps) : SockKernel :=
  { k with inetSocks := Function.update k.inetSocks inet ⟨some sock,64⟩ }.setSocket sock fun s =>
    { s with ops := some ops, sk := some inet }

def inetCreate (k : SockKernel) (sock : ℕ) (protocol : ℤ) : ℤ × SockKernel :=
  match k.kmallocPage with
  | (none,k) => (-1,k)
  | (some inet,k) =>
    let k := { k with inetSocks := Function.update k.inetSocks inet ⟨none,0⟩ }
    if (k.sockets sock).type = SOCK_STREAM then
      if protocol ≠ 0 ∧ protocol ≠ IPPROTO_TCP then (-1,k) else (0,k.inetAttach sock inet .inetStream)
    else if (k.sockets sock).type = SOCK_DGRAM then
      if protocol ≠ 0 ∧ protocol ≠ IPPROTO_UDP then (-1,k) else (0,k.inetAttach sock inet .inetDgram)
    else (-1,k)

def netlinkCreate (k : SockKernel) (sock : ℕ) (protocol : ℤ) : ℤ × SockKernel :=
  match k.kmallocPage with
  | (none,k) => (-1,k)
  | (some nlk,k) =>
    (0,{ k with netlinkSocks := Function.update k.netlinkSocks nlk ⟨0,UInt32.ofInt protocol⟩ }.setSocket sock fun s =>
      { s with ops := some .netlink, sk := some nlk })

def familyCreate (k : SockKernel) (family : ℤ) (sock : ℕ) (protocol : ℤ) : ℤ × SockKernel :=
  if family = AF_INET then k.inetCreate sock protocol
  else if family = AF_NETLINK then k.netlinkCreate sock protocol
  else (-1,k)

/-- The return value, `*res` and the kernel afterwards. -/
def sockCreate (k : SockKernel) (family type protocol : ℤ) (res : Option ℕ) : ℤ × Option ℕ × SockKernel :=
  if family < 0 ∨ family ≥ AF_MAX then (-1,res,k)
  else
    match k.sockAlloc with
    | (none,k) => (-1,res,k)
    | (some sock,k) =>
      let k := k.setSocket sock fun s => { s with family := UInt16.ofInt family, type := UInt16.ofInt type }
      let r := k.familyCreate family sock protocol
      if r.1 < 0 then (r.1,res,r.2.sockFree sock)
      else (0,some sock,r.2.setSocket sock fun s => { s with state := .unconnected })

/-- No table has a `shutdown`. -/
def shutdown : ProtoOps → Option (SockKernel → ℕ → SockKernel)
  | _ => none

def sockRelease (k : SockKernel) : Option ℕ → ℤ × SockKernel
  | none => (0,k)
  | some sock =>
    let k := match (k.sockets sock).ops.bind shutdown with
      | some f => f k sock
      | none => k
    let k := k.setSocket sock fun s => { s with state := .disconnecting, refcnt := s.refcnt-1 }
    if (k.sockets sock).refcnt = 0 then (0,k.sockFree sock) else (0,k)

/-- Before any page has been asked for. -/
def boot (grants : ℕ → Bool) (sockets : ℕ → Socket) (inetSocks : ℕ → InetSock)
    (netlinkSocks : ℕ → NetlinkSock) : SockKernel :=
  ⟨grants,0,[],[],sockets,inetSocks,netlinkSocks⟩

def AllFreed (k : SockKernel) : Prop := ∀ page ∈ k.obtained, page ∈ k.freed

section Pages
variable (k : SockKernel) (sock : ℕ) (f : Socket → Socket)

@[simp] theorem setSocket_grants : (k.setSocket sock f).grants = k.grants := rfl
@[simp] theorem setSocket_asked : (k.setSocket sock f).asked = k.asked := rfl
@[simp] theorem setSocket_obtained : (k.setSocket sock f).obtained = k.obtained := rfl
@[simp] theorem setSocket_freed : (k.setSocket sock f).freed = k.freed := rfl

@[simp] theorem setSocket_self : (k.setSocket sock f).sockets sock = f (k.sockets sock) := by
  simp [setSocket]

end Pages

/-- What a create function does with the page it asks for: it keeps the page in every case, and never
succeeds without one. -/
structure Created (k : SockKernel) (sock : ℕ) (page : Prop) (r : ℤ × SockKernel) : Prop where
  ret : r.1 = 0 ∨ r.1 = -1
  freed : r.2.freed = k.freed
  refcnt : (r.2.sockets sock).refcnt = (k.sockets sock).refcnt
  granted : page → r.2.obtained = k.asked::k.obtained
  denied : ¬page → r.1 = -1 ∧ r.2.obtained = k.obtained

variable (k : SockKernel) (sock : ℕ) (protocol : ℤ)

theorem inetCreate_created : Created k sock (k.grants k.asked = true) (k.inetCreate sock protocol) := by
  by_cases hg : k.grants k.asked = true
  · simp only [inetCreate,kmallocPage,hg,if_true]
    split_ifs
    all_goals exact ⟨by simp,rfl,by simp [inetAttach],fun _ => rfl,fun h => absurd trivial h⟩
  · simp only [inetCreate,kmallocPage,hg]
    exact ⟨.inr rfl,rfl,rfl,fun h => absurd h (by simp),fun _ => ⟨rfl,rfl⟩⟩

theorem netlinkCreate_created : Created k sock (k.grants k.asked = true) (k.netlinkCreate sock protocol) := by
  by_cases hg : k.grants k.asked = true
  · simp only [netlinkCreate,kmallocPage,hg,if_true]
    exact ⟨.inl rfl,rfl,by simp,fun _ => rfl,fun h => absurd trivial h⟩
  · simp only [netlinkCreate,kmallocPage,hg]
    exact ⟨.inr rfl,rfl,rfl,fun h => absurd h (by simp),fun _ => ⟨rfl,rfl⟩⟩

theorem familyCreate_created (family : ℤ) :
    Created k sock ((family = AF_INET ∨ family = AF_NETLINK) ∧ k.grants k.asked = true)
      (k.familyCreate family sock protocol) := by
  rw [familyCreate]
  by_cases hinet : family = AF_INET
  · simpa [hinet] using inetCreate_created k sock protocol
  · by_cases hnetlink : family = AF_NETLINK
    · rw [if_neg hinet,if_pos hnetlink]
      simpa [hnetlink] using netlinkCreate_created k sock protocol
    · rw [if_neg hinet,if_neg hnetlink]
      exact ⟨.inr rfl,rfl,rfl,fun h => absurd h.1 (by simp [hinet,hnetlink]),fun _ => ⟨rfl,rfl⟩⟩

variable {k sock}

theorem AllFreed.of_nil (h : k.obtained = []) : k.AllFreed := by
  simp [AllFreed,h]

/-- Releasing the last reference frees the socket's page and no other. -/
theorem sockRelease_of_refcnt_one (h : (k.sockets sock).refcnt = 1) :
    (k.sockRelease (some sock)).2.obtained = k.obtained ∧ (k.sockRelease (some sock)).2.freed = sock::k.freed := by
  have hops : (k.sockets sock).ops.bind shutdown = none := by cases (k.sockets sock).ops <;> rfl
  simp [sockRelease,hops,h,sockFree,kfreePage]

end SockKernel

/-- Of an outcome of `sock_create`, that a failure has freed the pages and left `*res` alone, and that after
a success `sock_release` frees them. -/
structure Conserved (res : Option ℕ) (r : ℤ × Option ℕ × SockKernel) : Prop where
  failed : r.1 < 0 → r.2.2.AllFreed ∧ r.2.1 = res
  released : r.1 = 0 → ∃ sock, r.2.1 = some sock ∧ (r.2.2.sockets sock).refcnt = 1 ∧
    (r.2.2.sockRelease (some sock)).2.AllFreed

section Conservation
open SockKernel
variable {res : Option ℕ} {k : SockKernel}

theorem conserved_failure : Conserved res (-1,res,k) ↔ k.AllFreed :=
  ⟨fun h => (h.failed (show (-1 : ℤ) < 0 by decide)).1,fun h => ⟨fun _ => ⟨h,rfl⟩,nofun⟩⟩

theorem conserved_success {sock : ℕ} (href : (k.sockets sock).refcnt = 1) :
    Conserved res (0,some sock,k) ↔ ∀ page ∈ k.obtained, page ∈ sock::k.freed := by
  obtain ⟨hob,hfr⟩ := sockRelease_of_refcnt_one href
  have hall : (k.sockRelease (some sock)).2.AllFreed ↔ ∀ page ∈ k.obtained, page ∈ sock::k.freed := by
    rw [AllFreed,hob,hfr]
  rw [← hall]
  constructor
  · intro h
    obtain ⟨_,hs,-,hfreed⟩ := h.released rfl
    cases hs
    exact hfreed
  · exact fun h => ⟨nofun,fun _ => ⟨sock,rfl,href,h⟩⟩

variable (grants : ℕ → Bool) (sockets : ℕ → Socket) (inetSocks : ℕ → InetSock)
  (netlinkSocks : ℕ → NetlinkSock) (family type protocol : ℤ) (res : Option ℕ)

/-- With a socket in page 0, the outcome is that of the create function of the family. -/
theorem sockCreate_boot (hrange : ¬(family < 0 ∨ family ≥ AF_MAX)) (hg : grants 0 = true) :
    ∃ k : SockKernel, k.grants = grants ∧ k.asked = 1 ∧ k.obtained = [0] ∧ k.freed = [] ∧
      (k.sockets 0).refcnt = 1 ∧
      (boot grants sockets inetSocks netlinkSocks).sockCreate family type protocol res =
        if (k.familyCreate family 0 protocol).1 < 0 then
          ((k.familyCreate family 0 protocol).1,res,(k.familyCreate family 0 protocol).2.sockFree 0)
        else (0,some 0,(k.familyCreate family 0 protocol).2.setSocket 0 fun s => { s with state := .unconnected }) := by
  rw [sockCreate,if_neg hrange]
  simp only [sockAlloc,kmallocPage,boot,hg,if_true]
  exact ⟨_,rfl,rfl,rfl,rfl,by simp,rfl⟩

/-- In that case the pages are conserved exactly if page 0 stays the only one. -/
theorem conserved_of_granted (hrange : ¬(family < 0 ∨ family ≥ AF_MAX)) (hg : grants 0 = true) :
    Conserved res ((boot grants sockets inetSocks netlinkSocks).sockCreate family type protocol res) ↔
      ¬((family = AF_INET ∨ family = AF_NETLINK) ∧ grants 1 = true) := by
  obtain ⟨k,hgr,hask,hob,hfr,href,hcreate⟩ :=
    sockCreate_boot grants sockets inetSocks netlinkSocks family type protocol res hrange hg
  have hc := familyCreate_created k 0 protocol family
  rw [hgr,hask] at hc
  rw [hcreate]
  by_cases hpage : (family = AF_INET ∨ family = AF_NETLINK) ∧ grants 1 = true
  · -- page 1 is on the list of obtained pages, but only page 0 is ever freed
    refine iff_of_false ?_ (not_not.mpr hpage)
    have hpages := hc.granted hpage
    rw [hask,hob] at hpages
    obtain hret | hret := hc.ret
    · rw [hret,if_neg (by decide),conserved_success (by simpa [hc.refcnt] using href)]
      simp [hpages,hc.freed,hfr]
    · rw [hret,if_pos (by decide),conserved_failure]
      simp [AllFreed,sockFree,kfreePage,hpages,hc.freed,hfr]
  · obtain ⟨hret,hpages⟩ := hc.denied hpage
    refine iff_of_true ?_ hpage
    rw [hret,if_pos (by decide),conserved_failure]
    simp [AllFreed,sockFree,kfreePage,hpages,hob]

/-- Pages are conserved exactly if no second page was obtained: the page of the protocol's own socket is
never freed, neither by a create function that fails behind it nor by `sock_free`. -/
theorem sock_create_conserves_iff :
    Conserved res ((boot grants sockets inetSocks netlinkSocks).sockCreate family type protocol res) ↔
      ¬((family = AF_INET ∨ family = AF_NETLINK) ∧ grants 0 = true ∧ grants 1 = true) := by
  by_cases hrange : family < 0 ∨ family ≥ AF_MAX
  · refine iff_of_true ?_ ?_
    · rw [sockCreate,if_pos hrange,conserved_failure]
      exact .of_nil rfl
    · rintro ⟨rfl | rfl,-⟩ <;> exact absurd hrange (by decide)
  by_cases hg : grants 0 = true
  · rw [conserved_of_granted grants sockets inetSocks netlinkSocks family type protocol res hrange hg]
    simp [hg]
  · refine iff_of_true ?_ (by simp [hg])
    rw [sockCreate,if_neg hrange]
    simp only [sockAlloc,kmallocPage,boot,hg]
    exact conserved_failure.mpr (.of_nil rfl)

end Conservation

/-- Memory in which no allocation fails. -/
def plenty : SockKernel :=
  .boot (fun _ => true) (fun _ => ⟨.free,0,0,0,none,none⟩) (fun _ => ⟨none,0⟩) (fun _ => ⟨0,0⟩)

/-- A TCP socket with the protocol of UDP: the call fails and the page of the `inet_sock` stays allocated.
With its own protocol the socket is released, and the page stays allocated too. -/
theorem sock_create_leaks :
    (plenty.sockCreate AF_INET 1 IPPROTO_UDP none).1 = -1 ∧
    (plenty.sockCreate AF_INET 1 IPPROTO_UDP none).2.2.obtained = [1,0] ∧
    (plenty.sockCreate AF_INET 1 IPPROTO_UDP none).2.2.freed = [0] ∧
    (plenty.sockCreate AF_INET 1 IPPROTO_TCP none).1 = 0 ∧
    ((plenty.sockCreate AF_INET 1 IPPROTO_TCP none).2.2.sockRelease (some 0)).2.obtained = [1,0] ∧
    ((plenty.sockCreate AF_INET 1 IPPROTO_TCP none).2.2.sockRelease (some 0)).2.freed = [0] ∧
    ¬Conserved none (plenty.sockCreate AF_INET 1 IPPROTO_UDP none) := by
  refine ⟨by decide,by decide,by decide,by decide,by decide,by decide,fun h => ?_⟩
  exact absurd ((h.failed (by decide)).1 1 (by decide)) (by decide)

end Linuxab.Net.Sockets
