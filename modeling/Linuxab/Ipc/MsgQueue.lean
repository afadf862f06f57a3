import Mathlib.Data.Int.Notation
import Mathlib.Data.List.Basic
import Mathlib.Logic.Function.Basic

/-! A System V message queue of msg.c: senders that wait for room, receivers that wait for a message of some type,
and what is done under the lock of the queue. Tasks are of any type; a task is outside of the queue's functions or
in one of the two calls of schedule(), and everything between two such points is one step. -/
namespace Linuxab.Ipc

/-- `SEARCH_…`. -/
inductive Search
  | any | equal | notequal | lessequal | number
deriving DecidableEq

inductive Errno
  | einval | eacces | eidrm | eagain | e2big | enomsg | erestartnohand
deriving DecidableEq

/-- `struct msg_msg`; `text` stands for what its segments hold. -/
structure Msg (μ : Type) where
  mType : ℤ
  mTs : ℕ
  text : μ

/-- `struct msg_receiver` without `r_msg`, which is kept for each task. -/
structure Receiver (τ : Type) where
  rTsk : τ
  rMode : Search
  rMsgtype : ℤ
  rMaxsize : ℕ

/-- `struct msg_sender`. -/
structure Sender (τ : Type) where
  tsk : τ
  msgsz : ℕ

/-- `struct msg_queue`; `deleted` is what `ipc_valid_object` asks for. -/
structure MsgQueue (τ μ : Type) where
  qCbytes : ℕ
  qQnum : ℕ
  qQbytes : ℕ
  qMessages : List (Msg μ)
  qReceivers : List (Receiver τ)
  qSenders : List (Sender τ)
  deleted : Bool

/-- The flags of a call. -/
structure MsgFlags where
  nowait : Bool
  noerror : Bool
  except : Bool
  copy : Bool

/-- The locals of `do_msgrcv` after `convert_mode`. -/
structure RcvArgs where
  bufsz : ℕ
  msgtyp : ℤ
  mode : Search
  flags : MsgFlags

/-- Where a task is. A receiver that is `awake` has seen -EAGAIN and has not got the lock yet; one that is `again`
has left the list and is at the top of the loop without the lock. -/
inductive Task (μ : Type)
  | idle
  | snd (m : Msg μ)
  | rcv (awake : Bool) (a : RcvArgs)
  | again (a : RcvArgs)

/-- What a call returns; `got` and `copied` carry the message with the bytes that are stored of it. -/
inductive Ret (μ : Type)
  | sent
  | got (m : Msg μ) (n : ℕ)
  | copied (m : Msg μ) (n : ℕ)
  | err (e : Errno)

/-- What a step does to messages. -/
inductive Event (τ μ : Type)
  | accept (m : Msg μ)
  | hand (t : τ) (m : Msg μ)
  | drop (m : Msg μ)
  | ret (t : τ) (r : Ret μ)

/-- The queue, `r_msg` of every receiver, the tasks that `wake_up_q` was called for since they went to sleep. -/
structure MsgSystem (τ μ : Type) where
  queue : MsgQueue τ μ
  rMsg : τ → Except Errno (Msg μ)
  woken : τ → Bool
  task : τ → Task μ

section Source
variable {τ μ : Type} [DecidableEq τ]

def msgFitsInqueue (q : MsgQueue τ μ) (msgsz : ℕ) : Bool :=
  decide (msgsz + q.qCbytes ≤ q.qQbytes) && decide (1 + q.qQnum ≤ q.qQbytes)

def testmsg (m : Msg μ) (type : ℤ) : Search → Bool
  | .any | .number => true
  | .lessequal => decide (m.mType ≤ type)
  | .equal => decide (m.mType = type)
  | .notequal => decide (m.mType ≠ type)

/-- The receiver is tested against a message, with the answer of `security_msg_queue_msgrcv`. -/
def suits (deny : τ → Msg μ → Bool) (m : Msg μ) (t : τ) (type : ℤ) (mode : Search) : Bool :=
  testmsg m type mode && !deny t m

/-- `convert_mode`, which also changes the type. -/
def convertMode (msgtyp : ℤ) (flags : MsgFlags) : ℤ × Search :=
  if flags.copy then (msgtyp,.number)
  else if msgtyp = 0 then (msgtyp,.any)
  else if msgtyp < 0 then (if msgtyp = -9223372036854775808 then 9223372036854775807 else -msgtyp,.lessequal)
  else (msgtyp,if flags.except then .notequal else .equal)

/-- The loop of `ss_wakeup` without `kill`: `left` are the senders before the current one. A sender whose message
does not fit is moved to the tail; the next one was read before. -/
def ssWakeupLoop (q : MsgQueue τ μ) :
    ℕ → Option τ → List (Sender τ) → List (Sender τ) → (τ → Bool) → Option (List (Sender τ) × (τ → Bool))
  | 0,_,_,_,_ => none
  | _ + 1,_,left,[],w => some (left,w)
  | n + 1,stop,left,mss::rest,w =>
    if stop = some mss.tsk then some (left ++ mss::rest,w)
    else if !msgFitsInqueue q mss.msgsz then
      if rest.isEmpty then some (left ++ [mss],w)
      else ssWakeupLoop q n (stop.or (some mss.tsk)) left (rest ++ [mss]) w
    else ssWakeupLoop q n stop (left ++ [mss]) rest (Function.update w mss.tsk true)

def MsgSystem.setSenders (s : MsgSystem τ μ) (l : List (Sender τ)) : MsgSystem τ μ := { s with queue.qSenders := l }

def MsgSystem.setReceivers (s : MsgSystem τ μ) (l : List (Receiver τ)) : MsgSystem τ μ :=
  { s with queue.qReceivers := l }

def ssWakeup (s : MsgSystem τ μ) : Option (MsgSystem τ μ) :=
  (ssWakeupLoop s.queue (s.queue.qSenders.length + 1) none [] s.queue.qSenders s.woken).map fun r =>
    { s.setSenders r.1 with woken := r.2 }

/-- `expunge_all`. -/
def expungeAll (res : Errno) (s : MsgSystem τ μ) : MsgSystem τ μ :=
  { s with
    rMsg := fun t => if t ∈ s.queue.qReceivers.map Receiver.rTsk then .error res else s.rMsg t
    woken := fun t => s.woken t || decide (t ∈ s.queue.qReceivers.map Receiver.rTsk) }

/-- A receiver is told a result and woken. -/
def answer (t : τ) (r : Except Errno (Msg μ)) (s : MsgSystem τ μ) : MsgSystem τ μ :=
  { s with rMsg := Function.update s.rMsg t r, woken := Function.update s.woken t true }

variable (deny : τ → Msg μ → Bool)

/-- The loop of `pipelined_send`: the receivers that stay, and the one that gets the message. -/
def pipelinedSend (m : Msg μ) :
    List (Receiver τ) → MsgSystem τ μ → List (Receiver τ) × Option τ × MsgSystem τ μ
  | [],s => ([],none,s)
  | msr::rest,s =>
    if suits deny m msr.rTsk msr.rMsgtype msr.rMode then
      if msr.rMaxsize < m.mTs then pipelinedSend m rest (answer msr.rTsk (.error .e2big) s)
      else (rest,some msr.rTsk,answer msr.rTsk (.ok m) s)
    else
      let r := pipelinedSend m rest s
      (msr::r.1,r.2)

/-- The loop of `find_msg`, with the position of the message it has come to. -/
def findMsgLoop (t : τ) (mode : Search) : ℕ → ℤ → ℤ → Option ℕ → List (Msg μ) → Option ℕ
  | _,_,_,found,[] => found
  | i,count,msgtyp,found,m::ms =>
    if suits deny m t msgtyp mode then
      if mode = .lessequal ∧ m.mType ≠ 1 then findMsgLoop t mode (i + 1) (count + 1) (m.mType - 1) (some i) ms
      else if mode = .number then
        if msgtyp = count then some i else findMsgLoop t mode (i + 1) (count + 1) msgtyp found ms
      else some i
    else findMsgLoop t mode (i + 1) count msgtyp found ms

def findMsg (q : MsgQueue τ μ) (t : τ) (msgtyp : ℤ) (mode : Search) : Option ℕ :=
  findMsgLoop deny t mode 0 0 msgtyp none q.qMessages

/-- The task returns from the system call. -/
def MsgSystem.finish (s : MsgSystem τ μ) (t : τ) : MsgSystem τ μ := { s with task := Function.update s.task t .idle }

/-- The task goes to sleep. -/
def MsgSystem.sleep (s : MsgSystem τ μ) (t : τ) (k : Task μ) : MsgSystem τ μ :=
  { s with task := Function.update s.task t k, woken := Function.update s.woken t false }

/-- The message is put on the queue. -/
def enqueue (m : Msg μ) (s : MsgSystem τ μ) : MsgSystem τ μ :=
  { s with
    queue.qMessages := s.queue.qMessages ++ [m]
    queue.qCbytes := s.queue.qCbytes + m.mTs
    queue.qQnum := s.queue.qQnum + 1 }

/-- The end of `do_msgsnd`, when the message fits. -/
def deliver (t : τ) (m : Msg μ) (s : MsgSystem τ μ) : MsgSystem τ μ × List (Event τ μ) :=
  match pipelinedSend deny m s.queue.qReceivers s with
  | (rs,some r,s) => ((s.setReceivers rs).finish t,[.accept m,.hand r m,.ret t .sent])
  | (rs,none,s) => ((enqueue m (s.setReceivers rs)).finish t,[.accept m,.ret t .sent])

/-- One round of the loop of `do_msgsnd`; `perms` and `security` are the two permission checks. -/
def msgsndRound (t : τ) (m : Msg μ) (nowait perms : Bool) (security : Option Errno) (s : MsgSystem τ μ) :
    MsgSystem τ μ × List (Event τ μ) :=
  if !perms then (s.finish t,[.ret t (.err .eacces)])
  else if s.queue.deleted then (s.finish t,[.ret t (.err .eidrm)])
  else match security with
    | some e => (s.finish t,[.ret t (.err e)])
    | none =>
      if msgFitsInqueue s.queue m.mTs then deliver deny t m s
      else if nowait then (s.finish t,[.ret t (.err .eagain)])
      else ((s.setSenders (s.queue.qSenders ++ [⟨t,m.mTs⟩])).sleep t (.snd m),[])

/-- The message at a position is taken off the queue. -/
def dequeue (i : ℕ) (m : Msg μ) (s : MsgSystem τ μ) : MsgSystem τ μ :=
  { s with
    queue.qMessages := s.queue.qMessages.eraseIdx i
    queue.qQnum := s.queue.qQnum - 1
    queue.qCbytes := s.queue.qCbytes - m.mTs }

/-- `do_msg_fill`: the bytes that are stored. -/
def fillSize (bufsz : ℕ) (m : Msg μ) : ℕ := if bufsz > m.mTs then m.mTs else bufsz

/-- `msr_d` of a receiver that goes to sleep; INT_MAX if the message may be cut. -/
def RcvArgs.receiver (a : RcvArgs) (t : τ) : Receiver τ :=
  ⟨t,a.mode,a.msgtyp,if a.flags.noerror then 2147483647 else a.bufsz⟩

/-- A suitable message was found. -/
def takeMsg (t : τ) (a : RcvArgs) (i : ℕ) (m : Msg μ) (s : MsgSystem τ μ) :
    Option (MsgSystem τ μ × List (Event τ μ)) :=
  if decide (a.bufsz < m.mTs) && !a.flags.noerror then some (s.finish t,[.ret t (.err .e2big)])
  else if a.flags.copy then some (s.finish t,[.ret t (.copied m (fillSize a.bufsz m))])
  else (ssWakeup (dequeue i m s)).map fun s =>
    (s.finish t,[.hand t m,.ret t (.got m (fillSize a.bufsz m))])

/-- One round of the loop of `do_msgrcv`, up to `schedule()`. -/
def msgrcvRound (t : τ) (a : RcvArgs) (perms : Bool) (s : MsgSystem τ μ) :
    Option (MsgSystem τ μ × List (Event τ μ)) :=
  if !perms then some (s.finish t,[.ret t (.err .eacces)])
  else if s.queue.deleted then some (s.finish t,[.ret t (.err .eidrm)])
  else
    match findMsg deny s.queue t a.msgtyp a.mode with
    | some i => (s.queue.qMessages[i]?).bind fun m => takeMsg t a i m s
    | none =>
      if a.flags.nowait then some (s.finish t,[.ret t (.err .enomsg)])
      else
        let c := s.setReceivers (s.queue.qReceivers ++ [a.receiver t])
        some ({ c with rMsg := Function.update s.rMsg t (.error .eagain) }.sleep t (.rcv false a),[])

/-- A receiver finds a result in `r_msg` and returns. -/
def takeResult (t : τ) (a : RcvArgs) (s : MsgSystem τ μ) : MsgSystem τ μ × List (Event τ μ) :=
  match s.rMsg t with
  | .ok m => (s.finish t,[.ret t (.got m (fillSize a.bufsz m))])
  | .error e => (s.finish t,[.ret t (.err e)])

/-- `freeque`. -/
def freeque (s : MsgSystem τ μ) : MsgSystem τ μ × List (Event τ μ) :=
  let c := expungeAll .eidrm s
  ({ c with
    queue := { c.queue with qSenders := [], qMessages := [], deleted := true }
    woken := fun t => c.woken t || decide (t ∈ s.queue.qSenders.map Sender.tsk) },s.queue.qMessages.map .drop)

/-- What happens to a queue: a call of msgsnd or msgrcv comes up to its end or to schedule(), a task comes out of
schedule() for whatever reason, and msgctl. -/
inductive MsgOp (τ μ : Type)
  | msgsnd (t : τ) (m : Msg μ) (ctlmax : ℕ) (nowait perms : Bool) (security : Option Errno)
  | resumeSnd (t : τ) (signal perms : Bool) (security : Option Errno)
  | msgrcv (t : τ) (bufsz : ℕ) (msgtyp : ℤ) (flags : MsgFlags) (perms : Bool)
  | resumeRcv (t : τ)
  | relock (t : τ) (signal : Bool)
  | again (t : τ) (perms : Bool)
  | ipcSet (msgQbytes : ℕ)
  | ipcRmid

def isEagain (r : Except Errno (Msg μ)) : Bool :=
  match r with
  | .error .eagain => true
  | _ => false

/-- One step. A step that the task is not at changes nothing, as does msgctl on a queue that is gone. -/
def msgStep (s : MsgSystem τ μ) : MsgOp τ μ → Option (MsgSystem τ μ × List (Event τ μ))
  | .msgsnd t m ctlmax nowait perms security =>
    match s.task t with
    | .idle =>
      if decide (ctlmax < m.mTs) || decide (m.mType < 1) then some (s,[.ret t (.err .einval)])
      else some (msgsndRound deny t m nowait perms security s)
    | _ => some (s,[])
  | .resumeSnd t signal perms security =>
    match s.task t with
    | .snd m =>
      if s.queue.deleted then some (s.finish t,[.ret t (.err .eidrm)])
      else
        let c := s.setSenders (s.queue.qSenders.filter (·.tsk ≠ t))
        if signal then some (c.finish t,[.ret t (.err .erestartnohand)])
        else some (msgsndRound deny t m false perms security c)
    | _ => some (s,[])
  | .msgrcv t bufsz msgtyp flags perms =>
    match s.task t with
    | .idle =>
      if flags.copy && (flags.except || !flags.nowait) then some (s,[.ret t (.err .einval)])
      else
        let r := convertMode msgtyp flags
        msgrcvRound deny t ⟨bufsz,r.1,r.2,flags⟩ perms s
    | _ => some (s,[])
  | .resumeRcv t =>
    match s.task t with
    | .rcv false a =>
      if isEagain (s.rMsg t) then some ({ s with task := Function.update s.task t (.rcv true a) },[])
      else some (takeResult t a s)
    | _ => some (s,[])
  | .relock t signal =>
    match s.task t with
    | .rcv true a =>
      if !isEagain (s.rMsg t) then some (takeResult t a s)
      else
        let c := s.setReceivers (s.queue.qReceivers.filter (·.rTsk ≠ t))
        if signal then some (c.finish t,[.ret t (.err .erestartnohand)])
        else some ({ c with task := Function.update c.task t (.again a) },[])
    | _ => some (s,[])
  | .again t perms =>
    match s.task t with
    | .again a => msgrcvRound deny t a perms s
    | _ => some (s,[])
  | .ipcSet msgQbytes =>
    if s.queue.deleted then some (s,[])
    else (ssWakeup (expungeAll .eagain { s with queue.qQbytes := msgQbytes })).map (·,[])
  | .ipcRmid => if s.queue.deleted then some (s,[]) else some (freeque s)

end Source
end Linuxab.Ipc
