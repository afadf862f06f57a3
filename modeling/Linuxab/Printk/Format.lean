import Linuxab.Base.Fold
import Mathlib.Data.Int.Notation
import Mathlib.Data.List.TakeDrop
import Mathlib.Logic.Function.Basic

/-! `printk` of `kernel/printk.c` with the accesses it makes to the format string and to its local buffer.
A read behind the terminating NUL or a write behind the buffer stops the run. -/
namespace Linuxab.Printk

inductive Fault
  | formatRead
  | bufferWrite
  | argument
  deriving DecidableEq

/-- The bytes of a string before its terminating NUL. -/
structure CString where
  bytes : List UInt8
  no_nul : 0 ∉ bytes

inductive Arg
  | int (val : Int32)
  | str (s : CString)
  | uint (val : UInt32)
  | ptr (val : UInt64)

section Buffer

/-- `buf[len++] = c` on a buffer of which `buf` has been written. -/
def put (buf : List UInt8) (c : UInt8) : Except Fault (List UInt8) :=
  if buf.length < 1024 then .ok (buf ++ [c]) else .error .bufferWrite

/-- `while (*s && len < 1023) buf[len++] = *s++;` -/
def putString : List UInt8 → List UInt8 → Except Fault (List UInt8)
  | [],buf => .ok buf
  | c::s,buf => if buf.length < 1023 then do putString s (← put buf c) else .ok buf

/-- The three stores of the cases `'x'` and `'p'`. -/
def putZeroX (buf : List UInt8) : Except Fault (List UInt8) := do
  let buf ← put buf '0'.toUInt8
  let buf ← put buf 'x'.toUInt8
  put buf '0'.toUInt8

/-- `'0' + (val % 10)` with the remainder of C. -/
def lastDigit (val : Int32) : UInt8 := UInt8.ofInt (48+val.toInt.tmod 10)

end Buffer

section Loop

/-- The `switch (*p)` behind a `%`. -/
def convert (c : UInt8) (args : List Arg) (buf : List UInt8) : Except Fault (List Arg × List UInt8) :=
  if c = 'd'.toUInt8 then
    match args with
    | .int val::args => (args,·) <$> put buf (lastDigit val)
    | _ => .error .argument
  else if c = 's'.toUInt8 then
    match args with
    | .str s::args => (args,·) <$> putString s.bytes buf
    | _ => .error .argument
  else if c = 'x'.toUInt8 then
    match args with
    | .uint _::args => (args,·) <$> putZeroX buf
    | _ => .error .argument
  else if c = 'p'.toUInt8 then
    match args with
    | .ptr _::args => (args,·) <$> putZeroX buf
    | _ => .error .argument
  else if c = '%'.toUInt8 then (args,·) <$> put buf '%'.toUInt8
  else (args,·) <$> put buf c

/-- The loop at the rest of the format string; `*p` is the NUL when nothing is left. -/
def printkLoop : List UInt8 → List Arg → List UInt8 → Except Fault (List UInt8)
  | [],_,buf => .ok buf
  | c::rest,args,buf =>
    if 1023 ≤ buf.length then .ok buf
    else if c = '%'.toUInt8 then
      match rest with
      | [] => do
        -- the NUL is the conversion, and the next test of the loop reads behind it
        let _ ← convert 0 args buf
        .error .formatRead
      | d::rest => do
        let (args,buf) ← convert d args buf
        printkLoop rest args buf
    else do
      let buf ← put buf c
      printkLoop rest args buf

end Loop

section Prefix

/-- `fmt[i]` -/
def readFmt (fmt : List UInt8) (i : ℕ) : Except Fault UInt8 :=
  if i ≤ fmt.length then .ok (fmt.getD i 0) else .error .formatRead

def parseLoglevel (buf : List UInt8) : Except Fault ℤ := do
  if (← readFmt buf 0) ≠ '<'.toUInt8 then return -1
  else if (← readFmt buf 2) ≠ '>'.toUInt8 then return -1
  else
    let c ← readFmt buf 1
    if '0'.toUInt8 ≤ c ∧ c ≤ '7'.toUInt8 then return c.toNat-48 else return -1

/-- The level of the message and the format behind the loglevel prefix. -/
def levelOf (default : ℤ) (fmt : List UInt8) : Except Fault (ℤ × List UInt8) := do
  if (← readFmt fmt 0) = '<'.toUInt8 then
    if (← readFmt fmt 2) = '>'.toUInt8 then
      let parsed ← parseLoglevel fmt
      if 0 ≤ parsed then return (parsed,fmt.drop 3) else return (default,fmt)
    else return (default,fmt)
  else return (default,fmt)

end Prefix

section Printk

/-- The log buffer, the two levels and what a registered console has been given. -/
structure LogState where
  logBuf : ℕ → UInt8
  logEnd : UInt32
  loggedChars : UInt32
  consoleLoglevel : ℤ
  defaultMessageLoglevel : ℤ
  console : Option (List (List UInt8))

/-- The static initial values. -/
def LogState.boot : LogState := ⟨fun _ => 0,0,0,7,4,none⟩

/-- `LOG_BUF_SIZE` -/
def logBufSize : UInt32 := (1 : UInt32) <<< 17

/-- One round of the loop that adds to the log buffer. -/
def LogState.logChar (s : LogState) (c : UInt8) : LogState :=
  if s.logEnd < logBufSize then
    { s with logBuf := Function.update s.logBuf s.logEnd.toNat c, logEnd := s.logEnd+1, loggedChars := s.loggedChars+1 }
  else s

def LogState.emit (s : LogState) (level : ℤ) (buf : List UInt8) : LogState :=
  let s := buf.foldl LogState.logChar s
  if level ≤ s.consoleLoglevel then { s with console := s.console.map (· ++ [buf]) } else s

/-- The number of bytes printed and the state afterwards. -/
def printk (s : LogState) (fmt : CString) (args : List Arg) : Except Fault (ℕ × LogState) := do
  let (level,body) ← levelOf s.defaultMessageLoglevel fmt.bytes
  let buf ← printkLoop body args []
  let _ ← put buf 0
  return (buf.length,s.emit level buf)

end Printk
end Linuxab.Printk
