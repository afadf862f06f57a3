import Mathlib.Data.Nat.Digits.Defs
import Linuxab.Shell.Text

/-! Words in and out of the shell: the tokenizer, the texts that are joined from words again, and what
the print helpers send to the cursor driver. -/
namespace Linuxab.Shell
open Linuxab.Base

/-- A byte-string literal. -/
def bytes (s : String) : List UInt8 := s.toList.map fun c => c.toNat.toUInt8

/-- The inner loop of `parse_args`: the argument so far, the open quote if there is one, and the rest of
the input. An argument ends at an unquoted blank or when it has 63 bytes. -/
def takeWord (arg : List UInt8) : Option UInt8 → List UInt8 → List UInt8 × Option UInt8 × List UInt8
  | quote,[] => (arg,quote,[])
  | none,c::rest =>
    if 63 ≤ arg.length then (arg,none,c::rest)
    else if c = 34 ∨ c = 39 then takeWord arg (some c) rest
    else if isBlank c then (arg,none,c::rest)
    else takeWord (arg ++ [c]) none rest
  | some q,c::rest =>
    if 63 ≤ arg.length then (arg,some q,c::rest)
    else if c = q then takeWord arg none rest
    else takeWord (arg ++ [c]) (some q) rest

/-- At most `room` arguments; a quote that is still open swallows the rest. -/
def takeWords : ℕ → List UInt8 → List (List UInt8)
  | 0,_ => []
  | room+1,input =>
    match input.dropWhile isBlank with
    | [] => []
    | c::rest =>
      let word := takeWord [] none (c::rest)
      word.1::takeWords room (if word.2.1.isSome then [] else word.2.2)

def parseArgs (input : List UInt8) : List (List UInt8) := takeWords 16 input

lemma length_takeWord_le (arg : List UInt8) (h : arg.length ≤ 63) (quote : Option UInt8) (input : List UInt8) :
    (takeWord arg quote input).1.length ≤ 63 := by
  induction input generalizing arg quote with
  | nil => simpa [takeWord] using h
  | cons c rest ih =>
    cases quote <;> unfold takeWord <;> split_ifs
    all_goals first | exact h | exact ih _ h _ | exact ih _ (by simp; omega) _

/-- There are at most 16 arguments of at most 63 bytes. -/
theorem parseArgs_bounds (input : List UInt8) :
    (parseArgs input).length ≤ 16 ∧ ∀ arg ∈ parseArgs input, arg.length ≤ 63 := by
  have h : ∀ room input, (takeWords room input).length ≤ room ∧ ∀ arg ∈ takeWords room input, arg.length ≤ 63 := by
    intro room
    induction room with
    | zero => simp [takeWords]
    | succ room ih =>
      intro input
      unfold takeWords
      split
      · simp
      · refine ⟨Nat.succ_le_succ (ih _).1,fun arg harg => ?_⟩
        cases List.mem_cons.mp harg with
        | inl he =>
          rw [he]
          exact length_takeWord_le [] (by simp) none _
        | inr ht => exact (ih _).2 arg ht
  exact h 16 input

/-- One step of the loops that join words in a buffer of `cap` bytes and keep its last one free. -/
def joinWord (cap : ℕ) (buf word : List UInt8) : List UInt8 :=
  let buf := if 0 < buf.length ∧ buf.length < cap-1 then buf ++ [32] else buf
  buf ++ word.take (min word.length (cap-buf.length-1))

def joinWords (cap : ℕ) (words : List (List UInt8)) : List UInt8 := words.foldl (joinWord cap) []

lemma length_joinWords_le (cap : ℕ) (words : List (List UInt8)) : (joinWords cap words).length ≤ cap-1 := by
  have h : ∀ (words : List (List UInt8)) (buf : List UInt8), buf.length ≤ cap-1 →
      (words.foldl (joinWord cap) buf).length ≤ cap-1 := by
    intro words
    induction words with
    | nil => exact fun _ h => h
    | cons w words ih =>
      intro buf hbuf
      apply ih
      unfold joinWord
      split <;> simp <;> omega
  exact h words [] (Nat.zero_le _)

/-- The arguments behind an alias are copied to the end of `new_cmd`. -/
def appendArg (buf arg : List UInt8) : List UInt8 :=
  let buf := if buf.length < 255 then buf ++ [32] else buf
  buf ++ arg.take (min arg.length (256-buf.length))

/-- Digits are read in 32-bit arithmetic and everything else is skipped. -/
def parseU32 (s : List UInt8) : UInt32 :=
  s.foldl (fun n c => if 48 ≤ c ∧ c ≤ 57 then n*10+(c-48).toUInt32 else n) 0

inductive CursorOp
  | putchar (c : UInt8)
  | setColor (fg bg : UInt8)
  | clearScreen
  deriving DecidableEq

abbrev Output := List CursorOp

/-- Printing stops at a NUL. -/
def printBytes (s : List UInt8) : Output := (text s).map .putchar
def printStr (s : String) : Output := printBytes (bytes s)
def newline : Output := [.putchar 10]

/-- Text in a foreground colour, and back to white. -/
def printColor (s : String) (fg : UInt8) : Output := [.setColor fg 0] ++ printStr s ++ [.setColor 7 0]

/-- The decimal digits, the last one found first. -/
def printNum (n : ℕ) : Output :=
  if n = 0 then [.putchar 48] else (Nat.digits 10 n).reverse.map fun d => .putchar (48+d.toUInt8)

end Linuxab.Shell
