import Linuxab.Shell.Words

/-!
Arguments in double quotes and the tokenizer.  A word is taken off the front of the line, whatever
follows its closing quote; an argument that fills the buffer is cut off before its closing quote, so
the quote stays open and the rest of the line goes with it.
-/
namespace Linuxab.Shell
open Linuxab.Base

/-- An argument in double quotes. -/
def quoted (arg : List UInt8) : List UInt8 := 34::arg ++ [34]

/-- The quoted arguments with one blank between them. -/
def quotedLine (args : List (List UInt8)) : List UInt8 := [32].intercalate (args.map quoted)

/-- The text ends here or a blank follows. -/
def AtBlank (input : List UInt8) : Prop := ∀ c ∈ input.head?, isBlank c = true

lemma atBlank_nil : AtBlank [] := by simp [AtBlank]

lemma atBlank_cons {c : UInt8} (h : isBlank c = true) (input : List UInt8) : AtBlank (c::input) := by
  simpa [AtBlank] using h

section Word
variable {arg a rest : List UInt8}

/-- Outside of quotes a word ends at a blank. -/
lemma takeWord_atBlank (h : AtBlank rest) : takeWord arg none rest = (arg,none,rest) := by
  cases rest with
  | nil => rfl
  | cons c rest =>
    have hc : isBlank c = true := h c rfl
    have hq : ¬(c = 34 ∨ c = 39) := by
      rintro (rfl | rfl) <;> simp [isBlank] at hc
    unfold takeWord
    rw [if_neg hq,if_pos hc,ite_self]

/-- Inside double quotes every other character is taken while the buffer has room. -/
lemma takeWord_inside (ha : 34 ∉ a) (hl : arg.length+a.length ≤ 63) :
    takeWord arg (some 34) (a ++ rest) = takeWord (arg ++ a) (some 34) rest := by
  induction a generalizing arg with
  | nil => rw [List.nil_append,List.append_nil]
  | cons c a ih =>
    simp only [List.mem_cons,not_or] at ha
    simp only [List.length_cons] at hl
    rw [List.cons_append,takeWord,if_neg (by omega),if_neg (Ne.symm ha.1),ih ha.2 (by simp; omega)]
    simp

/-- The closing quote is taken if the buffer still has room. -/
lemma takeWord_quoted (ha : 34 ∉ a) (hl : arg.length+a.length ≤ 62) :
    takeWord arg (some 34) (a ++ 34::rest) = takeWord (arg ++ a) none rest := by
  rw [takeWord_inside ha (by omega),takeWord,if_neg (by simp; omega),if_pos rfl]

/-- A full buffer ends the word with its quote still open. -/
lemma takeWord_full (ha : 34 ∉ a) (hl : arg.length+a.length = 63) :
    takeWord arg (some 34) (a ++ rest) = (arg ++ a,some 34,rest) := by
  rw [takeWord_inside ha (by omega)]
  cases rest with
  | nil => rw [takeWord]
  | cons c rest => rw [takeWord,if_pos (by simp; omega)]

end Word

section Line
variable {a rest : List UInt8} {args : List (List UInt8)} {room : ℕ}

@[simp] lemma takeWords_nil (room : ℕ) : takeWords room [] = [] := by
  cases room <;> rfl

/-- Blanks in front of a word are skipped. -/
lemma takeWords_blank {c : UInt8} (h : isBlank c = true) (room : ℕ) (input : List UInt8) :
    takeWords room (c::input) = takeWords room input := by
  cases room with
  | zero => rfl
  | succ room => simp only [takeWords,List.dropWhile_cons_of_pos h]

/-- A word that starts here is the next argument. -/
lemma takeWords_cons {c : UInt8} (hc : isBlank c = false) (room : ℕ) (input : List UInt8) :
    takeWords (room+1) (c::input) = (takeWord [] none (c::input)).1::
      takeWords room (if (takeWord [] none (c::input)).2.1.isSome then [] else (takeWord [] none (c::input)).2.2) := by
  have hd : (c::input).dropWhile isBlank = c::input := List.dropWhile_cons_of_neg (by simp [hc])
  rw [takeWords,hd]

lemma takeWords_quoted (ha : 34 ∉ a) (hl : a.length ≤ 62) (hrest : AtBlank rest) :
    takeWords (room+1) (quoted a ++ rest) = a::takeWords room rest := by
  have hopen : takeWord [] none (34::(a ++ 34::rest)) = (a,none,rest) := by
    rw [takeWord,if_neg (by simp),if_pos (.inl rfl),takeWord_quoted ha (by simpa using hl),List.nil_append,
      takeWord_atBlank hrest]
  have htext : quoted a ++ rest = 34::(a ++ 34::rest) := by simp [quoted]
  rw [htext,takeWords_cons rfl,hopen]
  rfl

/-- An argument of 63 bytes is the last one found. -/
lemma takeWords_quoted_full (ha : 34 ∉ a) (hl : a.length = 63) :
    takeWords (room+1) (quoted a ++ rest) = [a] := by
  have hopen : takeWord [] none (34::(a ++ 34::rest)) = (a,some 34,34::rest) := by
    rw [takeWord,if_neg (by simp),if_pos (.inl rfl),takeWord_full ha (by simpa using hl),List.nil_append]
  have htext : quoted a ++ rest = 34::(a ++ 34::rest) := by simp [quoted]
  rw [htext,takeWords_cons rfl,hopen]
  simp

@[simp] lemma quotedLine_singleton (a : List UInt8) : quotedLine [a] = quoted a := by
  simp [quotedLine]

lemma quotedLine_cons_cons (a b : List UInt8) (args : List (List UInt8)) :
    quotedLine (a::b::args) = quoted a ++ 32::quotedLine (b::args) := by
  simp [quotedLine,List.intercalate]

/-- The arguments come back exactly when none but the last fills its buffer. -/
lemma takeWords_quotedLine_iff (hne : args ≠ []) (hroom : args.length ≤ room)
    (hargs : ∀ a ∈ args, a.length ≤ 63 ∧ 34 ∉ a) :
    takeWords room (quotedLine args) = args ↔ ∀ a ∈ args.dropLast, a.length ≤ 62 := by
  induction args generalizing room with
  | nil => exact absurd rfl hne
  | cons a args ih =>
    obtain ⟨room,rfl⟩ : ∃ r, room = r+1 := ⟨room-1,by simp at hroom; omega⟩
    obtain ⟨hl,ha⟩ := hargs a (by simp)
    cases args with
    | nil =>
      -- the rest that an open quote swallows is at most the closing quote of the last argument
      rw [quotedLine_singleton,← List.append_nil (quoted a)]
      refine iff_of_true ?_ (by simp)
      by_cases hfull : a.length = 63
      · exact takeWords_quoted_full ha hfull
      · rw [takeWords_quoted ha (by omega) atBlank_nil,takeWords_nil]
    | cons b args =>
      rw [quotedLine_cons_cons,List.dropLast_cons_cons,List.forall_mem_cons]
      by_cases hfull : a.length = 63
      · rw [takeWords_quoted_full ha hfull]
        exact iff_of_false (by simp) (by omega)
      · have ih := @ih room (by simp) (by simpa using hroom) fun x hx => hargs x (List.mem_cons_of_mem _ hx)
        rw [takeWords_quoted ha (by omega) (atBlank_cons rfl _),takeWords_blank rfl,List.cons_inj_right,ih]
        exact ⟨fun h => ⟨by omega,h⟩,fun h => h.2⟩

end Line

/-- Quoting and parsing are inverse on a list of 1 to 16 arguments of at most 63 bytes without double
quotes, up to the length at which the closing quote is no longer read. -/
theorem parseArgs_quotedLine_iff (args : List (List UInt8)) (hpos : 1 ≤ args.length) (hle : args.length ≤ 16)
    (hargs : ∀ a ∈ args, a.length ≤ 63 ∧ 34 ∉ a) :
    parseArgs (quotedLine args) = args ↔ ∀ a ∈ args.dropLast, a.length ≤ 62 :=
  takeWords_quotedLine_iff (List.ne_nil_of_length_pos hpos) hle hargs

/-- Blanks, tabs and single quotes come back, and so does a last argument of 63 bytes. -/
theorem parseArgs_quotedLine_mixed :
    parseArgs (quotedLine [bytes "a b",[],[39,9],List.replicate 63 120]) =
      [bytes "a b",[],[39,9],List.replicate 63 120] := by
  rw [parseArgs_quotedLine_iff _ (by decide) (by decide) (by decide)]
  decide

/-- An argument of 63 bytes takes the one behind it along. -/
theorem parseArgs_quotedLine_swallows :
    parseArgs (quotedLine [List.replicate 63 120,bytes "y"]) = [List.replicate 63 120] ∧
      parseArgs (quotedLine [List.replicate 63 120,bytes "y"]) ≠ [List.replicate 63 120,bytes "y"] := by
  have h : parseArgs (quotedLine [List.replicate 63 120,bytes "y"]) = [List.replicate 63 120] :=
    takeWords_quoted_full (by decide) (by decide)
  rw [h]
  exact ⟨rfl,by simp⟩

end Linuxab.Shell
