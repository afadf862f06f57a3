import Mathlib.Data.List.Infix

/-!
Texts made of strings between quotes and of what stands around them, and where a search that begins with
a quote finds its word in them.
-/

namespace Linuxab.Base

/-- Characters outside of quotes, or a string between two quotes. -/
inductive Piece where
  | gap (s : List Char)
  | quoted (s : List Char)

def quote (s : List Char) : List Char := '"'::(s ++ ['"'])

def Piece.text : Piece → List Char
  | gap s => s
  | quoted s => quote s

def pieceText (ps : List Piece) : List Char := ps.flatMap Piece.text

/-- Around the strings stand only separators, and no string has a quote in it. -/
def Piece.Clean (sep : Char → Bool) : Piece → Prop
  | gap s => ∀ c ∈ s, sep c = true
  | quoted s => '"' ∉ s

/-- The places of a text at which a word stands. -/
def occurrences (w t : List Char) : List (List Char) := t.tails.filter w.isPrefixOf

def Piece.marked (P : List Char → Bool) : Piece → Bool
  | gap _ => false
  | quoted s => P s

/-- The places at which a marked string begins. -/
def startsAt (P : List Char → Bool) : List Piece → List (List Piece)
  | [] => []
  | q::ps => if q.marked P then (q::ps)::startsAt P ps else startsAt P ps

section Pieces
variable {P : List Char → Bool} {ps qs : List Piece}

theorem pieceText_cons (q : Piece) (ps : List Piece) : pieceText (q::ps) = q.text ++ pieceText ps :=
  List.flatMap_cons

theorem pieceText_quoted (s : List Char) (ps : List Piece) :
    pieceText (.quoted s::ps) = '"'::(s ++ '"'::pieceText ps) := by
  simp [pieceText_cons,Piece.text,quote]

@[simp] theorem marked_gap (s : List Char) : (Piece.gap s).marked P = false := rfl
@[simp] theorem marked_quoted (s : List Char) : (Piece.quoted s).marked P = P s := rfl

@[simp] theorem startsAt_gap (s : List Char) (ps : List Piece) : startsAt P (.gap s::ps) = startsAt P ps := rfl

theorem startsAt_quoted_of_marked {s : List Char} (h : P s = true) (ps : List Piece) :
    startsAt P (.quoted s::ps) = (.quoted s::ps)::startsAt P ps := if_pos h

theorem startsAt_quoted_of_unmarked {s : List Char} (h : P s = false) (ps : List Piece) :
    startsAt P (.quoted s::ps) = startsAt P ps := if_neg (Bool.eq_false_iff.mp h)

theorem startsAt_append_of_unmarked (h : ∀ q ∈ ps, q.marked P = false) (qs : List Piece) :
    startsAt P (ps ++ qs) = startsAt P qs := by
  induction ps with
  | nil => rfl
  | cons q ps ih =>
    obtain ⟨hq,hps⟩ := List.forall_mem_cons.mp h
    rw [List.cons_append,startsAt,if_neg (Bool.eq_false_iff.mp hq),ih hps]

theorem suffix_of_mem_startsAt (h : qs ∈ startsAt P ps) : qs <:+ ps := by
  induction ps with
  | nil => cases h
  | cons q ps ih =>
    rw [startsAt] at h
    split at h
    · rcases List.mem_cons.mp h with rfl | h
      · exact List.suffix_refl _
      · exact (ih h).trans (List.suffix_cons q ps)
    · exact (ih h).trans (List.suffix_cons q ps)

theorem pieceText_suffix (h : qs <:+ ps) : pieceText qs <:+ pieceText ps := by
  obtain ⟨front,rfl⟩ := h
  exact ⟨pieceText front,List.flatMap_append.symm⟩

end Pieces

/-! ## The search -/

section Search
variable {sep : Char → Bool} {P : List Char → Bool} {x : Char} {w s t : List Char} {ps : List Piece}

theorem occurrences_cons (w : List Char) (c : Char) (t : List Char) :
    occurrences w (c::t) = if w.isPrefixOf (c::t) then (c::t)::occurrences w t else occurrences w t := by
  rw [occurrences,List.tails_cons,List.filter_cons]
  rfl

/-- No word that begins with a quote stands at a character that is none. -/
theorem occurrences_append (hs : '"' ∉ s) (w t : List Char) :
    occurrences ('"'::w) (s ++ t) = occurrences ('"'::w) t := by
  induction s with
  | nil => rfl
  | cons c s ih =>
    obtain ⟨hc,hrest⟩ := not_or.mp (mt List.mem_cons.mpr hs)
    have hno : ('"'::w).isPrefixOf (c::(s ++ t)) = false := by
      rw [List.isPrefixOf_cons_cons,beq_false_of_ne hc,Bool.false_and]
    rw [List.cons_append,occurrences_cons,hno]
    exact ih hrest

/-- What follows a string does not begin with the letter. -/
theorem not_isPrefixOf_pieceText (hx : sep x = false) (hquote : x ≠ '"') (h : ∀ q ∈ ps, q.Clean sep) :
    (x::w).isPrefixOf (pieceText ps) = false := by
  induction ps with
  | nil => rfl
  | cons q ps ih =>
    obtain ⟨hq,hps⟩ := List.forall_mem_cons.mp h
    cases q with
    | gap s =>
      rw [pieceText_cons]
      cases s with
      | nil => exact ih hps
      | cons c s =>
        have hc : sep c = true := hq c List.mem_cons_self
        have hne : x ≠ c := fun heq => Bool.false_ne_true (hx.symm.trans (heq ▸ hc))
        rw [Piece.text,List.cons_append,List.isPrefixOf_cons_cons,beq_false_of_ne hne,Bool.false_and]
    | quoted s => rw [pieceText_quoted,List.isPrefixOf_cons_cons,beq_false_of_ne hquote,Bool.false_and]

/-- A word that begins with a quote and a letter stands only where a string begins. -/
theorem occurrences_pieceText (hsep : sep '"' = false) (hx : sep x = false) (hquote : x ≠ '"')
    (hP : ∀ s t, '"' ∉ s → (x::w).isPrefixOf (s ++ '"'::t) = P s) (h : ∀ q ∈ ps, q.Clean sep) :
    occurrences ('"'::x::w) (pieceText ps) = (startsAt P ps).map pieceText := by
  induction ps with
  | nil => rfl
  | cons q ps ih =>
    obtain ⟨hq,hps⟩ := List.forall_mem_cons.mp h
    cases q with
    | gap s =>
      have hs : '"' ∉ s := fun hmem => Bool.false_ne_true (hsep.symm.trans (hq _ hmem))
      rw [pieceText_cons,Piece.text,occurrences_append hs,ih hps,startsAt_gap]
    | quoted s =>
      -- the closing quote is followed by a separator, an opening quote or the end
      have hclose : ('"'::x::w).isPrefixOf ('"'::pieceText ps) = false := by
        rw [List.isPrefixOf_cons_cons,beq_self_eq_true,Bool.true_and,not_isPrefixOf_pieceText hx hquote hps]
      have hopen : ('"'::x::w).isPrefixOf ('"'::(s ++ '"'::pieceText ps)) = P s := by
        rw [List.isPrefixOf_cons_cons,beq_self_eq_true,Bool.true_and,hP _ _ hq]
      have hrest : occurrences ('"'::x::w) (s ++ '"'::pieceText ps) = (startsAt P ps).map pieceText := by
        rw [occurrences_append hq,occurrences_cons,hclose,← ih hps]
        rfl
      rw [pieceText_quoted,occurrences_cons,hopen,hrest]
      cases hmark : P s with
      | true => rw [if_pos rfl,startsAt_quoted_of_marked hmark,List.map_cons,pieceText_quoted]
      | false =>
        rw [startsAt_quoted_of_unmarked hmark]
        rfl

/-- A word without quotes begins a string, or it does not stand at its quote. -/
theorem isPrefixOf_quoted (hw : '"' ∉ w) (hs : '"' ∉ s) (t : List Char) :
    w.isPrefixOf (s ++ '"'::t) = w.isPrefixOf s := by
  induction w generalizing s with
  | nil => simp
  | cons c w ih =>
    obtain ⟨hc,hrest⟩ := not_or.mp (mt List.mem_cons.mpr hw)
    cases s with
    | nil => rw [List.nil_append,List.isPrefixOf_cons_cons,beq_false_of_ne (Ne.symm hc),Bool.false_and]; rfl
    | cons d s =>
      have hs : '"' ∉ s := fun hmem => hs (List.mem_cons_of_mem d hmem)
      rw [List.cons_append,List.isPrefixOf_cons_cons,List.isPrefixOf_cons_cons,ih hrest hs]

/-- A word with the quote behind it is a whole string. -/
theorem isPrefixOf_quoted_quote (hw : '"' ∉ w) (hs : '"' ∉ s) (t : List Char) :
    (w ++ ['"']).isPrefixOf (s ++ '"'::t) = (s == w) := by
  induction w generalizing s with
  | nil =>
    cases s with
    | nil => simp
    | cons d s =>
      have hd : '"' ≠ d := fun heq => hs (heq ▸ List.mem_cons_self)
      rw [List.nil_append,List.cons_append,List.isPrefixOf_cons_cons,beq_false_of_ne hd,Bool.false_and]
      rfl
  | cons c w ih =>
    obtain ⟨hc,hrest⟩ := not_or.mp (mt List.mem_cons.mpr hw)
    cases s with
    | nil =>
      rw [List.nil_append,List.cons_append,List.isPrefixOf_cons_cons,beq_false_of_ne (Ne.symm hc),Bool.false_and]
      rfl
    | cons d s =>
      have hs : '"' ∉ s := fun hmem => hs (List.mem_cons_of_mem d hmem)
      rw [List.cons_append,List.cons_append,List.isPrefixOf_cons_cons,ih hrest hs,List.cons_beq_cons,
        Bool.beq_comm]

end Search
end Linuxab.Base
