import Linuxab.Shell.Aliases
import Linuxab.Shell.Execute
import Linuxab.Shell.Quoting

/-!
What `execute_line` hands to `dispatch` when the first word is an alias.  The arguments that were
parsed are written behind the text of the alias without their quotes and parsed a second time, so they
come out as they went in only if they need no quotes.
-/
namespace Linuxab.Shell
open Linuxab.Base

/-! ## The arguments of `dispatch` -/

/-- The arguments with which `execute_line` calls `dispatch`, if it does. -/
def dispatched : Request → Option Args
  | (s,line) =>
    match parseArgs (trim line) with
    | [] => none
    | cmd::args =>
      match resolveAlias s cmd with
      | some i =>
        let args := expandAlias (s.aliases.slots i) (cmd::args)
        if args = [] then none else some args
      | none => some (cmd::args)

/-- A line with bytes is recorded, and nothing else happens before the call. -/
theorem executeLine_eq_dispatched (s : ShellState) (line : List UInt8) :
    executeLine (s,line) =
      if trim line = [] then answer (s,[])
      else match dispatched (s,line) with
        | some args => dispatch (recordHistory s (trim line)) args
        | none => answer (recordHistory s (trim line),[]) := by
  simp only [executeLine,dispatched]
  by_cases hline : trim line = []
  · rw [if_pos hline,if_pos hline]
  · rw [if_neg hline,if_neg hline]
    cases hargs : parseArgs (trim line) with
    | nil => rfl
    | cons cmd args =>
      simp only [resolveAlias_recordHistory]
      cases halias : resolveAlias s cmd with
      | none => rfl
      | some i =>
        have hslots : (recordHistory s (trim line)).aliases = s.aliases := rfl
        simp only [hslots]
        by_cases hexp : expandAlias (s.aliases.slots i) (cmd::args) = [] <;> simp [hexp]

/-! ## Words of a longer text -/

section Word
variable {arg w l r rest : List UInt8} {q : Option UInt8} {p : UInt8}

/-- Behind a text that was read to its end the word goes on. -/
lemma takeWord_append (arg : List UInt8) (q : Option UInt8) (l r : List UInt8) :
    takeWord arg q (l ++ r) =
      match takeWord arg q l with
      | (w,q',[]) => takeWord w q' r
      | (w,q',c::rest) => (w,q',c::rest ++ r) := by
  induction l generalizing arg q with
  | nil => cases q <;> simp [takeWord]
  | cons c l ih =>
    cases q <;> simp only [List.cons_append,takeWord] <;> split_ifs
    all_goals first | rfl | exact ih _ _

lemma length_le_takeWord (arg : List UInt8) (q : Option UInt8) (l : List UInt8) :
    arg.length ≤ (takeWord arg q l).1.length := by
  induction l generalizing arg q with
  | nil => cases q <;> simp [takeWord]
  | cons c l ih =>
    cases q <;> unfold takeWord <;> split_ifs
    all_goals first | exact Nat.le_refl _ | exact ih _ _ | exact Nat.le_trans (by simp) (ih _ _)

/-- A quote that is open at the end was open before or is one of the two quote characters. -/
lemma takeWord_quote (h : (takeWord arg q l).2.1 = some p) : q = some p ∨ p = 34 ∨ p = 39 := by
  induction l generalizing arg q with
  | nil => cases q <;> simp_all [takeWord]
  | cons c l ih =>
    cases q with
    | none =>
      unfold takeWord at h
      split_ifs at h with _ hc
      · rcases ih h with he | he
        · cases he
          exact .inr hc
        · exact .inr he
      · exact ih h
    | some q =>
      unfold takeWord at h
      split_ifs at h
      · exact .inl h
      · rcases ih h with he | he
        · cases he
        · exact .inr he
      · exact ih h

/-- A word that ended outside a quote ends there too with a blank behind the text. -/
lemma takeWord_append_closed (hw : takeWord arg none l = (w,none,rest)) (r : List UInt8) :
    takeWord arg none (l ++ 32::r) = (w,none,rest ++ 32::r) := by
  rw [takeWord_append,hw]
  cases rest with
  | nil => exact takeWord_atBlank (atBlank_cons rfl r)
  | cons _ _ => rfl

/-- A word that ended inside a quote is full and takes all that follows along, or it gets the blank. -/
lemma takeWord_append_open (hw : takeWord [] none l = (w,some p,rest)) (r : List UInt8) :
    (takeWord [] none (l ++ 32::r)).1 = w ∧ (takeWord [] none (l ++ 32::r)).2.1.isSome = true ∨
      w.length < (takeWord [] none (l ++ 32::r)).1.length := by
  have hp : ¬ (32 : UInt8) = p := by
    have := @takeWord_quote [] l none p (by rw [hw])
    rintro rfl
    simp at this
  have happ := takeWord_append [] none l (32::r)
  rw [hw] at happ
  cases rest with
  | nil =>
    simp only [takeWord,if_neg hp] at happ
    split_ifs at happ with hfull
    · exact .inl (by rw [happ]; exact ⟨rfl,rfl⟩)
    · have hlen := length_le_takeWord (w ++ [32]) (some p) r
      rw [← happ,List.length_append,List.length_singleton] at hlen
      exact .inr hlen
  | cons _ _ => exact .inl (by rw [happ]; exact ⟨rfl,rfl⟩)

/-- A word has no more bytes than were read for it, and one that is neither full nor quoted ends at a
blank. -/
lemma takeWord_rest (arg : List UInt8) (q : Option UInt8) (l : List UInt8) :
    (takeWord arg q l).1.length+(takeWord arg q l).2.2.length ≤ arg.length+l.length ∧
      ((takeWord arg q l).2.1 = none → (takeWord arg q l).1.length ≤ 62 → AtBlank (takeWord arg q l).2.2) := by
  induction l generalizing arg q with
  | nil => cases q <;> simp [takeWord,atBlank_nil]
  | cons c l ih =>
    have hskip : ∀ q, (takeWord arg q l).1.length+(takeWord arg q l).2.2.length ≤ arg.length+(c::l).length :=
      fun q => (ih arg q).1.trans (by simp)
    have htake : ∀ q, (takeWord (arg ++ [c]) q l).1.length+(takeWord (arg ++ [c]) q l).2.2.length
        ≤ arg.length+(c::l).length := fun q => (ih (arg ++ [c]) q).1.trans (by simp; omega)
    cases q with
    | none =>
      unfold takeWord
      split_ifs with hfull hc hb
      · exact ⟨Nat.le_refl _,fun _ hle => absurd hfull (Nat.not_le.mpr (Nat.lt_succ_of_le hle))⟩
      · exact ⟨hskip _,(ih arg _).2⟩
      · exact ⟨Nat.le_refl _,fun _ _ => atBlank_cons hb l⟩
      · exact ⟨htake _,(ih (arg ++ [c]) _).2⟩
    | some p =>
      unfold takeWord
      split_ifs
      · exact ⟨Nat.le_refl _,False.elim⟩
      · exact ⟨hskip _,(ih arg _).2⟩
      · exact ⟨htake _,(ih (arg ++ [c]) _).2⟩

/-- A word with as many bytes as were read for it was read without a quote. -/
lemma takeWord_exact (h : (takeWord arg none l).1.length+(takeWord arg none l).2.2.length = arg.length+l.length) :
    ∃ read, takeWord arg none l = (arg ++ read,none,(takeWord arg none l).2.2) ∧
      l = read ++ (takeWord arg none l).2.2 ∧ ∀ b ∈ read, b ≠ 39 ∧ isBlank b = false := by
  induction l generalizing arg with
  | nil => exact ⟨[],by simp [takeWord],by simp [takeWord],nofun⟩
  | cons c l ih =>
    unfold takeWord at h ⊢
    split_ifs at h ⊢ with hfull hc hb
    · exact ⟨[],by simp,by simp,nofun⟩
    · have := (takeWord_rest arg (some c) l).1
      simp only [List.length_cons] at h
      omega
    · exact ⟨[],by simp,by simp,nofun⟩
    · obtain ⟨read,hw,hl,hread⟩ := @ih (arg ++ [c]) (by simp at h ⊢; omega)
      refine ⟨c::read,hw.trans (by rw [List.append_assoc,List.singleton_append]),by rw [List.cons_append,← hl],?_⟩
      rw [List.forall_mem_cons]
      exact ⟨⟨fun he => hc (.inr he),by simpa using hb⟩,hread⟩

/-- A byte that stands for itself outside of quotes. -/
def IsPlain (b : UInt8) : Prop := b ≠ 34 ∧ b ≠ 39 ∧ isBlank b = false

instance (b : UInt8) : Decidable (IsPlain b) := inferInstanceAs (Decidable (_ ∧ _))

lemma takeWord_plain (hl : ∀ b ∈ l, IsPlain b) (hlen : arg.length+l.length ≤ 63) (hr : AtBlank r) :
    takeWord arg none (l ++ r) = (arg ++ l,none,r) := by
  induction l generalizing arg with
  | nil => rw [List.nil_append,List.append_nil,takeWord_atBlank hr]
  | cons c l ih =>
    rw [List.forall_mem_cons] at hl
    obtain ⟨⟨h34,h39,hb⟩,hl⟩ := hl
    simp only [List.length_cons] at hlen
    rw [List.cons_append,takeWord,if_neg (by omega),if_neg (by simp [h34,h39]),if_neg (by simp [hb]),
      ih hl (by simp; omega)]
    simp

end Word

/-! ## Text behind an alias -/

/-- The tokenizer's last word ends inside a quote. -/
def endsQuoted : ℕ → List UInt8 → Bool
  | 0,_ => false
  | room+1,input =>
    match input.dropWhile isBlank with
    | [] => false
    | c::rest =>
      let word := takeWord [] none (c::rest)
      word.2.1.isSome || endsQuoted room word.2.2

/-- The arguments as they are written behind the text of the alias. -/
def unquotedLine (args : Args) : List UInt8 := args.flatMap (32::·)

section Line
variable {room : ℕ} {c r : List UInt8} {args : Args}

lemma takeWords_append_dropWhile (room : ℕ) (c r : List UInt8) :
    takeWords room (c ++ r) = takeWords room (c.dropWhile isBlank ++ r) := by
  induction c with
  | nil => rfl
  | cons b c ih =>
    by_cases hb : isBlank b = true
    · rw [List.cons_append,takeWords_blank hb,ih,List.dropWhile_cons_of_pos hb]
    · rw [List.dropWhile_cons_of_neg hb]

lemma isBlank_of_dropWhile {b : UInt8} {rest : List UInt8} (h : c.dropWhile isBlank = b::rest) : isBlank b = false := by
  have hne : c.dropWhile isBlank ≠ [] := by simp [h]
  have := List.head_dropWhile_not isBlank hne
  simpa [h] using this

/-- The text that is left behind a word: none if a quote is still open. -/
def afterWord (word : List UInt8 × Option UInt8 × List UInt8) : List UInt8 :=
  if word.2.1.isSome then [] else word.2.2

lemma takeWords_of_dropWhile {b : UInt8} {rest : List UInt8} (hd : c.dropWhile isBlank = b::rest) (room : ℕ) :
    takeWords (room+1) c =
      (takeWord [] none (b::rest)).1::takeWords room (afterWord (takeWord [] none (b::rest))) := by
  simp only [takeWords,hd]
  rfl

lemma length_afterWord_le (word : List UInt8 × Option UInt8 × List UInt8) :
    (afterWord word).length ≤ word.2.2.length := by
  unfold afterWord
  split <;> simp

lemma atBlank_afterWord {l : List UInt8} (h : (takeWord [] none l).1.length ≤ 62) :
    AtBlank (afterWord (takeWord [] none l)) := by
  unfold afterWord
  split
  · exact atBlank_nil
  · next hq => exact (takeWord_rest [] none l).2 (by simpa using hq) h

/-- If the text of the alias leaves no quote open, what stands behind it is parsed on its own. -/
lemma takeWords_append_closed (hq : endsQuoted room c = false) (hroom : (takeWords room c).length < room) :
    takeWords room (c ++ 32::r) = takeWords room c ++ takeWords (room-(takeWords room c).length) r := by
  induction room generalizing c with
  | zero => omega
  | succ room ih =>
    rw [takeWords_append_dropWhile]
    cases hd : c.dropWhile isBlank with
    | nil =>
      have hc : takeWords (room+1) c = [] := by simp only [takeWords,hd]
      rw [hc,List.nil_append,takeWords_blank rfl]
      rfl
    | cons b rest =>
      have hb := isBlank_of_dropWhile hd
      obtain ⟨w,q,l,hw⟩ : ∃ w q l, takeWord [] none (b::rest) = (w,q,l) := ⟨_,_,_,rfl⟩
      simp only [endsQuoted,hd,hw,Bool.or_eq_false_iff] at hq
      obtain rfl : q = none := by simpa using hq.1
      have hc : takeWords (room+1) c = w::takeWords room l := by rw [takeWords_of_dropWhile hd,hw]; rfl
      rw [hc,List.length_cons] at hroom
      rw [hc,List.cons_append,takeWords_cons hb,← List.cons_append,takeWord_append_closed hw,List.length_cons,
        Nat.add_sub_add_right]
      simp only [Option.isSome_none,Bool.false_eq_true,if_false]
      rw [ih hq.2 (by omega),List.cons_append]

/-- If it does, the word is longer than before or nothing comes after it. -/
lemma takeWords_append_open (hq : endsQuoted room c = true) (hargs : args ≠ []) :
    takeWords room (c ++ 32::r) ≠ takeWords room c ++ args := by
  induction room generalizing c with
  | zero => simp [endsQuoted] at hq
  | succ room ih =>
    rw [takeWords_append_dropWhile]
    cases hd : c.dropWhile isBlank with
    | nil => simp [endsQuoted,hd] at hq
    | cons b rest =>
      have hb := isBlank_of_dropWhile hd
      obtain ⟨w,q,l,hw⟩ : ∃ w q l, takeWord [] none (b::rest) = (w,q,l) := ⟨_,_,_,rfl⟩
      rw [List.cons_append,takeWords_cons hb,← List.cons_append]
      cases q with
      | none =>
        have hc : takeWords (room+1) c = w::takeWords room l := by rw [takeWords_of_dropWhile hd,hw]; rfl
        simp only [endsQuoted,hd,hw,Option.isSome_none,Bool.false_or] at hq
        rw [hc,takeWord_append_closed hw,List.cons_append]
        exact fun he => ih hq (List.cons.inj he).2
      | some p =>
        have hc : takeWords (room+1) c = [w] := by
          rw [takeWords_of_dropWhile hd,hw]
          exact congrArg _ (takeWords_nil room)
        rw [hc]
        rcases takeWord_append_open hw r with ⟨hsame,hopen⟩ | hlonger
        · rw [hsame,if_pos hopen,takeWords_nil]
          simpa using hargs.symm
        · intro he
          rw [(List.cons.inj he).1] at hlonger
          exact Nat.lt_irrefl _ hlonger

/-! ## Arguments behind it -/

@[simp] lemma length_unquotedLine_cons (a : List UInt8) (args : Args) :
    (unquotedLine (a::args)).length = a.length+1+(unquotedLine args).length := by
  simp [unquotedLine]
  omega

lemma atBlank_unquotedLine (args : Args) : AtBlank (unquotedLine args) := by
  cases args with
  | nil => exact atBlank_nil
  | cons a args => exact atBlank_cons rfl _

/-- Each word that does not fill its buffer takes a byte more than its length off the text. -/
lemma length_unquotedLine_takeWords (hr : AtBlank r) (hshort : ∀ w ∈ takeWords room r, w.length ≤ 62) :
    (unquotedLine (takeWords room r)).length ≤ r.length := by
  induction room generalizing r with
  | zero => exact Nat.zero_le _
  | succ room ih =>
    cases hd : r.dropWhile isBlank with
    | nil =>
      have hnil : takeWords (room+1) r = [] := by simp only [takeWords,hd]
      rw [hnil]
      exact Nat.zero_le _
    | cons b rest =>
      rw [takeWords_of_dropWhile hd] at hshort ⊢
      obtain ⟨hw,hshort⟩ := List.forall_mem_cons.mp hshort
      have hlen := (takeWord_rest [] none (b::rest)).1
      have hskip : (b::rest).length+1 ≤ r.length := by
        cases r with
        | nil => simp at hd
        | cons d r =>
          rw [List.dropWhile_cons_of_pos (hr d rfl)] at hd
          rw [← hd,List.length_cons]
          exact Nat.succ_le_succ (List.dropWhile_suffix _).length_le
      have hih := ih (atBlank_afterWord hw) hshort
      have hle := length_afterWord_le (takeWord [] none (b::rest))
      rw [length_unquotedLine_cons]
      simp only [List.length_nil] at hlen
      omega

/-- An argument that comes back first, with enough text left for the others, was plain. -/
lemma plain_of_takeWords {a : List UInt8} (ha : a.length ≤ 62) (hquote : 34 ∉ a) (hr : AtBlank r)
    (hshort : ∀ w ∈ args, w.length ≤ 62) (hlen : r.length ≤ (unquotedLine args).length)
    (h : takeWords (room+1) (a ++ r) = a::args) :
    a ≠ [] ∧ (∀ b ∈ a, IsPlain b) ∧ takeWords room r = args := by
  cases hd : (a ++ r).dropWhile isBlank with
  | nil => simp [takeWords,hd] at h
  | cons b rest =>
    rw [takeWords_of_dropWhile hd] at h
    have hle := (takeWord_rest [] none (b::rest)).1
    have hexact := @takeWord_exact [] (b::rest)
    have hl := length_afterWord_le (takeWord [] none (b::rest))
    have hnext := @atBlank_afterWord (b::rest)
    obtain ⟨w,q,l,hw⟩ : ∃ w q l, takeWord [] none (b::rest) = (w,q,l) := ⟨_,_,_,rfl⟩
    rw [hw] at h hle hexact hl hnext
    obtain ⟨(rfl : w = a),hargs⟩ := List.cons.inj h
    have hcount := @length_unquotedLine_takeWords room _ (hnext ha) (by rw [hargs]; exact hshort)
    have hdrop : (b::rest).length ≤ (w ++ r).length := by
      rw [← hd]
      exact (List.dropWhile_suffix _).length_le
    rw [hargs] at hcount
    rw [List.length_append] at hdrop
    simp only [List.length_nil] at hle hexact hl
    -- nothing was skipped and every byte read is in the word
    obtain ⟨read,hread,hsplit,hplain⟩ := hexact (by omega)
    obtain ⟨rfl,rfl⟩ : w = read ∧ q = none := by simpa using hread
    have hsame : b::rest = w ++ r := by
      rw [← hd]
      exact (List.dropWhile_suffix _).eq_of_length (by rw [hd,List.length_append]; omega)
    have hlr : l = r := List.append_cancel_left (hsplit.symm.trans hsame)
    refine ⟨?_,fun c hc => ⟨fun he => hquote (he ▸ hc),hplain c hc⟩,by rw [← hlr]; exact hargs⟩
    rintro rfl
    have hb : isBlank b = false := isBlank_of_dropWhile hd
    rw [List.nil_append] at hsame
    rw [hr b (by simp [← hsame])] at hb
    cases hb

/-- Arguments written without quotes come back exactly when they need none. -/
lemma takeWords_unquotedLine_iff (hargs : ∀ a ∈ args, a.length ≤ 62 ∧ 34 ∉ a) (hroom : args.length ≤ room) :
    takeWords room (unquotedLine args) = args ↔ ∀ a ∈ args, a ≠ [] ∧ ∀ b ∈ a, IsPlain b := by
  induction args generalizing room with
  | nil => simp [unquotedLine]
  | cons a args ih =>
    obtain ⟨room,rfl⟩ : ∃ k, room = k+1 := ⟨room-1,by simp at hroom; omega⟩
    rw [List.forall_mem_cons] at hargs ⊢
    have ih := @ih room hargs.2 (by simpa using hroom)
    have hline : takeWords (room+1) (unquotedLine (a::args)) = takeWords (room+1) (a ++ unquotedLine args) :=
      takeWords_blank rfl _ _
    rw [hline]
    constructor
    · intro h
      obtain ⟨hne,hplain,hrest⟩ := plain_of_takeWords hargs.1.1 hargs.1.2 (atBlank_unquotedLine args)
        (fun w hw => (hargs.2 w hw).1) (Nat.le_refl _) h
      exact ⟨⟨hne,hplain⟩,ih.mp hrest⟩
    · rintro ⟨⟨hne,hplain⟩,hrest⟩
      obtain ⟨b,a,rfl⟩ := List.exists_cons_of_ne_nil hne
      have hword := @takeWord_plain [] _ _ hplain (by have := hargs.1.1; simp at this ⊢; omega)
        (atBlank_unquotedLine args)
      have hb : isBlank b = false := (hplain b (by simp)).2.2
      rw [List.cons_append] at hword ⊢
      rw [takeWords_cons hb,hword]
      exact congrArg _ (ih.mpr hrest)

end Line

/-! ## The line that is typed -/

/-- The quoted arguments behind the first word of a line. -/
def quotedArgs (args : Args) : List UInt8 := args.flatMap fun a => 32::quoted a

/-- A line begins with a text that the tokenizer reads as the word `name`. -/
structure FirstWord (head name : List UInt8) : Prop where
  start : ∃ c rest, head = c::rest ∧ isBlank c = false
  word : takeWord [] none head = (name,none,[])
  noNul : 0 ∉ head

/-- The arguments get to the alias as they are: there is room for them and no NUL in them. -/
def ReachesAlias (args : Args) : Prop := args.length ≤ 15 ∧ ∀ a ∈ args, 0 ∉ a

section Typed
variable {head name r a : List UInt8} {args : Args} {room : ℕ}

lemma FirstWord.start_append (h : FirstWord head name) (r : List UInt8) :
    ∃ c rest, head ++ r = c::rest ∧ isBlank c = false := by
  obtain ⟨c,rest,rfl,hc⟩ := h.start
  exact ⟨c,rest ++ r,rfl,hc⟩

lemma FirstWord.takeWords (h : FirstWord head name) (hr : AtBlank r) :
    takeWords (room+1) (head ++ r) = name::takeWords room r := by
  obtain ⟨c,rest,rfl,hc⟩ := h.start
  have hword : takeWord [] none (c::rest ++ r) = (name,none,r) := by
    rw [takeWord_append,h.word]
    exact takeWord_atBlank hr
  rw [List.cons_append,takeWords_cons hc,← List.cons_append,hword]
  rfl

lemma atBlank_quotedArgs (args : Args) (hr : AtBlank r) : AtBlank (quotedArgs args ++ r) := by
  cases args with
  | nil => exact hr
  | cons a args => exact atBlank_cons rfl _

lemma takeWords_quotedArgs (hargs : ∀ a ∈ args, a.length ≤ 62 ∧ 34 ∉ a) (hr : AtBlank r) :
    takeWords room (quotedArgs args ++ r) = args.take room ++ takeWords (room-args.length) r := by
  induction args generalizing room with
  | nil => simp [quotedArgs]
  | cons a args ih =>
    rw [List.forall_mem_cons] at hargs
    cases room with
    | zero => simp [Shell.takeWords]
    | succ room =>
      have hline : quotedArgs (a::args) ++ r = 32::(quoted a ++ (quotedArgs args ++ r)) := by simp [quotedArgs]
      rw [hline,takeWords_blank rfl,takeWords_quoted hargs.1.2 hargs.1.1 (atBlank_quotedArgs args hr),ih hargs.2]
      simp

/-- An argument whose closing quote is missing. -/
lemma takeWord_unclosed {arg : List UInt8} (ha : 34 ∉ a) (hl : arg.length+a.length ≤ 63) :
    takeWord arg (some 34) a = (arg ++ a,some 34,[]) := by
  induction a generalizing arg with
  | nil => simp [takeWord]
  | cons c a ih =>
    simp only [List.mem_cons,not_or] at ha
    simp only [List.length_cons] at hl
    rw [takeWord,if_neg (by omega),if_neg (Ne.symm ha.1),ih ha.2 (by simp; omega)]
    simp

lemma takeWords_unclosed (ha : 34 ∉ a) (hl : a.length ≤ 63) : takeWords room (32::34::a) = [a].take room := by
  rw [takeWords_blank rfl]
  cases room with
  | zero => rfl
  | succ room =>
    have hword : takeWord [] none (34::a) = (a,some 34,[]) := by
      rw [takeWord,if_neg (by simp),if_pos (.inl rfl),takeWord_unclosed ha (by simpa using hl),List.nil_append]
    rw [takeWords_cons rfl,hword]
    simp

/-- What `trim` leaves of a line: the text up to a NUL without the line ends behind it. -/
lemma trim_of_text {s t u : List UInt8} (htext : text s = t ++ u) (hstart : ∃ c rest, t = c::rest ∧ isBlank c = false)
    (hlast : ∀ b ∈ t.getLast?, isLineEnd b = false) (hends : ∀ b ∈ u, isLineEnd b = true) : trim s = t := by
  obtain ⟨c,rest,ht,hc⟩ := hstart
  have hfront : (t ++ u).dropWhile isBlank = t ++ u := by
    rw [ht,List.cons_append,List.dropWhile_cons_of_neg (by simp [hc])]
  have hback : t.reverse.dropWhile isLineEnd = t.reverse := by
    cases hrev : t.reverse with
    | nil => rfl
    | cons b l =>
      have hb : isLineEnd b = false := hlast b (by rw [← List.head?_reverse,hrev]; rfl)
      rw [List.dropWhile_cons_of_neg (by simp [hb])]
  rw [trim,take_strlen,htext,hfront,List.reverse_append,List.dropWhile_append_of_pos (by simpa using hends),hback,
    List.reverse_reverse]

lemma exists_lineEnds (p : List UInt8) : ∃ t u, p = t ++ u ∧ (∀ b ∈ t.getLast?, isLineEnd b = false) ∧
    ∀ b ∈ u, isLineEnd b = true := by
  induction p using List.reverseRecOn with
  | nil => exact ⟨[],[],rfl,nofun,nofun⟩
  | append_singleton p b ih =>
    by_cases hb : isLineEnd b = true
    · obtain ⟨t,u,rfl,ht,hu⟩ := ih
      refine ⟨t,u ++ [b],by simp,ht,fun c hc => ?_⟩
      obtain hc | hc := List.mem_append.mp hc
      · exact hu c hc
      · rwa [List.mem_singleton.mp hc]
    · exact ⟨p ++ [b],[],by simp,by simpa using hb,nofun⟩

lemma unquotedLine_append (l₁ l₂ : Args) : unquotedLine (l₁ ++ l₂) = unquotedLine l₁ ++ unquotedLine l₂ :=
  List.flatMap_append

lemma length_unquotedLine_take (k : ℕ) (args : Args) :
    (unquotedLine (args.take k)).length+(unquotedLine (args.drop k)).length = (unquotedLine args).length := by
  rw [← List.length_append,← unquotedLine_append,List.take_append_drop]

/-- Without a NUL the line is parsed as it was typed, with room for 15 arguments. -/
lemma FirstWord.words_of_noNul (h : FirstWord head name) (hargs : ∀ a ∈ args, a.length ≤ 62 ∧ 34 ∉ a)
    (hend : args = [] → ∀ b ∈ head.getLast?, isLineEnd b = false) (hnul : ∀ a ∈ args, 0 ∉ a) :
    parseArgs (trim (head ++ quotedArgs args)) = name::args.take 15 := by
  have hno : 0 ∉ head ++ quotedArgs args := by
    simp only [List.mem_append,not_or,quotedArgs,List.mem_flatMap,quoted]
    refine ⟨h.noNul,?_⟩
    rintro ⟨a,ha,h0⟩
    simp [hnul a ha] at h0
  have hlast : ∀ b ∈ (head ++ quotedArgs args).getLast?, isLineEnd b = false := by
    obtain rfl | ⟨l,a,rfl⟩ := List.eq_nil_or_concat args
    · simpa [quotedArgs] using hend rfl
    · have hsplit : head ++ quotedArgs (l.concat a) = head ++ quotedArgs l ++ 32::34::a ++ [34] := by
        simp [quotedArgs,quoted]
      rw [hsplit,List.getLast?_concat]
      simp [isLineEnd,isBlank]
  have htrim : trim (head ++ quotedArgs args) = head ++ (quotedArgs args ++ []) := by
    rw [List.append_nil]
    exact trim_of_text (u := []) (by rw [text_of_noNul hno,List.append_nil]) (h.start_append _) hlast
      fun _ hb => absurd hb List.not_mem_nil
  rw [htrim,parseArgs,h.takeWords (atBlank_quotedArgs args atBlank_nil),takeWords_quotedArgs hargs atBlank_nil]
  simp

/-- A NUL ends the line inside its argument, and the words hold less text than the arguments. -/
lemma FirstWord.words_of_nul (h : FirstWord head name) (hargs : ∀ a ∈ args, a.length ≤ 62 ∧ 34 ∉ a)
    (hnul : ¬ ∀ a ∈ args, 0 ∉ a) : ∃ words, parseArgs (trim (head ++ quotedArgs args)) = name::words ∧
      (unquotedLine words).length < (unquotedLine args).length := by
  obtain ⟨pre,a,post,rfl,ha,hpre⟩ : ∃ pre a post, args = pre ++ a::post ∧ 0 ∈ a ∧ ∀ x ∈ pre, (0 : UInt8) ∉ x := by
    cases hfind : args.find? (fun a => decide (0 ∈ a)) with
    | none => exact absurd (by simpa using hfind) hnul
    | some a =>
      obtain ⟨ha,pre,post,he,hpre⟩ := List.find?_eq_some_iff_append.mp hfind
      exact ⟨pre,a,post,he,by simpa using ha,by simpa using hpre⟩
  obtain ⟨p,rest,rfl,hp⟩ := List.eq_append_cons_of_mem ha
  obtain ⟨t,u,rfl,hlast,hends⟩ := exists_lineEnds p
  have hcut := hargs (t ++ u ++ 0::rest) (by simp)
  simp only [List.length_append,List.mem_append,not_or] at hcut hp
  have htext : text (head ++ quotedArgs (pre ++ (t ++ u ++ 0::rest)::post)) =
      head ++ (quotedArgs pre ++ 32::34::t) ++ u := by
    have hsplit : head ++ quotedArgs (pre ++ (t ++ u ++ 0::rest)::post) =
        (head ++ (quotedArgs pre ++ 32::34::t) ++ u) ++ 0::(rest ++ 34::quotedArgs post) := by
      simp [quotedArgs,quoted]
    rw [hsplit]
    apply text_append_nul
    simp only [List.mem_append,not_or,quotedArgs,List.mem_flatMap,quoted]
    refine ⟨⟨h.noNul,?_,by simpa using hp.1⟩,hp.2⟩
    rintro ⟨x,hx,h0⟩
    simp [hpre x hx] at h0
  have hlast : ∀ b ∈ (head ++ (quotedArgs pre ++ 32::34::t)).getLast?, isLineEnd b = false := by
    cases t with
    | nil => simp [isLineEnd,isBlank]
    | cons c t => simpa using hlast
  have hblank : AtBlank (32::34::t) := atBlank_cons rfl _
  refine ⟨(pre ++ [t]).take 15,?_,?_⟩
  · rw [trim_of_text htext (h.start_append _) hlast hends,parseArgs,h.takeWords (atBlank_quotedArgs pre hblank),
      takeWords_quotedArgs (fun x hx => hargs x (by simp [hx])) hblank,takeWords_unclosed hcut.2.1.1 (by omega),
      List.take_append]
  · have hle : (unquotedLine ((pre ++ [t]).take 15)).length ≤ (unquotedLine (pre ++ [t])).length :=
      (length_unquotedLine_take 15 (pre ++ [t])).symm ▸ Nat.le_add_right _ _
    refine hle.trans_lt ?_
    have hnil : (unquotedLine []).length = 0 := rfl
    simp only [unquotedLine_append,List.length_append,length_unquotedLine_cons,List.length_cons,hnil]
    omega

/-- The words of the line are the arguments, or they hold less text. -/
lemma FirstWord.words (h : FirstWord head name) (hargs : ∀ a ∈ args, a.length ≤ 62 ∧ 34 ∉ a)
    (hend : args = [] → ∀ b ∈ head.getLast?, isLineEnd b = false) :
    ∃ words, parseArgs (trim (head ++ quotedArgs args)) = name::words ∧
      (ReachesAlias args ∧ words = args ∨
        ¬ ReachesAlias args ∧ (unquotedLine words).length < (unquotedLine args).length) := by
  by_cases hnul : ∀ a ∈ args, 0 ∉ a
  · refine ⟨args.take 15,h.words_of_noNul hargs hend hnul,?_⟩
    by_cases hlong : args.length ≤ 15
    · exact .inl ⟨⟨hlong,hnul⟩,List.take_of_length_le hlong⟩
    · refine .inr ⟨fun hr => hlong hr.1,?_⟩
      obtain ⟨a,rest,hrest⟩ := List.exists_cons_of_ne_nil (l := args.drop 15) (by simpa using hlong)
      have := length_unquotedLine_take 15 args
      rw [hrest,length_unquotedLine_cons] at this
      omega
  · obtain ⟨words,hparse,hless⟩ := h.words_of_nul hargs hnul
    exact ⟨words,hparse,.inr ⟨fun hr => hnul hr.2,hless⟩⟩

/-- While the expanded text fits, nothing of it is cut. -/
lemma foldl_appendArg (words : Args) (buf : List UInt8) (h : buf.length+(unquotedLine words).length ≤ 255) :
    words.foldl appendArg buf = buf ++ unquotedLine words := by
  induction words generalizing buf with
  | nil => simp [unquotedLine]
  | cons w words ih =>
    rw [length_unquotedLine_cons] at h
    have hstep : appendArg buf w = buf ++ 32::w := by
      simp only [appendArg]
      rw [if_pos (by omega),Nat.min_eq_left (by simp; omega),List.take_length]
      simp
    rw [List.foldl_cons,hstep,ih _ (by simp; omega)]
    simp [unquotedLine]

end Typed

/-! ## Expansion -/

/-- An argument with bytes that all stand for themselves. -/
def NeedsNoQuotes (a : List UInt8) : Prop := a ≠ [] ∧ ∀ b ∈ a, b ≠ 0 ∧ IsPlain b

instance (a : List UInt8) : Decidable (NeedsNoQuotes a) := inferInstanceAs (Decidable (_ ∧ _))

lemma needsNoQuotes_iff (args : Args) : (args.length ≤ 15 ∧ ∀ a ∈ args, NeedsNoQuotes a) ↔
    ReachesAlias args ∧ ∀ a ∈ args, a ≠ [] ∧ ∀ b ∈ a, IsPlain b := by
  constructor
  · rintro ⟨hlong,hplain⟩
    exact ⟨⟨hlong,fun a ha h0 => ((hplain a ha).2 0 h0).1 rfl⟩,
      fun a ha => ⟨(hplain a ha).1,fun b hb => ((hplain a ha).2 b hb).2⟩⟩
  · rintro ⟨⟨hlong,hnul⟩,hplain⟩
    exact ⟨hlong,fun a ha => ⟨(hplain a ha).1,fun b hb => ⟨fun h0 => hnul a ha (h0 ▸ hb),(hplain a ha).2 b hb⟩⟩⟩

lemma expansion_iff {c : List UInt8} {args words : Args} (hargs : ∀ a ∈ args, a.length ≤ 62 ∧ 34 ∉ a)
    (hcount : (parseArgs c).length+args.length ≤ 16)
    (hwords : ReachesAlias args ∧ words = args ∨
      ¬ ReachesAlias args ∧ (unquotedLine words).length < (unquotedLine args).length) :
    parseArgs (c ++ unquotedLine words) = parseArgs c ++ args ↔
      args = [] ∨ endsQuoted 16 c = false ∧ args.length ≤ 15 ∧ ∀ a ∈ args, NeedsNoQuotes a := by
  by_cases hnil : args = []
  · subst hnil
    obtain ⟨-,rfl⟩ | ⟨-,hless⟩ := hwords
    · simp [unquotedLine]
    · simp [unquotedLine] at hless
  rw [or_iff_right hnil]
  have hroom : (parseArgs c).length < 16 := by
    have := List.length_pos_iff.mpr hnil
    omega
  rw [needsNoQuotes_iff]
  cases words with
  | nil =>
    refine iff_of_false (by simpa [unquotedLine] using hnil) ?_
    rintro ⟨-,hr,-⟩
    obtain ⟨-,he⟩ | ⟨hn,-⟩ := hwords
    · exact hnil he.symm
    · exact hn hr
  | cons w words =>
    have hline : unquotedLine (w::words) = 32::(w ++ unquotedLine words) := rfl
    cases hq : endsQuoted 16 c with
    | true =>
      rw [hline]
      exact iff_of_false (takeWords_append_open hq hnil) (by simp)
    | false =>
      have hsplit : parseArgs (c ++ unquotedLine (w::words)) =
          parseArgs c ++ takeWords (16-(parseArgs c).length) (unquotedLine (w::words)) := by
        rw [hline,takeWords_blank rfl]
        exact takeWords_append_closed hq hroom
      rw [hsplit,List.append_cancel_left_eq]
      obtain ⟨hr,he⟩ | ⟨hn,hless⟩ := hwords
      · rw [he,takeWords_unquotedLine_iff hargs (by omega)]
        simp [hr]
      · refine iff_of_false (fun he => ?_) (fun h => hn h.2.1)
        have := @length_unquotedLine_takeWords (16-(parseArgs c).length) _ (atBlank_unquotedLine (w::words))
          (by rw [he]; exact fun a ha => (hargs a ha).1)
        rw [he] at this
        omega

/-- Alias expansion keeps the arguments of a line exactly when there are none and the alias has a word,
or when the text of the alias leaves no quote open and none of at most 15 arguments needs its quotes. -/
theorem alias_keeps_arguments_iff (s : ShellState) (i : Fin 16) (head name : List UInt8) (args : Args)
    (hfirst : FirstWord head name) (hend : args = [] → ∀ b ∈ head.getLast?, isLineEnd b = false)
    (halias : resolveAlias s name = some i) (hargs : ∀ a ∈ args, a.length ≤ 62 ∧ 34 ∉ a)
    (hcount : (parseArgs (s.aliases.slots i).text ++ args).length ≤ 16)
    (hlen : ((s.aliases.slots i).text ++ unquotedLine args).length ≤ 255) :
    dispatched (s,head ++ quotedArgs args) = some (parseArgs (s.aliases.slots i).text ++ args) ↔
      args = [] ∧ parseArgs (s.aliases.slots i).text ≠ [] ∨
      args ≠ [] ∧ endsQuoted 16 (s.aliases.slots i).text = false ∧ args.length ≤ 15 ∧ ∀ a ∈ args, NeedsNoQuotes a := by
  obtain ⟨words,hparse,hwords⟩ := hfirst.words hargs hend
  rw [List.length_append] at hcount hlen
  have hle : (unquotedLine words).length ≤ (unquotedLine args).length := by
    obtain ⟨-,rfl⟩ | ⟨-,hless⟩ := hwords
    · exact Nat.le_refl _
    · exact hless.le
  have hexp : expandAlias (s.aliases.slots i) (name::words) =
      parseArgs ((s.aliases.slots i).text ++ unquotedLine words) := by
    rw [expandAlias,List.tail_cons,foldl_appendArg _ _ (by omega)]
  have hcall : dispatched (s,head ++ quotedArgs args) = some (parseArgs (s.aliases.slots i).text ++ args) ↔
      parseArgs ((s.aliases.slots i).text ++ unquotedLine words) = parseArgs (s.aliases.slots i).text ++ args ∧
        parseArgs (s.aliases.slots i).text ++ args ≠ [] := by
    simp only [dispatched,hparse,halias,hexp]
    split_ifs with hempty
    · simp [hempty]
    · rw [Option.some_inj]
      exact ⟨fun he => ⟨he,he ▸ hempty⟩,fun h => h.1⟩
  rw [hcall,expansion_iff hargs hcount hwords]
  by_cases hnil : args = []
  · simp [hnil]
  · simp [hnil]

/-- `ll` for `ls /etc`. -/
def llState : ShellState := (defineAlias bootState (bytes "ll") [bytes "ls",bytes "/etc"]).1

lemma llState_resolves : resolveAlias llState (bytes "ll") = some 0 := by decide +kernel

lemma firstWord_ll : FirstWord (bytes "ll") (bytes "ll") :=
  ⟨⟨108,[108],by decide,by decide⟩,by decide,by decide⟩

theorem alias_keeps_arguments_iff_plain :
    dispatched (llState,bytes "ll" ++ quotedArgs [bytes "/tmp"]) = some [bytes "ls",bytes "/etc",bytes "/tmp"] :=
  (alias_keeps_arguments_iff llState 0 (bytes "ll") (bytes "ll") [bytes "/tmp"] firstWord_ll (by decide) llState_resolves
    (by decide) (by decide +kernel) (by decide +kernel)).mpr (.inr (by decide +kernel))

/-- `ll "my dir"` looks for `my` and `dir`. -/
theorem alias_splits_argument :
    dispatched (llState,bytes "ll" ++ quotedArgs [bytes "my dir"]) =
      some [bytes "ls",bytes "/etc",bytes "my",bytes "dir"] ∧
    dispatched (llState,bytes "ll" ++ quotedArgs [bytes "my dir"]) ≠
      some (parseArgs (llState.aliases.slots 0).text ++ [bytes "my dir"]) := by
  decide +kernel

end Linuxab.Shell
