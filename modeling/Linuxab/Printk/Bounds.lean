import Linuxab.Printk.Format
import Mathlib.Algebra.Order.Group.Nat

/-! The format string read as a list of items, each with its argument. `printk` keeps to its buffer and to
the format exactly if no `%x` or `%p` comes with 1021 or 1022 bytes in the buffer, the format is not the
single byte `<`, and no `%` that is reached ends it. -/
namespace Linuxab.Printk
open Linuxab.Base

section Items

inductive Item
  | lit (c : UInt8)
  | str (s : CString)
  | zeroX
  | dangling

def itemOf (c : UInt8) (args : List Arg) : Option (Item × List Arg) :=
  if c = 'd'.toUInt8 then
    match args with
    | .int val::args => some (.lit (lastDigit val),args)
    | _ => none
  else if c = 's'.toUInt8 then
    match args with
    | .str s::args => some (.str s,args)
    | _ => none
  else if c = 'x'.toUInt8 then
    match args with
    | .uint _::args => some (.zeroX,args)
    | _ => none
  else if c = 'p'.toUInt8 then
    match args with
    | .ptr _::args => some (.zeroX,args)
    | _ => none
  else some (.lit c,args)

/-- The items of a format, if the arguments are of the kinds that it requests. -/
def items : List UInt8 → List Arg → Option (List Item)
  | [],_ => some []
  | c::rest,args =>
    if c = '%'.toUInt8 then
      match rest with
      | [] => some [.dangling]
      | d::rest => (itemOf d args).bind fun (it,args) => (items rest args).map (it::·)
    else (items rest args).map (.lit c::·)

/-- What the item adds to the buffer. -/
def Item.render : Item → List UInt8
  | .lit c => [c]
  | .str s => s.bytes
  | .zeroX => ['0'.toUInt8,'x'.toUInt8,'0'.toUInt8]
  | .dangling => []

def Item.emit (buf : List UInt8) : Item → Except Fault (List UInt8)
  | .lit c => put buf c
  | .str s => putString s.bytes buf
  | .zeroX => putZeroX buf
  | .dangling => do
    let _ ← put buf 0
    .error .formatRead

def emitAll : List Item → List UInt8 → Except Fault (List UInt8)
  | [],buf => .ok buf
  | it::its,buf => if 1023 ≤ buf.length then .ok buf else do emitAll its (← it.emit buf)

lemma convert_eq {c : UInt8} {args args' : List Arg} {it : Item} (h : itemOf c args = some (it,args'))
    (buf : List UInt8) : convert c args buf = (args',·) <$> it.emit buf := by
  simp only [itemOf] at h
  split_ifs at h with hd hs hx hp
  · split at h <;> cases h
    subst hd
    rfl
  · split at h <;> cases h
    subst hs
    rfl
  · split at h <;> cases h
    subst hx
    rfl
  · split at h <;> cases h
    subst hp
    rfl
  · cases h
    by_cases hpct : c = '%'.toUInt8
    · subst hpct
      rfl
    · simp only [convert,hd,hs,hx,hp,hpct,if_false,Item.emit]

/-- The NUL is printed like any other byte. -/
lemma convert_nul (args : List Arg) (buf : List UInt8) : convert 0 args buf = (args,·) <$> put buf 0 := rfl

lemma map_bind_snd {α β γ ε : Type} (a : α) (x : Except ε β) (f : α × β → Except ε γ) :
    ((a,·) <$> x) >>= f = x >>= fun b => f (a,b) := by
  cases x <;> rfl

lemma items_cons {c : UInt8} (hc : c ≠ '%'.toUInt8) (rest : List UInt8) (args : List Arg) :
    items (c::rest) args = (items rest args).map (.lit c::·) := by
  rw [items.eq_def]
  simp only [hc,if_false]

lemma printkLoop_cons {c : UInt8} (hc : c ≠ '%'.toUInt8) (rest : List UInt8) (args : List Arg) (buf : List UInt8) :
    printkLoop (c::rest) args buf
      = if 1023 ≤ buf.length then .ok buf else put buf c >>= printkLoop rest args := by
  rw [printkLoop.eq_def]
  simp only [hc,if_false]

/-- The loop over the format prints its items. -/
lemma printkLoop_eq {rest : List UInt8} {args : List Arg} {its : List Item} (h : items rest args = some its)
    (buf : List UInt8) : printkLoop rest args buf = emitAll its buf := by
  induction rest, args using items.induct generalizing its buf with
  | case1 args =>
    cases h
    rfl
  | case2 args =>
    obtain rfl : [.dangling] = its := Option.some.inj h
    simp only [printkLoop,emitAll,if_true,convert_nul,Item.emit]
    split
    · rfl
    · cases put buf 0 <;> rfl
  | case3 args d rest ih =>
    simp only [items,if_true,Option.bind_eq_some_iff,Option.map_eq_some_iff,Prod.exists] at h
    obtain ⟨it,args',hit,its',hits,rfl⟩ := h
    rw [printkLoop,emitAll]
    simp only [if_true,convert_eq hit,map_bind_snd,ih args' hits]
  | case4 c rest args hc ih =>
    rw [items_cons hc,Option.map_eq_some_iff] at h
    obtain ⟨its',hits,rfl⟩ := h
    have hloop : printkLoop rest args = emitAll its' := funext (ih hits)
    simp only [printkLoop_cons hc,hloop,emitAll,Item.emit]

end Items

section Fits
variable {buf : List UInt8}

/-- The item can be printed with `len` bytes in the buffer. -/
def Item.Fits (len : ℕ) : Item → Prop
  | .zeroX => len ≤ 1020
  | .dangling => False
  | _ => True

/-- Every item that comes with fewer than 1023 bytes in the buffer can be printed. -/
def Fits : ℕ → List Item → Prop
  | _,[] => True
  | len,it::its => len < 1023 → it.Fits len ∧ Fits (len+it.render.length) its

lemma fits_of_le {len : ℕ} (h : 1023 ≤ len) (its : List Item) : Fits len its := by
  cases its with
  | nil => trivial
  | cons it its => exact fun hlt => absurd h hlt.not_ge

lemma fits_min {len : ℕ} {its : List Item} : Fits (min len 1023) its ↔ Fits len its := by
  rcases le_total len 1023 with h | h
  · rw [min_eq_left h]
  · rw [min_eq_right h]
    exact iff_of_true (fits_of_le (le_refl _) its) (fits_of_le h its)

lemma put_eq_ok (h : buf.length < 1024) (c : UInt8) : put buf c = .ok (buf ++ [c]) := if_pos h

lemma putString_eq_ok (s : List UInt8) (h : buf.length ≤ 1023) : putString s buf = .ok ((buf ++ s).take 1023) := by
  induction s generalizing buf with
  | nil => simp [putString,List.take_of_length_le h]
  | cons c s ih =>
    rw [putString]
    by_cases hlt : buf.length < 1023
    · rw [if_pos hlt,put_eq_ok (by omega)]
      change putString s (buf ++ [c]) = _
      rw [ih (by simp; omega),List.append_assoc,List.singleton_append]
    · have hlen : buf.length = 1023 := by omega
      rw [if_neg hlt,List.take_append_of_le_length hlen.ge,List.take_of_length_le h]

lemma putZeroX_eq_ok (h : buf.length ≤ 1021) :
    putZeroX buf = .ok (buf ++ ['0'.toUInt8,'x'.toUInt8,'0'.toUInt8]) := by
  rw [putZeroX,put_eq_ok (by omega)]
  change (put (buf ++ [_]) _ >>= _) = _
  rw [put_eq_ok (by simp; omega)]
  change put (buf ++ [_] ++ [_]) _ = _
  rw [put_eq_ok (by simp; omega)]
  simp

/-- An item that can be printed is, up to the end of the buffer. -/
lemma Item.emit_of_fits {it : Item} (h : buf.length < 1023) (hfits : it.Fits buf.length) :
    it.emit buf = .ok ((buf ++ it.render).take 1023) := by
  cases it with
  | lit c =>
    rw [Item.emit,put_eq_ok (by omega),Item.render,List.take_of_length_le (by simp; omega)]
  | str s => exact putString_eq_ok s.bytes h.le
  | zeroX =>
    simp only [Item.Fits] at hfits
    rw [Item.emit,putZeroX_eq_ok (by omega),Item.render,List.take_of_length_le (by simp; omega)]
  | dangling => exact hfits.elim

/-- One that cannot stops the run, or fills the buffer so that the NUL behind the text has no place. -/
lemma Item.emit_of_not_fits {it : Item} (h : buf.length < 1023) (hfits : ¬ it.Fits buf.length) {buf' : List UInt8}
    (hemit : it.emit buf = .ok buf') : buf'.length = 1024 := by
  cases it with
  | lit c => exact absurd trivial hfits
  | str s => exact absurd trivial hfits
  | zeroX =>
    simp only [Item.Fits,not_le] at hfits
    rcases (show buf.length = 1021 ∨ buf.length = 1022 by omega) with hlen | hlen
    · rw [Item.emit,putZeroX_eq_ok hlen.le] at hemit
      cases hemit
      simp [hlen]
    · simp [Item.emit,putZeroX,put,hlen,bind,Except.bind] at hemit
  | dangling =>
    rw [Item.emit,put_eq_ok (by omega)] at hemit
    cases hemit

lemma take_append_take {α : Type} (n : ℕ) (l l' : List α) : (l.take n ++ l').take n = (l ++ l').take n := by
  rcases le_total l.length n with h | h
  · rw [List.take_of_length_le h]
  · have hlen : (l.take n).length = n := by simpa using h
    rw [List.take_append_of_le_length hlen.ge,List.take_take,min_self,List.take_append_of_le_length h]

/-- The whole text, up to the end of the buffer. -/
lemma emitAll_of_fits {its : List Item} (h : buf.length ≤ 1023) (hfits : Fits buf.length its) :
    emitAll its buf = .ok ((buf ++ its.flatMap Item.render).take 1023) := by
  induction its generalizing buf with
  | nil => simp [emitAll,List.take_of_length_le h]
  | cons it its ih =>
    rw [emitAll]
    by_cases hfull : 1023 ≤ buf.length
    · rw [if_pos hfull,List.take_append_of_le_length hfull,List.take_of_length_le h]
    · obtain ⟨hit,hits⟩ := hfits (by omega)
      rw [if_neg hfull,it.emit_of_fits (by omega) hit]
      change emitAll its _ = _
      rw [ih (by simp) (by simpa [min_comm] using fits_min.mpr hits),take_append_take]
      simp

lemma emitAll_of_not_fits {its : List Item} (h : buf.length ≤ 1023) (hfits : ¬ Fits buf.length its) {buf' : List UInt8}
    (hemit : emitAll its buf = .ok buf') : buf'.length = 1024 := by
  induction its generalizing buf with
  | nil => exact absurd trivial hfits
  | cons it its ih =>
    simp only [Fits,Classical.not_imp] at hfits
    obtain ⟨hlt,hfits⟩ := hfits
    rw [emitAll,if_neg hlt.not_ge] at hemit
    obtain ⟨mid,hmid,hemit⟩ := bind_eq_ok.mp hemit
    by_cases hit : it.Fits buf.length
    · rw [it.emit_of_fits hlt hit] at hmid
      cases hmid
      refine ih (by simp) ?_ hemit
      intro hmin
      exact hfits ⟨hit,fits_min.mp (by simpa [min_comm] using hmin)⟩
    · have hfull := it.emit_of_not_fits hlt hit hmid
      cases its with
      | nil =>
        cases hemit
        exact hfull
      | cons it' its =>
        rw [emitAll,if_pos (by omega)] at hemit
        cases hemit
        exact hfull

end Fits

section Printk

/-- The format without a valid loglevel in front. -/
def body : List UInt8 → List UInt8
  | c₀::c₁::c₂::rest =>
    if c₀ = '<'.toUInt8 ∧ c₂ = '>'.toUInt8 ∧ '0'.toUInt8 ≤ c₁ ∧ c₁ ≤ '7'.toUInt8 then rest else c₀::c₁::c₂::rest
  | fmt => fmt

lemma parseLoglevel_eq (c₁ : UInt8) (rest : List UInt8) :
    parseLoglevel ('<'.toUInt8 :: c₁ :: '>'.toUInt8 :: rest)
      = .ok (if '0'.toUInt8 ≤ c₁ ∧ c₁ ≤ '7'.toUInt8 then (c₁.toNat : ℤ)-48 else -1) := by
  by_cases hc : '0'.toUInt8 ≤ c₁ ∧ c₁ ≤ '7'.toUInt8
  · simp [parseLoglevel,readFmt,bind,Except.bind,pure,Except.pure,hc]
  · simp [parseLoglevel,readFmt,bind,Except.bind,pure,Except.pure,hc]

/-- Only the format `"<"` is read behind its end here. -/
lemma levelOf_eq (default : ℤ) {fmt : List UInt8} (h : fmt ≠ ['<'.toUInt8]) :
    ∃ level, levelOf default fmt = .ok (level,body fmt) := by
  match fmt,h with
  | [],_ => exact ⟨default,rfl⟩
  | [c],h =>
    have hc : c ≠ '<'.toUInt8 := fun hc => h (by rw [hc])
    exact ⟨default,by simp [levelOf,readFmt,hc,body,bind,Except.bind,pure,Except.pure]⟩
  | [c,d],_ =>
    refine ⟨default,?_⟩
    by_cases hc : c = '<'.toUInt8
    · simp [levelOf,readFmt,hc,body,bind,Except.bind,pure,Except.pure,show (0 : UInt8) ≠ '>'.toUInt8 by decide]
    · simp [levelOf,readFmt,hc,body,bind,Except.bind,pure,Except.pure]
  | c₀::c₁::c₂::rest,_ =>
    by_cases hmark : c₀ = '<'.toUInt8 ∧ c₂ = '>'.toUInt8
    · obtain ⟨rfl,rfl⟩ := hmark
      by_cases hc : '0'.toUInt8 ≤ c₁ ∧ c₁ ≤ '7'.toUInt8
      · have hle : (48 : ℤ) ≤ c₁.toNat := by
          have := UInt8.le_iff_toNat_le.mp hc.1
          have h0 : '0'.toUInt8.toNat = 48 := by decide
          omega
        exact ⟨(c₁.toNat : ℤ)-48,
          by simp [levelOf,readFmt,parseLoglevel_eq,body,hc,hle,bind,Except.bind,pure,Except.pure]⟩
      · exact ⟨default,by simp [levelOf,readFmt,parseLoglevel_eq,body,hc,bind,Except.bind,pure,Except.pure]⟩
    · refine ⟨default,?_⟩
      by_cases hc : c₀ = '<'.toUInt8
      · simp_all [levelOf,readFmt,body,bind,Except.bind,pure,Except.pure]
      · simp_all [levelOf,readFmt,body,bind,Except.bind,pure,Except.pure]

lemma levelOf_lt (default : ℤ) : levelOf default ['<'.toUInt8] = .error .formatRead := rfl

/-- `printk` prints the items of its format behind the loglevel. -/
lemma printk_eq (s : LogState) (fmt : CString) (args : List Arg) (its : List Item)
    (hfmt : fmt.bytes ≠ ['<'.toUInt8]) (h : items (body fmt.bytes) args = some its) :
    ∃ level, printk s fmt args = (do
      let buf ← emitAll its []
      let _ ← put buf 0
      return (buf.length,s.emit level buf)) := by
  obtain ⟨level,hlevel⟩ := levelOf_eq s.defaultMessageLoglevel hfmt
  exact ⟨level,by rw [printk,hlevel]; simp only [bind,Except.bind,printkLoop_eq h]⟩

/-- `printk` stays inside its buffer and its format exactly if the format is not the single byte `<` and
every item that it reaches fits. -/
theorem printk_bounded_iff (s : LogState) (fmt : CString) (args : List Arg) (its : List Item)
    (h : items (body fmt.bytes) args = some its) :
    (∃ result, printk s fmt args = .ok result) ↔ fmt.bytes ≠ ['<'.toUInt8] ∧ Fits 0 its := by
  by_cases hfmt : fmt.bytes = ['<'.toUInt8]
  · refine iff_of_false ?_ fun hsafe => hsafe.1 hfmt
    rintro ⟨result,hresult⟩
    rw [printk,hfmt,levelOf_lt] at hresult
    cases hresult
  · obtain ⟨level,hprintk⟩ := printk_eq s fmt args its hfmt h
    rw [hprintk]
    constructor
    · rintro ⟨result,hresult⟩
      refine ⟨hfmt,?_⟩
      by_contra hfits
      obtain ⟨buf,hbuf,hresult⟩ := bind_eq_ok.mp hresult
      have hfull := emitAll_of_not_fits (show ([] : List UInt8).length ≤ 1023 by simp) hfits hbuf
      obtain ⟨_,hput,-⟩ := bind_eq_ok.mp hresult
      simp [put,hfull] at hput
    · rintro ⟨-,hfits⟩
      rw [emitAll_of_fits (show ([] : List UInt8).length ≤ 1023 by simp) hfits]
      change ∃ result, (put _ 0 >>= _) = _
      rw [put_eq_ok (by simp)]
      exact ⟨_,rfl⟩

theorem printk_bounded_iff_hex :
    ∃ result, printk .boot ⟨['<','6','>','%','x'].map Char.toUInt8,by decide⟩ [.uint 7] = .ok result :=
  (printk_bounded_iff .boot ⟨['<','6','>','%','x'].map Char.toUInt8,by decide⟩ [.uint 7] [.zeroX] rfl).mpr
    ⟨by decide,fun _ => ⟨Nat.zero_le _,trivial⟩⟩

/-- A string of 1022 bytes. -/
def longString : CString := ⟨List.replicate 1022 'a'.toUInt8,fun h => absurd (List.eq_of_mem_replicate h) (by decide)⟩

lemma emitAll_long {s : CString} (hlen : s.bytes.length = 1022) :
    emitAll [.str s,.zeroX] [] = .error .bufferWrite := by
  rw [emitAll,if_neg (by simp),Item.emit,putString_eq_ok _ (by simp),List.nil_append,
    List.take_of_length_le (by omega)]
  change emitAll [.zeroX] s.bytes = _
  rw [emitAll,if_neg (by omega)]
  simp [Item.emit,putZeroX,put,hlen,bind,Except.bind]

/-- `"%"` and `"<"` are read behind their NUL, and `"%s%x"` with a string of 1022 bytes writes behind
the buffer. -/
theorem printk_out_of_bounds :
    printk .boot ⟨['%'.toUInt8],by decide⟩ [] = .error .formatRead ∧
      printk .boot ⟨['<'.toUInt8],by decide⟩ [] = .error .formatRead ∧
      printk .boot ⟨['%','s','%','x'].map Char.toUInt8,by decide⟩ [.str longString,.uint 0] = .error .bufferWrite := by
  refine ⟨rfl,rfl,?_⟩
  obtain ⟨level,hprintk⟩ := printk_eq .boot ⟨['%','s','%','x'].map Char.toUInt8,by decide⟩
    [.str longString,.uint 0] [.str longString,.zeroX] (by decide) rfl
  rw [hprintk,emitAll_long List.length_replicate]
  rfl

end Printk
end Linuxab.Printk
