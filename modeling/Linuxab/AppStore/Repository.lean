import Linuxab.AppStore.Events
import Linuxab.Base.QuotedText

/-!
The documents of the repository, JSON arrays of flat objects, and the object that `fetch_repo` takes each
field of an entry from.
-/

namespace Linuxab.AppStore
open Linuxab.Base

/-! ## Documents -/

inductive Key where
  | name | description | version | url | sizeKb | type
  deriving DecidableEq, Repr

def Key.word : Key → String
  | name => "name"
  | description => "description"
  | version => "version"
  | url => "url"
  | sizeKb => "size_kb"
  | type => "type"

def Key.all : List Key := [.name,.description,.version,.url,.sizeKb,.type]

theorem Key.mem_all (k : Key) : k ∈ all := by cases k <;> decide

theorem Key.nodup_all : all.Nodup := by decide

def isBlank (c : Char) : Bool := c == ' ' || c == '\t' || c == '\n' || c == '\r'

abbrev Blank := { s : List Char // ∀ c ∈ s, isBlank c = true }

def isNumber (c : Char) : Bool := c == '-' || c.isDigit

/-- Digits, with or without a sign. -/
def IsInteger (s : List Char) : Prop :=
  ∃ digits, digits ≠ [] ∧ (∀ c ∈ digits, c.isDigit = true) ∧ (s = digits ∨ s = '-'::digits)

def natValue (digits : List Char) : ℕ := digits.foldl (fun n c => 10*n+(c.toNat-48)) 0

def intValue : List Char → Int32
  | '-'::digits => -Int32.ofNat (natValue digits)
  | digits => Int32.ofNat (natValue digits)

/-- The blanks of a member. -/
structure Spacing where
  front : Blank
  beforeColon : Blank
  afterColon : Blank
  behind : Blank

/-- A flat object: its six members in any order, the values as they are written, strings without their
quotes. -/
structure Object where
  order : List Key
  raw : Key → List Char
  spacing : Key → Spacing
  front : Blank
  behind : Blank
  order_perm : order.Perm Key.all
  quote_not_mem : ∀ k, '"' ∉ raw k
  nul_not_mem : ∀ k, nul ∉ raw k
  sizeKb_integer : IsInteger (raw .sizeKb)

structure Document where
  objects : List Object
  front : Blank
  inner : Blank
  behind : Blank

def comma : Piece := .gap [',']

def separated : List (List Piece) → List Piece
  | [] => []
  | xs::xss => xs ++ xss.flatMap (comma::·)

namespace Object
variable (o : Object)

def literal (k : Key) : Piece := if k = .sizeKb then .gap (o.raw k) else .quoted (o.raw k)

/-- A member, from its key on. -/
def memberFrom (k : Key) : List Piece :=
  [.quoted k.word.toList,.gap ((o.spacing k).beforeColon.val ++ ':'::(o.spacing k).afterColon.val),o.literal k,
    .gap (o.spacing k).behind.val]

def member (k : Key) : List Piece := .gap (o.spacing k).front.val::o.memberFrom k

def pieces : List Piece :=
  .gap (o.front.val ++ ['\x7b'])::(separated (o.order.map o.member) ++ [.gap ('\x7d'::o.behind.val)])

/-- The keys in front of `name`. -/
def before : List Key := o.order.takeWhile (· ≠ .name)

end Object

def Document.pieces (d : Document) : List Piece :=
  .gap (d.front.val ++ '['::d.inner.val)::(separated (d.objects.map Object.pieces) ++ [.gap (']'::d.behind.val)])

def Document.text (d : Document) : List Char := pieceText d.pieces

/-! ## Fields -/

inductive Field where
  | text (s : String)
  | kb (n : Int32)
  | game (b : Bool)
  deriving DecidableEq, Repr

/-- What an entry keeps of the answers of the helpers for a key. -/
def Key.field (k : Key) (str : Bool × String) (n : Int32) : Field :=
  match k with
  | sizeKb => .kb n
  | type => .game (str.1 && str.2 == "game")
  | _ => .text str.2

def App.field (app : App) : Key → Field
  | .name => .text app.name
  | .description => .text app.desc
  | .version => .text app.version
  | .url => .text app.url
  | .sizeKb => .kb app.sizeKb
  | .type => .game app.isGame

def Object.field (o : Object) (k : Key) : Field := k.field (true,String.ofList (o.raw k)) (intValue (o.raw k))

def Env.field (env : Env) (p : List Char) (k : Key) : Field :=
  k.field (env.jsonFindStr p k.word) (env.jsonFindInt p k.word)

/-! ## The helpers -/

def colon? (t : List Char) : Option (List Char) :=
  match t.dropWhile isBlank with
  | ':'::t => some (t.dropWhile isBlank)
  | _ => none

def string? : List Char → Option String
  | '"'::t => if '"' ∈ t then some (String.ofList (t.takeWhile (· != '"'))) else none
  | _ => none

def integer? (t : List Char) : Option Int32 :=
  if t.takeWhile isNumber = [] then none else some (intValue (t.takeWhile isNumber))

/-- The text from the value of the first occurrence of the quoted key on. -/
def valueAt (k : String) (p : List Char) : Option (List Char) :=
  (occurrences (quote k.toList) p).head?.bind fun t => colon? (t.drop (quote k.toList).length)

def strAt (k : String) (p : List Char) : Option String := (valueAt k p).bind string?

def intAt (k : String) (p : List Char) : Option Int32 := (valueAt k p).bind integer?

/-- In this text the helpers return the value of the first occurrence of a quoted key, if it has one. -/
structure FindsFirst (env : Env) (text : List Char) : Prop where
  str : ∀ p k s, p <:+ text → strAt k p = some s → env.jsonFindStr p k = (true,s)
  int : ∀ p k n, p <:+ text → intAt k p = some n → env.jsonFindInt p k = n

/-! ## The loop -/

section Loop
variable {env : Env} {k : ℕ} {p : List Char} {app app' : App}

theorem checkInstalled_field (h : checkInstalled env k app = some app') : app'.field = app.field := by
  unfold checkInstalled terminate? at h
  dsimp only at h
  rw [if_pos (env.versionFile_lt k)] at h
  split at h
  · cases h; rfl
  · split at h
    · cases h; rfl
    · split at h
      · cases h; rfl
      · obtain rfl := Option.some.inj h
        funext key
        split <;> cases key <;> rfl

theorem checkDownloaded_field (app : App) : (checkDownloaded env k app).field = app.field := by
  unfold checkDownloaded
  split
  · rfl
  · split
    · funext key
      cases key <;> rfl
    · rfl

/-- The helpers are asked for every field, at the place where the entry was found. -/
theorem readApp_field (h : readApp env k p = some app) : app.field = env.field p := by
  obtain ⟨app',hinstalled,happ⟩ := Option.bind_eq_some_iff.mp h
  rw [← Option.some.inj happ,checkDownloaded_field,checkInstalled_field hinstalled]
  funext key
  cases key <;> rfl

/-- The loop reads one entry at each occurrence, as long as there is room. -/
theorem scanRepo_fields {t : List Char} {apps : List App}
    (h : apps.length+(occurrences "\"name".toList t).length ≤ 128) : ∃ apps', scanRepo env t apps = some apps' ∧
      apps'.map App.field = apps.map App.field ++ (occurrences "\"name".toList t).map env.field := by
  induction t generalizing apps with
  | nil => exact ⟨apps,rfl,by simp [occurrences]⟩
  | cons c t ih =>
    by_cases hname : "\"name".toList.isPrefixOf (c::t) = true
    · have hfound : occurrences "\"name".toList (c::t) = (c::t)::occurrences "\"name".toList t := by
        rw [occurrences_cons,if_pos hname]
      rw [hfound] at h ⊢
      rw [List.length_cons] at h
      obtain ⟨app,happ⟩ := exists_readApp env apps.length (c::t)
      obtain ⟨apps',hscan,hfields⟩ := @ih (apps ++ [app]) (by rw [List.length_append,List.length_singleton]; omega)
      refine ⟨apps',?_,?_⟩
      · rw [scanRepo,if_pos (by omega),if_pos hname]
        exact Option.bind_eq_some_iff.mpr ⟨app,happ,hscan⟩
      · rw [hfields,List.map_append,List.map_singleton,readApp_field happ,List.append_assoc,List.map_cons]
        rfl
    · have hskip : occurrences "\"name".toList (c::t) = occurrences "\"name".toList t := by
        rw [occurrences_cons,if_neg hname]
      rw [hskip] at h ⊢
      by_cases hroom : apps.length < 128
      · rw [scanRepo,if_pos hroom,if_neg hname]
        exact ih h
      · have hnone : occurrences "\"name".toList t = [] := List.eq_nil_of_length_eq_zero (by omega)
        rw [hnone]
        exact ⟨apps,by rw [scanRepo,if_neg hroom],(List.append_nil _).symm⟩

end Loop

/-! ## The pieces of a document -/

def isSep (c : Char) : Bool := isBlank c || c ∈ ['\x7b','\x7d','[',']',',',':'] || isNumber c

theorem isSep_of_isBlank {c : Char} (h : isBlank c = true) : isSep c = true := by
  rw [isSep,h,Bool.true_or,Bool.true_or]

theorem isSep_of_isNumber {c : Char} (h : isNumber c = true) : isSep c = true := by
  rw [isSep,h,Bool.or_true]

theorem nul_not_isSep : isSep nul = false := by decide

theorem IsInteger.isNumber {s : List Char} (h : IsInteger s) : ∀ c ∈ s, isNumber c = true := by
  obtain ⟨digits,-,hdigits,rfl | rfl⟩ := h
  · exact fun c hc => by rw [AppStore.isNumber,hdigits c hc,Bool.or_true]
  · refine List.forall_mem_cons.mpr ⟨rfl,fun c hc => ?_⟩
    rw [AppStore.isNumber,hdigits c hc,Bool.or_true]

theorem IsInteger.ne_nil {s : List Char} (h : IsInteger s) : s ≠ [] := by
  obtain ⟨digits,hne,-,rfl | rfl⟩ := h
  · exact hne
  · exact List.cons_ne_nil _ _

/-- A piece as the grammar has it. -/
def Tidy (q : Piece) : Prop := q.Clean isSep ∧ nul ∉ q.text

theorem tidy_gap {s : List Char} (h : ∀ c ∈ s, isSep c = true) : Tidy (.gap s) :=
  ⟨h,fun hnul => Bool.false_ne_true (nul_not_isSep.symm.trans (h nul hnul))⟩

theorem tidy_quoted {s : List Char} (hquote : '"' ∉ s) (hnul : nul ∉ s) : Tidy (.quoted s) := by
  refine ⟨hquote,fun hmem => ?_⟩
  rw [Piece.text,quote,List.mem_cons,List.mem_append,List.mem_singleton] at hmem
  obtain h | h | h := hmem
  · exact absurd h (by decide)
  · exact hnul h
  · exact absurd h (by decide)

theorem forall_mem_separated {C : Piece → Prop} (hcomma : C comma) {xss : List (List Piece)}
    (h : ∀ xs ∈ xss, ∀ q ∈ xs, C q) : ∀ q ∈ separated xss, C q := by
  cases xss with
  | nil => simp [separated]
  | cons xs xss =>
    obtain ⟨hxs,hxss⟩ := List.forall_mem_cons.mp h
    intro q hq
    rcases List.mem_append.mp hq with hq | hq
    · exact hxs q hq
    · obtain ⟨ys,hys,hq⟩ := List.mem_flatMap.mp hq
      rcases List.mem_cons.mp hq with rfl | hq
      · exact hcomma
      · exact hxss ys hys q hq

theorem tidy_comma : Tidy comma := tidy_gap (List.forall_mem_singleton.mpr rfl)

theorem Blank.all_isSep (b : Blank) : ∀ c ∈ b.val, isSep c = true := fun c hc => isSep_of_isBlank (b.property c hc)

/-- Blanks around a character of the grammar. -/
theorem Blank.tidy (b b' : Blank) {c : Char} (hc : isSep c = true) : Tidy (.gap (b.val ++ c::b'.val)) := by
  refine tidy_gap fun d hd => ?_
  rcases List.mem_append.mp hd with hd | hd
  · exact b.all_isSep d hd
  · rcases List.mem_cons.mp hd with rfl | hd
    · exact hc
    · exact b'.all_isSep d hd

theorem Key.word_tidy (k : Key) : Tidy (.quoted k.word.toList) := by
  cases k <;> exact tidy_quoted (by decide) (by decide)

theorem Object.literal_tidy (o : Object) (k : Key) : Tidy (o.literal k) := by
  unfold literal
  split
  · next hk =>
    subst hk
    exact tidy_gap fun c hc => isSep_of_isNumber (o.sizeKb_integer.isNumber c hc)
  · exact tidy_quoted (o.quote_not_mem k) (o.nul_not_mem k)

theorem Object.member_tidy (o : Object) (k : Key) : ∀ q ∈ o.member k, Tidy q := by
  simp only [member,memberFrom,List.forall_mem_cons,List.not_mem_nil,false_implies,implies_true,and_true]
  exact ⟨tidy_gap (Blank.all_isSep _),k.word_tidy,Blank.tidy _ _ rfl,o.literal_tidy k,tidy_gap (Blank.all_isSep _)⟩

theorem Object.pieces_tidy (o : Object) : ∀ q ∈ o.pieces, Tidy q := by
  refine List.forall_mem_cons.mpr ⟨Blank.tidy o.front ⟨[],by simp⟩ rfl,fun q hq => ?_⟩
  rcases List.mem_append.mp hq with hq | hq
  · refine forall_mem_separated tidy_comma (fun xs hxs => ?_) q hq
    obtain ⟨k,-,rfl⟩ := List.mem_map.mp hxs
    exact o.member_tidy k
  · rw [List.mem_singleton.mp hq]
    exact Blank.tidy ⟨[],by simp⟩ o.behind rfl

theorem Document.pieces_tidy (d : Document) : ∀ q ∈ d.pieces, Tidy q := by
  refine List.forall_mem_cons.mpr ⟨Blank.tidy d.front d.inner rfl,fun q hq => ?_⟩
  rcases List.mem_append.mp hq with hq | hq
  · refine forall_mem_separated tidy_comma (fun xs hxs => ?_) q hq
    obtain ⟨o,-,rfl⟩ := List.mem_map.mp hxs
    exact o.pieces_tidy
  · rw [List.mem_singleton.mp hq]
    exact Blank.tidy ⟨[],by simp⟩ d.behind rfl

theorem Document.nul_not_mem_text (d : Document) : nul ∉ d.text := by
  intro hnul
  obtain ⟨q,hq,hmem⟩ := List.mem_flatMap.mp hnul
  exact (d.pieces_tidy q hq).2 hmem

theorem Document.cText_text (d : Document) : cText d.text = d.text := by
  rw [cText,List.takeWhile_eq_self_iff]
  intro c hc
  have hne : c ≠ nul := fun h => d.nul_not_mem_text (h ▸ hc)
  simpa using hne

/-! ## Where the keys stand -/

/-- Of the strings of the object, the marked ones are the occurrences of the key. -/
structure Marks (P : List Char → Bool) (k : Key) (o : Object) : Prop where
  keys : ∀ k', P k'.word.toList = decide (k' = k)
  raws : ∀ k', P (o.raw k') = false

section Marks
variable {P : List Char → Bool} {k k' : Key} {o : Object} {b₁ b₂ : List Key}

theorem startsAt_separated (xss : List (List Piece)) (ys : List Piece) :
    startsAt P (separated xss ++ ys) = startsAt P (xss.flatMap (comma::·) ++ ys) := by
  cases xss with
  | nil => rfl
  | cons xs xss =>
    rw [separated,List.flatMap_cons,comma,List.cons_append,List.cons_append,startsAt_gap]

theorem Marks.literal (h : Marks P k o) (k' : Key) : (o.literal k').marked P = false := by
  unfold Object.literal
  split
  · rfl
  · exact h.raws k'

theorem Marks.memberFrom (h : Marks P k o) (ys : List Piece) :
    startsAt P (o.memberFrom k ++ ys) = (o.memberFrom k ++ ys)::startsAt P ys := by
  have hkey : P k.word.toList = true := (h.keys k).trans (decide_eq_true rfl)
  have hrest : startsAt P (o.memberFrom k ++ ys).tail = startsAt P ys := by
    refine @startsAt_append_of_unmarked P (o.memberFrom k).tail ?_ ys
    simp [Object.memberFrom,h.literal]
  rw [← hrest]
  exact startsAt_quoted_of_marked hkey _

theorem Marks.member_of_ne (h : Marks P k o) (hk : k' ≠ k) (ys : List Piece) :
    startsAt P (o.member k' ++ ys) = startsAt P ys := by
  have hkey : P k'.word.toList = false := (h.keys k').trans (decide_eq_false hk)
  refine startsAt_append_of_unmarked ?_ ys
  simp [Object.member,Object.memberFrom,h.literal,hkey]

/-- The members with these keys, each behind a comma, up to the end of the object. -/
def Object.rest (o : Object) (ks : List Key) : List Piece :=
  ks.flatMap (fun k => comma::o.member k) ++ [.gap ('\x7d'::o.behind.val)]

theorem Object.rest_append (o : Object) (b₁ b₂ : List Key) :
    o.rest (b₁ ++ b₂) = b₁.flatMap (fun k => comma::o.member k) ++ o.rest b₂ := by
  rw [rest,List.flatMap_append,List.append_assoc]
  rfl

theorem Marks.flatMap_of_not_mem (h : Marks P k o) (hk : k ∉ b₁) (ys : List Piece) :
    startsAt P (b₁.flatMap (fun k => comma::o.member k) ++ ys) = startsAt P ys := by
  induction b₁ with
  | nil => rfl
  | cons k' b₁ ih =>
    obtain ⟨hne,hrest⟩ := not_or.mp (mt List.mem_cons.mpr hk)
    rw [List.flatMap_cons,List.append_assoc,List.cons_append,comma,startsAt_gap,h.member_of_ne (Ne.symm hne)]
    exact ih hrest

theorem Marks.rest_of_not_mem (h : Marks P k o) (hk : k ∉ b₁) (ys : List Piece) :
    startsAt P (o.rest b₁ ++ ys) = startsAt P ys := by
  rw [Object.rest,List.append_assoc,h.flatMap_of_not_mem hk]
  exact startsAt_gap _ _

/-- The key is found where it stands among the members. -/
theorem Marks.rest (h : Marks P k o) (h₁ : k ∉ b₁) (h₂ : k ∉ b₂) (ys : List Piece) :
    startsAt P (o.rest (b₁ ++ k::b₂) ++ ys) = (o.memberFrom k ++ (o.rest b₂ ++ ys))::startsAt P ys := by
  have hcons : o.rest (k::b₂) ++ ys = comma::.gap (o.spacing k).front.val::(o.memberFrom k ++ (o.rest b₂ ++ ys)) := by
    rw [Object.rest,List.flatMap_cons]
    simp [Object.member,Object.rest]
  rw [Object.rest_append,List.append_assoc,h.flatMap_of_not_mem h₁,hcons,comma,startsAt_gap,startsAt_gap,
    h.memberFrom,h.rest_of_not_mem h₂]

theorem Object.nodup_order (o : Object) : o.order.Nodup := o.order_perm.nodup_iff.mpr Key.nodup_all

theorem Object.order_split (o : Object) (k : Key) : ∃ b₁ b₂, o.order = b₁ ++ k::b₂ ∧ k ∉ b₁ ∧ k ∉ b₂ := by
  have hmem : k ∈ o.order := o.order_perm.mem_iff.mpr k.mem_all
  have hnodup := o.nodup_order
  obtain ⟨b₁,b₂,horder,h₁⟩ := List.eq_append_cons_of_mem hmem
  rw [horder] at hnodup
  exact ⟨b₁,b₂,horder,h₁,(List.nodup_cons.mp hnodup.of_append_right).1⟩

theorem startsAt_pieces (o : Object) (ys : List Piece) :
    startsAt P (o.pieces ++ ys) = startsAt P (o.rest o.order ++ ys) := by
  rw [Object.pieces,List.cons_append,startsAt_gap,List.append_assoc,startsAt_separated,Object.rest,
    List.append_assoc,List.flatMap_map]

/-- The objects, each behind a comma, up to the end of the document. -/
def Document.rest (d : Document) (os : List Object) : List Piece :=
  os.flatMap (fun o => comma::o.pieces) ++ [.gap (']'::d.behind.val)]

theorem Document.startsAt_pieces (d : Document) : startsAt P d.pieces = startsAt P (d.rest d.objects) := by
  rw [pieces,startsAt_gap,startsAt_separated,rest,List.flatMap_map]

/-- The first of the objects has the key where its order says. -/
theorem Marks.document_rest (h : Marks P k o) (horder : o.order = b₁ ++ k::b₂) (h₁ : k ∉ b₁) (h₂ : k ∉ b₂)
    (d : Document) (os : List Object) :
    startsAt P (d.rest (o::os)) = (o.memberFrom k ++ (o.rest b₂ ++ d.rest os))::startsAt P (d.rest os) := by
  rw [Document.rest,List.flatMap_cons,List.append_assoc,List.cons_append,comma,startsAt_gap,AppStore.startsAt_pieces,
    horder,h.rest h₁ h₂]
  rfl

end Marks

/-! ## The values -/

def isKey (k : Key) (s : List Char) : Bool := s == k.word.toList

section Values
variable {env : Env} {k : Key} {o : Object} {ks : List Key} {ps ys : List Piece} {l : List (List Piece)}

theorem Key.word_head (k : Key) : ∃ x w, k.word.toList = x::w ∧ isSep x = false ∧ x ≠ '"' := by
  cases k <;> exact ⟨_,_,rfl,by decide,by decide⟩

theorem occurrences_key (k : Key) (h : ∀ q ∈ ps, Tidy q) :
    occurrences (quote k.word.toList) (pieceText ps) = (startsAt (isKey k) ps).map pieceText := by
  obtain ⟨x,w,hword,hx,hquote⟩ := k.word_head
  have hclean : '"' ∉ x::w := hword ▸ k.word_tidy.1
  rw [hword]
  refine occurrences_pieceText rfl hx hquote (fun s t hs => ?_) fun q hq => (h q hq).1
  rw [isKey,hword]
  exact isPrefixOf_quoted_quote hclean hs t

theorem occurrences_name (h : ∀ q ∈ ps, Tidy q) :
    occurrences "\"name".toList (pieceText ps) = (startsAt "name".toList.isPrefixOf ps).map pieceText :=
  @occurrences_pieceText isSep _ _ _ _ rfl rfl (by decide) (fun _ t hs => isPrefixOf_quoted (by decide) hs t)
    fun q hq => (h q hq).1

theorem isNumber_of_isBlank {c : Char} (h : isBlank c = true) : isNumber c = false := by
  simp only [isBlank,Bool.or_eq_true,beq_iff_eq] at h
  obtain ((rfl | rfl) | rfl) | rfl := h <;> decide

theorem Object.literal_head (o : Object) (k : Key) : ∃ c t, (o.literal k).text = c::t ∧ isBlank c = false := by
  unfold literal
  split
  · next hk =>
    subst hk
    obtain ⟨c,t,hraw⟩ := List.exists_cons_of_ne_nil o.sizeKb_integer.ne_nil
    have hc := o.sizeKb_integer.isNumber c (hraw ▸ List.mem_cons_self)
    refine ⟨c,t,hraw,Bool.eq_false_iff.mpr fun hblank => ?_⟩
    exact Bool.false_ne_true ((isNumber_of_isBlank hblank).symm.trans hc)
  · exact ⟨_,_,rfl,rfl⟩

theorem colon?_eq (b b' : Blank) {c : Char} (hc : isBlank c = false) (t : List Char) :
    colon? (b.val ++ ':'::(b'.val ++ c::t)) = some (c::t) := by
  have hcolon : (b.val ++ ':'::(b'.val ++ c::t)).dropWhile isBlank = ':'::(b'.val ++ c::t) := by
    rw [List.dropWhile_append_of_pos b.property]
    rfl
  have hvalue : (b'.val ++ c::t).dropWhile isBlank = c::t := by
    rw [List.dropWhile_append_of_pos b'.property,List.dropWhile_cons_of_neg (by simp [hc])]
  rw [colon?,hcolon]
  exact congrArg some hvalue

/-- Behind the first occurrence of the key stand its colon and its value. -/
theorem valueAt_eq (hps : ∀ q ∈ ps, Tidy q) (h : startsAt (isKey k) ps = (o.memberFrom k ++ ys)::l) :
    valueAt k.word (pieceText ps) = some ((o.literal k).text ++ ((o.spacing k).behind.val ++ pieceText ys)) := by
  have htext : pieceText (o.memberFrom k ++ ys) = quote k.word.toList ++ ((o.spacing k).beforeColon.val ++
      ':'::((o.spacing k).afterColon.val ++ ((o.literal k).text ++ ((o.spacing k).behind.val ++ pieceText ys)))) := by
    simp [Object.memberFrom,pieceText_cons,Piece.text]
  obtain ⟨c,t,hliteral,hc⟩ := o.literal_head k
  rw [valueAt,occurrences_key k hps,h,List.map_cons,List.head?_cons,Option.bind_some,htext,List.drop_left' rfl,
    hliteral,List.cons_append,colon?_eq _ _ hc]

theorem string?_quote {s : List Char} (hs : '"' ∉ s) (t : List Char) :
    string? (quote s ++ t) = some (String.ofList s) := by
  have hchars : ∀ c ∈ s, (c != '"') = true := fun c hc => bne_iff_ne.mpr fun h => hs (h ▸ hc)
  have hquote : quote s ++ t = '"'::(s ++ '"'::t) := by simp [quote]
  rw [hquote,string?,if_pos (by simp),List.takeWhile_append_of_pos hchars,List.takeWhile_cons_of_neg (by simp),
    List.append_nil]

theorem integer?_eq {s t : List Char} (hs : IsInteger s) (b : Blank) {c : Char} (hc : isNumber c = false) :
    integer? (s ++ (b.val ++ c::t)) = some (intValue s) := by
  have hend : (b.val ++ c::t).takeWhile isNumber = [] := by
    obtain ⟨bs,hbs⟩ := b
    cases bs with
    | nil => exact List.takeWhile_cons_of_neg (by simp [hc])
    | cons d bs =>
      have hd := isNumber_of_isBlank (hbs d List.mem_cons_self)
      exact List.takeWhile_cons_of_neg (by simp [hd])
  rw [integer?,List.takeWhile_append_of_pos hs.isNumber,hend,List.append_nil,if_neg hs.ne_nil]

theorem Object.rest_head (o : Object) (ks : List Key) (ys : List Piece) :
    ∃ c t, pieceText (o.rest ks ++ ys) = c::t ∧ isNumber c = false := by
  cases ks with
  | nil => exact ⟨_,_,rfl,by decide⟩
  | cons k ks => exact ⟨_,_,rfl,by decide⟩

/-- The field of an entry is the one of the object in which its key is found. -/
theorem FindsFirst.field_eq {text : List Char} (hf : FindsFirst env text) (hps : ∀ q ∈ ps, Tidy q)
    (hsuffix : pieceText ps <:+ text)
    (h : startsAt (isKey k) ps = (o.memberFrom k ++ (o.rest ks ++ ys))::l) :
    env.field (pieceText ps) k = o.field k := by
  have hvalue := valueAt_eq hps h
  by_cases hk : k = .sizeKb
  · subst hk
    obtain ⟨c,t,hrest,hc⟩ := o.rest_head ks ys
    have hint : intAt "size_kb" (pieceText ps) = some (intValue (o.raw .sizeKb)) := by
      rw [intAt]
      refine Option.bind_eq_some_iff.mpr ⟨_,hvalue,?_⟩
      rw [hrest]
      exact integer?_eq o.sizeKb_integer _ hc
    exact congrArg Field.kb (hf.int _ _ _ hsuffix hint)
  · have hstr : strAt k.word (pieceText ps) = some (String.ofList (o.raw k)) := by
      refine Option.bind_eq_some_iff.mpr ⟨_,hvalue,?_⟩
      rw [Object.literal,if_neg hk]
      exact string?_quote (o.quote_not_mem k) _
    rw [Env.field,hf.str _ _ _ hsuffix hstr,Object.field]
    cases k with
    | sizeKb => exact absurd rfl hk
    | _ => rfl

end Values

/-! ## Whole documents -/

/-- No value begins with `name`, and none is a key. -/
def Object.Plain (o : Object) : Prop :=
  ∀ k, "name".toList.isPrefixOf (o.raw k) = false ∧ ∀ k' : Key, o.raw k ≠ k'.word.toList

/-- The keys in front of `name` have the same value in the next object. -/
def ReadsOwn : List Object → Prop
  | [] => True
  | o::os => (∀ k ∈ o.before, ∃ o' ∈ os.head?, o'.field k = o.field k) ∧ ReadsOwn os

section Plain
variable {env : Env} {k : Key} {o o' : Object} {os : List Object} {b₁ b₂ : List Key} {d : Document}

theorem Object.Plain.marks_name (h : o.Plain) : Marks "name".toList.isPrefixOf .name o :=
  ⟨fun k' => by cases k' <;> decide,fun k' => (h k').1⟩

theorem Object.Plain.marks_key (h : o.Plain) (k : Key) : Marks (isKey k) k o := by
  refine ⟨fun k' => ?_,fun k' => beq_false_of_ne ((h k').2 k)⟩
  cases k <;> cases k' <;> decide

theorem Object.before_eq (horder : o.order = b₁ ++ .name::b₂) (h₁ : .name ∉ b₁) : o.before = b₁ := by
  have hall : ∀ k ∈ b₁, decide (k ≠ .name) = true := fun k hk => decide_eq_true fun h => h₁ (h ▸ hk)
  rw [before,horder,List.takeWhile_append_of_pos hall,List.takeWhile_cons_of_neg (by simp),List.append_nil]

/-- The document from the `name` of an object on, the objects behind it being `os`. -/
def Document.fromName (d : Document) (o : Object) (b₂ : List Key) (os : List Object) : List Piece :=
  o.memberFrom .name ++ (o.rest b₂ ++ d.rest os)

theorem startsAt_fromName (h : o.Plain) : startsAt (isKey .name) (d.fromName o b₂ os) =
    d.fromName o b₂ os::startsAt (isKey .name) (o.rest b₂ ++ d.rest os) :=
  (h.marks_key .name).memberFrom _

theorem startsAt_fromName_of_ne (h : o.Plain) (hk : k ≠ .name) :
    startsAt (isKey k) (d.fromName o b₂ os) = startsAt (isKey k) (o.rest b₂ ++ d.rest os) :=
  (h.marks_key k).member_of_ne (Ne.symm hk) _

/-- An entry takes `name` and the keys behind it from the object itself. -/
theorem field_of_not_mem_before (hf : FindsFirst env d.text) (h : o.Plain) (hb : (b₁ ++ .name::b₂).Perm Key.all)
    (hX : d.fromName o b₂ os <:+ d.pieces) (hk : k ∉ b₁) :
    env.field (pieceText (d.fromName o b₂ os)) k = o.field k := by
  have htidy : ∀ q ∈ d.fromName o b₂ os, Tidy q := fun q hq => d.pieces_tidy q (hX.subset hq)
  by_cases hname : k = .name
  · subst hname
    exact hf.field_eq htidy (pieceText_suffix hX) (startsAt_fromName h)
  · have hmem : k ∈ b₂ := by
      have hall : k ∈ b₁ ++ .name::b₂ := hb.mem_iff.mpr k.mem_all
      simpa [hk,hname] using hall
    have hnodup : b₂.Nodup := (List.nodup_cons.mp (hb.nodup_iff.mpr Key.nodup_all).of_append_right).2
    obtain ⟨c₁,c₂,rfl,h₁⟩ := List.eq_append_cons_of_mem hmem
    have h₂ : k ∉ c₂ := (List.nodup_cons.mp hnodup.of_append_right).1
    have hfound := (startsAt_fromName_of_ne h hname).trans ((h.marks_key k).rest h₁ h₂ (d.rest os))
    exact hf.field_eq htidy (pieceText_suffix hX) hfound

/-- A key in front of `name` is searched for in the objects behind. -/
theorem startsAt_fromName_of_mem_before (h : o.Plain) (hb : (b₁ ++ .name::b₂).Nodup) (hk : k ∈ b₁) :
    startsAt (isKey k) (d.fromName o b₂ os) = startsAt (isKey k) (d.rest os) := by
  have hdisjoint := List.disjoint_of_nodup_append hb hk
  obtain ⟨hname,hb₂⟩ := not_or.mp (mt List.mem_cons.mpr hdisjoint)
  rw [startsAt_fromName_of_ne h hname]
  exact (h.marks_key k).rest_of_not_mem hb₂ _

theorem field_of_mem_before (hf : FindsFirst env d.text) (h : o.Plain) (h' : o'.Plain)
    (hb : (b₁ ++ .name::b₂).Nodup) (hX : d.fromName o b₂ (o'::os) <:+ d.pieces) (hk : k ∈ b₁) :
    env.field (pieceText (d.fromName o b₂ (o'::os))) k = o'.field k := by
  have htidy : ∀ q ∈ d.fromName o b₂ (o'::os), Tidy q := fun q hq => d.pieces_tidy q (hX.subset hq)
  obtain ⟨c₁,c₂,horder,h₁,h₂⟩ := o'.order_split k
  have hfound := (startsAt_fromName_of_mem_before h hb hk).trans
    ((h'.marks_key k).document_rest horder h₁ h₂ d os)
  exact hf.field_eq htidy (pieceText_suffix hX) hfound

/-! ### The entries -/

/-- What the entries are read as, from these objects on. -/
def Document.entries (d : Document) (env : Env) (os : List Object) : List (Key → Field) :=
  (startsAt "name".toList.isPrefixOf (d.rest os)).map fun ps => env.field (pieceText ps)

/-- The objects end the document. -/
def Document.EndsWith (d : Document) (os : List Object) : Prop :=
  ∀ ps ∈ startsAt "name".toList.isPrefixOf (d.rest os), ps <:+ d.pieces

/-- Each object has one entry, which is searched for from its `name` on. -/
theorem entries_cons (h : o.Plain) (d : Document) (os : List Object) : ∃ b₂, o.order = o.before ++ .name::b₂ ∧
    (∀ env, d.entries env (o::os) = env.field (pieceText (d.fromName o b₂ os))::d.entries env os) ∧
    (d.EndsWith (o::os) → d.fromName o b₂ os <:+ d.pieces ∧ d.EndsWith os) := by
  obtain ⟨b₁,b₂,horder,h₁,h₂⟩ := o.order_split .name
  have hstarts := h.marks_name.document_rest horder h₁ h₂ d os
  refine ⟨b₂,by rw [Object.before_eq horder h₁]; exact horder,fun env => ?_,fun hends => ?_⟩
  · rw [Document.entries,hstarts]
    rfl
  · rw [Document.EndsWith,hstarts] at hends
    exact List.forall_mem_cons.mp hends

theorem length_entries (d : Document) (env : Env) (h : ∀ o ∈ os, o.Plain) : (d.entries env os).length = os.length := by
  induction os with
  | nil => rfl
  | cons o os ih =>
    obtain ⟨ho,hos⟩ := List.forall_mem_cons.mp h
    obtain ⟨b₂,-,hentries,-⟩ := entries_cons ho d os
    rw [hentries,List.length_cons,List.length_cons,ih hos]

theorem entries_of_readsOwn (hf : FindsFirst env d.text) (hplain : ∀ o ∈ os, o.Plain) (hends : d.EndsWith os)
    (h : ReadsOwn os) : d.entries env os = os.map Object.field := by
  induction os with
  | nil => rfl
  | cons o os ih =>
    obtain ⟨ho,hos⟩ := List.forall_mem_cons.mp hplain
    obtain ⟨hown,hrest⟩ := h
    obtain ⟨b₂,horder,hentries,hnext⟩ := entries_cons ho d os
    obtain ⟨hX,hends⟩ := hnext hends
    rw [hentries,List.map_cons,ih hos hends hrest]
    refine congrArg (·::_) (funext fun k => ?_)
    by_cases hk : k ∈ o.before
    · obtain ⟨o',ho',hsame⟩ := hown k hk
      obtain ⟨os',rfl⟩ := List.head?_eq_some_iff.mp ho'
      rw [← hsame]
      exact field_of_mem_before hf ho (hos o' List.mem_cons_self) (horder ▸ o.nodup_order) hX hk
    · exact field_of_not_mem_before hf ho (horder ▸ o.order_perm) hX hk

theorem closed_net_bounded : NetGet.Bounded fun _ _ _ => ⟨0,fun _ => 0⟩ := fun _ _ _ hn => Int64.le_of_lt hn

/-- The document is fetched; where a key has no value, the helpers return what is given here. -/
def Document.served (d : Document) (h : d.text.length < 4096) (str : Bool × String) (n : Int32) : Env where
  event := none
  repo := d.text
  versionFile _ := []
  sysOpen _ _ := -1
  net _ _ _ := ⟨0,fun _ => 0⟩
  jsonFindStr p k := ((strAt k p).map (true,·)).getD str
  jsonFindInt p k := (intAt k p).getD n
  repo_lt := h
  versionFile_lt _ := Nat.zero_lt_succ 31
  net_bounded := closed_net_bounded

theorem Document.served_findsFirst (d : Document) (h : d.text.length < 4096) (str : Bool × String) (n : Int32) :
    FindsFirst (d.served h str n) d.text := by
  constructor
  · intro p k s _ hs
    simp only [served,hs,Option.map_some,Option.getD_some]
  · intro p k m _ hm
    simp only [served,hm,Option.getD_some]

/-- Some answer is not the value of the object. -/
theorem Object.exists_field_ne (o : Object) (k : Key) : ∃ str n, k.field str n ≠ o.field k := by
  obtain ⟨n,hn⟩ : ∃ n, n ≠ intValue (o.raw k) := by
    by_cases hzero : intValue (o.raw k) = 0
    · exact ⟨1,by rw [hzero]; decide⟩
    · exact ⟨0,Ne.symm hzero⟩
  by_cases hgame : String.ofList (o.raw k) = "game"
  · refine ⟨(true,""),n,?_⟩
    cases k <;> simp_all [Object.field,Key.field]
  · refine ⟨(true,"game"),n,?_⟩
    cases k <;> simp_all [Object.field,Key.field,Ne.symm hgame]

theorem readsOwn_of_entries (hlen : d.text.length < 4096) (hplain : ∀ o ∈ os, o.Plain) (hends : d.EndsWith os)
    (h : ∀ env : Env, env.repo = d.text → FindsFirst env d.text → d.entries env os = os.map Object.field) :
    ReadsOwn os := by
  induction os with
  | nil => exact trivial
  | cons o os ih =>
    obtain ⟨ho,hos⟩ := List.forall_mem_cons.mp hplain
    obtain ⟨b₂,horder,hentries,hnext⟩ := entries_cons ho d os
    obtain ⟨hX,hends⟩ := hnext hends
    have hfirst : ∀ env : Env, env.repo = d.text → FindsFirst env d.text →
        env.field (pieceText (d.fromName o b₂ os)) = o.field ∧ d.entries env os = os.map Object.field := by
      intro env hrepo hf
      have heq := h env hrepo hf
      rw [hentries] at heq
      exact List.cons.inj heq
    refine ⟨fun k hk => ?_,ih hos hends fun env hrepo hf => (hfirst env hrepo hf).2⟩
    have hnodup : (o.before ++ .name::b₂).Nodup := horder ▸ o.nodup_order
    cases os with
    | nil =>
      -- the key is not found, and any answer will do
      obtain ⟨str,n,hne⟩ := o.exists_field_ne k
      have hmissing : occurrences (quote k.word.toList) (pieceText (d.fromName o b₂ [])) = [] := by
        rw [occurrences_key k fun q hq => d.pieces_tidy q (hX.subset hq),
          startsAt_fromName_of_mem_before ho hnodup hk]
        rfl
      have hanswer : (d.served hlen str n).field (pieceText (d.fromName o b₂ [])) k = k.field str n := by
        simp [Env.field,Document.served,strAt,intAt,valueAt,hmissing]
      rw [(hfirst _ rfl (d.served_findsFirst hlen str n)).1] at hanswer
      exact absurd hanswer.symm hne
    | cons o' os =>
      have hf := d.served_findsFirst hlen (false,"") 0
      refine ⟨o',rfl,?_⟩
      rw [← field_of_mem_before hf ho (hos o' List.mem_cons_self) hnodup hX hk,(hfirst _ rfl hf).1]

/-- The entries that are loaded from a document. -/
theorem fetchRepo_fields (ui : Ui) (hrepo : env.repo = d.text) (hcount : d.objects.length ≤ 128)
    (hplain : ∀ o ∈ d.objects, o.Plain) :
    ∃ r, fetchRepo env ui = some r ∧ r.ui.apps.map App.field = d.entries env d.objects := by
  have hne : env.repo ≠ [] := by
    rw [hrepo,Document.text,Document.pieces,pieceText_cons,Piece.text]
    simp
  have hjson : terminate? 4096 env.repo = some d.text := by
    rw [terminate?,if_pos env.repo_lt,hrepo,d.cText_text]
  have hentries : (occurrences "\"name".toList d.text).map env.field = d.entries env d.objects := by
    rw [Document.text,occurrences_name d.pieces_tidy,List.map_map,d.startsAt_pieces]
    rfl
  have hlength : (occurrences "\"name".toList d.text).length ≤ 128 := by
    rw [← List.length_map env.field,hentries,length_entries d env hplain]
    exact hcount
  obtain ⟨apps,hscan,hfields⟩ := @scanRepo_fields env d.text [] (by rwa [List.length_nil,Nat.zero_add])
  rw [List.map_nil,List.nil_append,hentries] at hfields
  have hroom : apps.length ≤ 128 := by
    rw [← List.length_map App.field,hfields,length_entries d env hplain]
    exact hcount
  obtain ⟨r,hr,happs⟩ := @refilter_apps
    { ui with apps := apps, statusMsg := "Loaded " ++ toString apps.length ++ " apps" } hroom
  refine ⟨r,?_,by rw [happs]; exact hfields⟩
  rw [fetchRepo,if_neg hne,hjson]
  exact Option.bind_eq_some_iff.mpr ⟨_,rfl,Option.bind_eq_some_iff.mpr ⟨apps,hscan,hr⟩⟩

end Plain

/-! ## Two programs -/

def noBlank : Blank := ⟨[],List.forall_mem_nil _⟩

def editorRaw : Key → List Char
  | .name => "ed".toList
  | .description => "Text editor".toList
  | .version => "1.2".toList
  | .url => "http://repo/ed".toList
  | .sizeKb => "12".toList
  | .type => "app".toList

def snakeRaw : Key → List Char
  | .name => "snake".toList
  | .description => "Arcade".toList
  | .version => "1.0".toList
  | .url => "http://repo/snake".toList
  | .sizeKb => "40".toList
  | .type => "game".toList

theorem editorRaw_clean : ∀ k, '"' ∉ editorRaw k ∧ nul ∉ editorRaw k := by
  intro k
  cases k <;> decide

theorem snakeRaw_clean : ∀ k, '"' ∉ snakeRaw k ∧ nul ∉ snakeRaw k := by
  intro k
  cases k <;> decide

theorem isInteger_two_digits {c d : Char} (hc : c.isDigit = true) (hd : d.isDigit = true) : IsInteger [c,d] :=
  ⟨_,List.cons_ne_nil _ _,List.forall_mem_cons.mpr ⟨hc,List.forall_mem_singleton.mpr hd⟩,.inl rfl⟩

/-- An object with these values, written without blanks. -/
def dense (order : List Key) (raw : Key → List Char) (horder : order.Perm Key.all)
    (hraw : ∀ k, '"' ∉ raw k ∧ nul ∉ raw k) (hsize : IsInteger (raw .sizeKb)) : Object where
  order := order
  raw := raw
  spacing _ := ⟨noBlank,noBlank,noBlank,noBlank⟩
  front := noBlank
  behind := noBlank
  order_perm := horder
  quote_not_mem k := (hraw k).1
  nul_not_mem k := (hraw k).2
  sizeKb_integer := hsize

def editor : Object := dense Key.all editorRaw (.refl _) editorRaw_clean (isInteger_two_digits rfl rfl)

def snake : Object := dense Key.all snakeRaw (.refl _) snakeRaw_clean (isInteger_two_digits rfl rfl)

def typeFirst : List Key := [.type,.name,.description,.version,.url,.sizeKb]

theorem typeFirst_perm : typeFirst.Perm Key.all := by decide

/-- The same program with its type in front. -/
def snakeTypeFirst : Object := dense typeFirst snakeRaw typeFirst_perm snakeRaw_clean
  (isInteger_two_digits rfl rfl)

def twoPrograms : Document := ⟨[snake,editor],noBlank,noBlank,noBlank⟩

def twoProgramsTypeFirst : Document := ⟨[snakeTypeFirst,editor],noBlank,noBlank,noBlank⟩

theorem twoPrograms_length : twoPrograms.text.length < 4096 := by decide +kernel

theorem twoProgramsTypeFirst_length : twoProgramsTypeFirst.text.length < 4096 := by decide +kernel

end Linuxab.AppStore
