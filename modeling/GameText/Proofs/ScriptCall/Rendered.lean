import GameText.Proofs.ScriptCall.Edits
import GameText.Proofs.ScriptCall.Literals
import GameText.Proofs.Text.Beginning
import GameText.Proofs.Text.Quoted

/-!
# New values stay in their literals

A new value may hold any quotes, backslashes and breaks. What is written for it is the key of its
unit, if it has one, and one literal: the writer of JSON strings and the writer that escapes a quote
both protect what the search would close at (`closes_escape`, `closes_quote`). The unit itself
begins and ends outside every literal of the call (`Literate`), which each detector sees to and
acceptance keeps.

So when chosen units get new texts, the search finds one literal for each of their spans and
otherwise what it found before.
-/

namespace GameText

/-! ## Characters of keys -/

/-- The code points of blanks. -/
def blankCodes : List Nat :=
  List.range' 0x09 5 ++ List.range' 0x1C 5 ++ List.range' 0x2000 11 ++
    [0x85, 0xA0, 0x1680, 0x2028, 0x2029, 0x202F, 0x205F, 0x3000]

/-- What no blank is by its code point is no blank. -/
theorem not_of_isBlank {p : Char → Bool} (hnone : ∀ n ∈ blankCodes, p (Char.ofNat n) = false)
    {c : Char} (h : isBlank c = true) : p c = false := by
  have hcode : c.toNat ∈ blankCodes := by
    simp only [isBlank, Bool.or_eq_true, Bool.and_eq_true, decide_eq_true_eq, beq_iff_eq] at h
    simp only [blankCodes, List.mem_append, List.mem_range'_1, List.mem_cons, List.not_mem_nil,
      or_false]
    omega
  have hc := hnone c.toNat hcode
  rwa [Char.ofNat_toNat] at hc

theorem isWordChar_of_isBlank {c : Char} (h : isBlank c = true) : isWordChar c = false :=
  not_of_isBlank (by decide +kernel) h

namespace ScriptCall

/-! ## What is written between quotes -/

theorem encloses_of_isQuote {q : Char} (hq : isQuote q = true) : Quoted.Encloses q := by
  refine ⟨isQuote_ne_backslash hq, ?_⟩
  rintro (rfl | rfl) <;> cases hq

/-- A body closes at the quote behind it. -/
theorem closes_of_body {q : Char} (hq : q ≠ '\\') {inner : Text} (h : Quoted.Body q inner) :
    Closes q inner := by
  induction h with
  | nil => exact closes_nil hq
  | plain hslash hquote _ _ ih => exact ih.plain hslash hquote
  | pair _ _ ih => exact ih.pair _

/-- **Every quote that is written for a text is protected**, so the closing quote is the first one
that closes. -/
theorem closes_escape {q : Char} (hq : isQuote q = true) (t : Text) :
    Closes q (Quoted.escape [q] t) :=
  closes_of_body (isQuote_ne_backslash hq) (Quoted.body_escape (encloses_of_isQuote hq) t)

theorem hexDigit_plain : ∀ n < 16, Json.hexDigit n ≠ '\\' ∧ Json.hexDigit n ≠ '"' := by decide

theorem Closes.escapeChar {inner : Text} (h : Closes '"' inner) (c : Char) :
    Closes '"' (Json.escapeChar c ++ inner) := by
  unfold Json.escapeChar
  split
  next => exact h.pair '"'
  split
  next => exact h.pair '\\'
  split
  next => exact h.pair 'n'
  split
  next => exact h.pair 'r'
  split
  next => exact h.pair 't'
  split
  next => exact h.pair 'b'
  split
  next => exact h.pair 'f'
  split
  next hcontrol =>
    obtain ⟨hhigh, hhigh'⟩ := hexDigit_plain (c.toNat / 16) (by omega)
    obtain ⟨hlow, hlow'⟩ := hexDigit_plain (c.toNat % 16) (by omega)
    have hdigits := (h.plain hlow hlow').plain hhigh hhigh'
    exact ((hdigits.plain (c := '0') (by decide) (by decide)).plain (c := '0') (by decide)
      (by decide)).pair 'u'
  next hquote hslash _ _ _ _ _ _ => exact h.plain hslash hquote

theorem closes_quote (t : Text) : Closes '"' (t.flatMap Json.escapeChar) := by
  induction t with
  | nil => exact closes_nil (by decide)
  | cons c t ih => exact ih.escapeChar c

/-! ## The key in front of a literal -/

/-- A key, a colon, and the blanks around the colon. -/
structure KeyHead (word blanks after : Text) : Prop where
  begins : word.head?.any isNameStart = true
  word : ∀ c ∈ word, isWordChar c = true
  blanks : ∀ c ∈ blanks, isBlank c = true
  after : ∀ c ∈ after, isBlank c = true

/-- The text is a key with its colon. -/
def IsKeyHead (head : Text) : Prop :=
  ∃ word blanks after, KeyHead word blanks after ∧ head = word ++ (blanks ++ ':' :: after)

theorem isQuote_iff {c : Char} : isQuote c = true ↔ c = '\'' ∨ c = '"' ∨ c = '`' := by
  simp only [isQuote, Bool.or_eq_true, beq_iff_eq, or_assoc]

theorem isBlank_of_isQuote {c : Char} (h : isQuote c = true) : isBlank c = false := by
  rcases isQuote_iff.mp h with rfl | rfl | rfl <;> decide

theorem isQuote_of_isBlank {c : Char} (h : isBlank c = true) : isQuote c = false :=
  not_of_isBlank (by decide +kernel) h

/-- A key with its colon holds no quote. -/
theorem IsKeyHead.no_quote {head : Text} (h : IsKeyHead head) : ∀ c ∈ head, isQuote c = false := by
  obtain ⟨word, blanks, after, hkey, rfl⟩ := h
  intro c hc
  rw [← Bool.not_eq_true]
  intro hquote
  have hblank := isBlank_of_isQuote hquote
  rcases List.mem_append.mp hc with hc | hc
  · have hword := hkey.word c hc
    rcases isQuote_iff.mp hquote with rfl | rfl | rfl <;> cases hword
  rcases List.mem_append.mp hc with hc | hc
  · exact absurd (hkey.blanks c hc) (Bool.eq_false_iff.mp hblank)
  rcases List.mem_cons.mp hc with rfl | hc
  · cases hquote
  · exact absurd (hkey.after c hc) (Bool.eq_false_iff.mp hblank)

/-- The key at the head of a written key and value is read off it again. -/
theorem keyHead_append {head rest : Text} (h : IsKeyHead head) (hrest : Text.Stops isBlank rest) :
    keyHead (head ++ rest) = head := by
  obtain ⟨word, blanks, after, hkey, rfl⟩ := h
  have hsplit : word ++ (blanks ++ ':' :: after) ++ rest =
      word ++ (blanks ++ ':' :: (after ++ rest)) := by
    simp only [List.append_assoc, List.cons_append]
  have hblanks : Text.Stops isWordChar (blanks ++ ':' :: (after ++ rest)) := by
    cases blanks with
    | nil => exact Text.stops_cons.mpr (by decide)
    | cons b bs =>
      exact Text.stops_cons.mpr (isWordChar_of_isBlank (hkey.blanks b List.mem_cons_self))
  have hcolon : Text.Stops isBlank (':' :: (after ++ rest)) := Text.stops_cons.mpr (by decide)
  rw [hsplit, keyHead, Text.takeWhile_append_of_stops hkey.word hblanks,
    Text.dropWhile_append_of_stops hkey.word hblanks,
    Text.takeWhile_append_of_stops hkey.blanks hcolon,
    Text.dropWhile_append_of_stops hkey.blanks hcolon]
  simp only [hkey.begins, if_true]
  rw [Text.takeWhile_append_of_stops hkey.after hrest, List.append_assoc]

/-- What is left of a text without its leading characters that are of no kind begins with one that
is. -/
theorem head?_dropWhile_not {p : Char → Bool} {s : Text}
    (h : (s.dropWhile fun c => !p c) ≠ []) : (s.dropWhile fun c => !p c).head?.any p = true := by
  have hhead := List.head_dropWhile_not (fun c => !p c) h
  rw [List.head?_eq_some_head h, Option.any_some, ← Bool.not_eq_false']
  exact hhead

/-- A key that is found in front of a place ends there. -/
theorem exists_keyHead_of_keyLength? {s : Text} {n : Nat} (h : keyLength? s.reverse = some n) :
    ∃ front head, s = front ++ head ∧ head.length = n ∧ IsKeyHead head := by
  unfold keyLength? at h
  dsimp only at h
  split at h
  next rest hcolon =>
    split at h
    next => cases h
    next hkey =>
      cases h
      generalize hword : ((rest.dropWhile isBlank).takeWhile isWordChar).reverse = word at hkey ⊢
      have hs : s = rest.reverse ++ ':' :: (s.reverse.takeWhile isBlank).reverse := by
        have hall := List.takeWhile_append_dropWhile (p := isBlank) (l := s.reverse)
        rw [hcolon] at hall
        simpa using (congrArg List.reverse hall).symm
      have hrest : rest.reverse = ((rest.dropWhile isBlank).dropWhile isWordChar).reverse ++
          (word ++ (rest.takeWhile isBlank).reverse) := by
        rw [← hword, ← List.reverse_append, ← List.reverse_append, List.append_assoc,
          List.takeWhile_append_dropWhile, List.takeWhile_append_dropWhile]
      obtain ⟨skipped, hskipped⟩ : ∃ skipped, word = skipped ++ word.dropWhile fun c => !isNameStart c :=
        ⟨_, List.takeWhile_append_dropWhile.symm⟩
      have hwordChars : ∀ c ∈ word, isWordChar c = true := by
        intro c hc
        rw [← hword, List.mem_reverse] at hc
        exact List.all_eq_true.mp List.all_takeWhile c hc
      have hkeyed : KeyHead (word.dropWhile fun c => !isNameStart c) (rest.takeWhile isBlank).reverse
          (s.reverse.takeWhile isBlank).reverse := by
        refine ⟨head?_dropWhile_not fun hnil => hkey (List.isEmpty_iff.mpr hnil), ?_, ?_, ?_⟩
        · exact fun c hc => hwordChars c (List.dropWhile_sublist _ |>.subset hc)
        · exact fun c hc => List.all_eq_true.mp List.all_takeWhile c (List.mem_reverse.mp hc)
        · exact fun c hc => List.all_eq_true.mp List.all_takeWhile c (List.mem_reverse.mp hc)
      generalize (word.dropWhile fun c => !isNameStart c) = key at hskipped hkeyed ⊢
      refine ⟨((rest.dropWhile isBlank).dropWhile isWordChar).reverse ++ skipped, _, ?_, ?_, _, _, _,
        hkeyed, rfl⟩
      · refine hs.trans ?_
        rw [hrest, hskipped]
        simp only [List.append_assoc]
      · simp only [List.length_append, List.length_cons, List.length_reverse]
        omega
  next => cases h

/-! ## Units begin and end outside literals -/

/-- Both ends of a unit's spans lie outside the literals of the call, and its written form is a
literal after a key if its kind says so. -/
structure CallUnit.Literate (source : Text) (u : CallUnit) : Prop where
  quote : isQuote u.quote = true
  template : u.kind = .template → u.quote = '`'
  argument : u.kind = .pluginArgument → u.quote = '"'
  keyed : u.kind = .keyValue → ∃ head inner, IsKeyHead head ∧
    u.written = head ++ enclosed u.quote inner
  seams : ∀ span ∈ u.spans, Whole (source.take span.start) ∧ Whole (source.take span.stop)

theorem Literal.seams {source : Text} {l : Literal} (h : l ∈ literals source) :
    isQuote l.quote = true ∧ Whole (source.take l.start) ∧ Whole (source.take l.stop) ∧
      source.take l.stop = source.take l.start ++ enclosed l.quote l.inner := by
  have hmem : l ∈ literalsFrom 0 0 source := h
  obtain ⟨hquote, hfront, hstop, hcloses⟩ := whole_take_of_mem hmem
  rw [Nat.sub_zero] at hfront hstop
  rw [Nat.sub_zero] at hstop
  refine ⟨hquote, hfront, ?_, hstop⟩
  rw [hstop]
  exact hfront.append (whole_enclosed hquote hcloses)

/-- A unit from one literal up to another, without a key. -/
theorem CallUnit.literate_single {source : Text} {first last : Literal}
    (hfirst : first ∈ literals source) (hlast : last ∈ literals source) (text : Text) {kind : Kind}
    {quote : Char} (hquote : isQuote quote = true) (template : kind = .template → quote = '`')
    (argument : kind = .pluginArgument → quote = '"') (keyed : kind ≠ .keyValue) :
    (CallUnit.single source text kind quote ⟨first.start, last.stop⟩).Literate source := by
  refine ⟨hquote, template, argument, fun h => absurd h keyed, ?_⟩
  intro span hspan
  cases List.mem_singleton.mp hspan
  exact ⟨(Literal.seams hfirst).2.1, (Literal.seams hlast).2.2.1⟩

theorem literate_of_mem_pluginArguments {source : Text} {u : CallUnit}
    (h : u ∈ (pluginArguments source (literals source)).1) : u.Literate source := by
  unfold pluginArguments at h
  split at h
  next => cases h
  next call _ =>
    split at h
    next members _ =>
      obtain ⟨l, hl, hu⟩ := List.mem_filterMap.mp h
      split at hu
      next => cases hu
      next =>
        split at hu
        next => cases hu
        next value _ =>
          dsimp only at hu
          split at hu
          next =>
            cases hu
            exact CallUnit.literate_single hl hl value (by decide) nofun (fun _ => rfl) nofun
          next => cases hu
    next => cases h

theorem literate_of_chainUnit? {source : Text} {chain : List Literal}
    (hchain : chain ∈ chains source (literals source)) {u : CallUnit}
    (h : chainUnit? source chain = some u) : u.Literate source := by
  have hsub : chain.Sublist (literals source) :=
    sublist_of_mem_chainsFrom (List.mem_filter.mp hchain).1
  unfold chainUnit? at h
  split at h
  next first last hfirst hlast =>
    cases h
    have hmem := hsub.subset (List.mem_of_head? hfirst)
    exact CallUnit.literate_single hmem (hsub.subset (List.mem_of_getLast? hlast)) _
      (Literal.seams hmem).1 nofun nofun nofun
  next => cases h

/-- A literal with its key begins before the key, where no literal is open either: a key holds no
quote. -/
theorem literate_of_plainUnit? {source : Text} {l : Literal} (hl : l ∈ literals source)
    {u : CallUnit} (h : plainUnit? source l = some u) : u.Literate source := by
  obtain ⟨hquote, hfront, hback, hstop⟩ := Literal.seams hl
  unfold plainUnit? at h
  split at h
  next => cases h
  next =>
    split at h
    next n hkey =>
      cases h
      obtain ⟨front, head, hsplit, hlength, hhead⟩ := exists_keyHead_of_keyLength? hkey
      have hstart : l.start = front.length + n := by
        have hcut := congrArg List.length hsplit
        have hle := stop_le_of_mem_literals hl
        have hlt := l.start_lt_stop
        rw [List.length_take, List.length_append] at hcut
        omega
      have htake : source.take (l.start - n) = front := by
        have hcut := congrArg (List.take (l.start - n)) hsplit
        rwa [List.take_take, Nat.min_eq_left (Nat.sub_le _ _), List.take_left' (by omega)] at hcut
      rw [hsplit] at hfront
      refine ⟨hquote, nofun, nofun, fun _ => ⟨head, l.inner, hhead, ?_⟩, ?_⟩
      · change (source.take l.stop).drop (l.start - n) = _
        rw [hstop, hsplit, List.append_assoc, List.drop_left' (by omega)]
        rfl
      · intro span hspan
        cases List.mem_singleton.mp hspan
        refine ⟨?_, hback⟩
        rw [htake]
        exact hfront.of_append_no_quote hhead.no_quote
    next =>
      split at h
      next => cases h
      next =>
        cases h
        exact CallUnit.literate_single hl hl _ hquote nofun nofun nofun

/-- What is claimed was claimed before or is one of the proposals. -/
theorem mem_foldl_claim {us : List CallUnit} {claims : Claims} {u : CallUnit}
    (h : u ∈ (us.foldl Claims.claim claims).units) : u ∈ claims.units ∨ u ∈ us := by
  induction us generalizing claims with
  | nil => exact Or.inl h
  | cons v us ih =>
    rcases ih h with hu | hu
    · unfold Claims.claim at hu
      split at hu
      next => exact Or.inl hu
      next =>
        rcases List.mem_append.mp hu with hu | hu
        · exact Or.inl hu
        · exact Or.inr (List.mem_cons.mpr (Or.inl (List.mem_singleton.mp hu)))
    · exact Or.inr (List.mem_cons_of_mem _ hu)

theorem literate_of_mem_claimed {source : Text} {u : CallUnit} (h : u ∈ claimed source) :
    u.Literate source := by
  rcases mem_foldl_claim h with hfirst | hlater
  · rcases mem_foldl_claim hfirst with hnone | hfirst
    · cases hnone
    rcases List.mem_append.mp hfirst with htemplate | hargument
    · obtain ⟨l, hl, rfl⟩ := List.mem_map.mp htemplate
      have hl := (List.mem_filter.mp hl).1
      exact CallUnit.literate_single hl hl _ (by decide) (fun _ => rfl) nofun nofun
    · exact literate_of_mem_pluginArguments hargument
  · rcases List.mem_append.mp hlater with hchain | hplain
    · obtain ⟨chain, hchain, hu⟩ := List.mem_filterMap.mp hchain
      exact literate_of_chainUnit? hchain hu
    · obtain ⟨l, hl, hu⟩ := List.mem_filterMap.mp hplain
      exact literate_of_plainUnit? hl hu

namespace CallUnit

@[simp] theorem absorb_quote (u first : CallUnit) : (u.absorb first).quote = first.quote := by
  unfold absorb
  split <;> rfl

theorem Literate.absorb {source : Text} {u first : CallUnit} (h : first.Literate source)
    (hu : u.Literate source) : (u.absorb first).Literate source := by
  refine ⟨?_, ?_, ?_, ?_, ?_⟩
  · rw [absorb_quote]
    exact h.quote
  · rw [absorb_quote, absorb_kind]
    exact h.template
  · rw [absorb_quote, absorb_kind]
    exact h.argument
  · rw [absorb_quote, absorb_kind, absorb_written]
    exact h.keyed
  · intro span hspan
    rcases mem_absorb_spans hspan with hspan | ⟨hspan, -⟩
    · exact h.seams span hspan
    · exact hu.seams span hspan

end CallUnit

theorem accept_literate {source : Text} {accepted : List CallUnit} {u : CallUnit}
    (h : ∀ v ∈ accepted, v.Literate source) (hu : u.Literate source) :
    ∀ v ∈ accept accepted u, v.Literate source := by
  intro v hv
  unfold accept at hv
  split at hv
  next => exact h v hv
  next =>
    split at hv
    next =>
      obtain ⟨first, hfirst, rfl⟩ := List.mem_map.mp hv
      exact (h first hfirst).absorb hu
    next =>
      rcases List.mem_append.mp hv with hv | hv
      · exact h v hv
      · rw [List.mem_singleton.mp hv]
        exact hu

/-- Acceptance keeps the ends of the spans outside literals. -/
theorem foldl_accept_literate {source : Text} {us accepted : List CallUnit}
    (h : ∀ v ∈ accepted, v.Literate source) (hus : ∀ u ∈ us, u.Literate source) :
    ∀ v ∈ us.foldl accept accepted, v.Literate source := by
  induction us generalizing accepted with
  | nil => exact h
  | cons u us ih =>
    exact ih (accept_literate h (hus u List.mem_cons_self)) fun v hv =>
      hus v (List.mem_cons_of_mem _ hv)

theorem literate_of_mem_units {source : Text} {u : CallUnit} (h : u ∈ units source) :
    u.Literate source :=
  foldl_accept_literate (fun _ hv => absurd hv List.not_mem_nil)
    (fun _ hv => literate_of_mem_claimed (List.mem_mergeSort.mp hv)) u h

/-! ## New texts for units -/

namespace CallUnit

/-- What is written in front of the literal of a unit: its key, if it has one. -/
def head (u : CallUnit) : Text :=
  match u.kind with
  | .keyValue => keyHead u.written
  | _ => []

/-- What is written between the quotes of a unit for a text. -/
def inside (u : CallUnit) (t : Text) : Text :=
  match u.kind with
  | .pluginArgument => t.flatMap Json.escapeChar
  | _ => Quoted.escape [u.quote] t

/-- The written form of a text for the unit. -/
def render (u : CallUnit) (t : Text) : Text := ScriptCall.render u.kind u.written [u.quote] t

/-- The literal of a text that is written for the unit at an offset. -/
def literalAt (u : CallUnit) (t : Text) (offset : Nat) : Literal :=
  ⟨offset + u.head.length, u.quote, u.inside t⟩

namespace Literate

variable {source : Text} {u : CallUnit}

theorem closes_inside (h : u.Literate source) (t : Text) : Closes u.quote (u.inside t) := by
  unfold inside
  split
  next hkind =>
    rw [h.argument hkind]
    exact closes_quote t
  next => exact closes_escape h.quote t

theorem head_keyed (h : u.Literate source) (hkind : u.kind = .keyValue) :
    IsKeyHead u.head ∧ ∃ inner, u.written = u.head ++ enclosed u.quote inner := by
  obtain ⟨head, inner, hhead, hwritten⟩ := h.keyed hkind
  have hquote : Text.Stops isBlank (enclosed u.quote inner) :=
    Text.stops_cons.mpr (isBlank_of_isQuote h.quote)
  have heq : u.head = head := by
    rw [CallUnit.head, hkind, hwritten]
    exact keyHead_append hhead hquote
  rw [heq]
  exact ⟨hhead, inner, hwritten⟩

theorem head_no_quote (h : u.Literate source) : ∀ c ∈ u.head, isQuote c = false := by
  by_cases hkind : u.kind = .keyValue
  · exact (h.head_keyed hkind).1.no_quote
  · unfold CallUnit.head
    split
    next heq => exact absurd heq hkind
    next => exact nofun

/-- What is written for a text is the key of the unit and one literal. -/
theorem render_eq (h : u.Literate source) (t : Text) :
    u.render t = u.head ++ enclosed u.quote (u.inside t) := by
  have htemplate := h.template
  have hargument := h.argument
  obtain ⟨text, written, kind, quote, spans⟩ := u
  cases kind with
  | template =>
    obtain rfl : quote = '`' := htemplate rfl
    rfl
  | pluginArgument =>
    obtain rfl : quote = '"' := hargument rfl
    rfl
  | keyValue =>
    change keyHead written ++ [quote] ++ Quoted.escape [quote] t ++ [quote] =
      keyHead written ++ enclosed quote (Quoted.escape [quote] t)
    simp only [enclosed, List.append_assoc, List.cons_append, List.nil_append]
  | quoted => rfl
  | concatenation => rfl
  | other name => rfl

theorem whole_render (h : u.Literate source) (t : Text) : Whole (u.render t) := by
  rw [h.render_eq]
  exact (whole_of_no_quote h.head_no_quote).1.append (whole_enclosed h.quote (h.closes_inside t))

/-- What is written for a text holds one literal. -/
theorem literals_render (h : u.Literate source) (t : Text) :
    literals (u.render t) = [u.literalAt t 0] := by
  obtain ⟨hwhole, hnone⟩ := whole_of_no_quote h.head_no_quote
  have hliteral := literalsFrom_literal h.quote (h.closes_inside t) u.head.length []
  rw [List.append_nil] at hliteral
  rw [h.render_eq, literals, hwhole.literalsFrom_append, hnone, Nat.zero_add, hliteral, literalAt,
    Nat.zero_add]
  rfl

end Literate

end CallUnit

/-- The edits that give chosen units new texts, at every span of the unit. -/
def rewritesOf (texts : CallUnit → Option Text) (us : List CallUnit) : List Edit :=
  editsOf (fun u => (texts u).map u.render) us

/-- One literal for every span of a chosen unit, where the span lies in the changed call. -/
def rewrittenLiterals (texts : CallUnit → Option Text) (moved : Nat → Nat) (us : List CallUnit) :
    List Literal :=
  us.flatMap fun u =>
    match texts u with
    | none => []
    | some t => u.spans.map fun span => u.literalAt t (moved span.start)

theorem mem_rewritesOf {texts : CallUnit → Option Text} {us : List CallUnit} {e : Edit}
    (h : e ∈ rewritesOf texts us) : ∃ u ∈ us, ∃ t, ∃ span ∈ u.spans,
      e = ⟨span.start, span.stop, u.written, u.render t⟩ := by
  obtain ⟨u, hu, new, hnew, span, hspan, rfl⟩ := mem_editsOf h
  obtain ⟨t, -, rfl⟩ := Option.map_eq_some_iff.mp hnew
  exact ⟨u, hu, t, span, hspan, rfl⟩

theorem seamless_of_mem_rewritesOf {source : Text} {texts : CallUnit → Option Text}
    {r : Replacement}
    (h : r ∈ (rewritesOf texts (units source)).map Edit.asReplacement) : Seamless source r := by
  obtain ⟨e, he, rfl⟩ := List.mem_map.mp h
  obtain ⟨u, hu, t, span, hspan, rfl⟩ := mem_rewritesOf he
  have hwithin := (units_sound source).within u hu span hspan
  have hliterate := literate_of_mem_units hu
  obtain ⟨hfront, hback⟩ := hliterate.seams span hspan
  exact ⟨hwithin.start_lt_stop, hwithin.stop_le, hfront, hback, hliterate.whole_render t⟩

theorem flatMap_literals_rewritesOf {source : Text} (texts : CallUnit → Option Text)
    (moved : Nat → Nat) {us : List CallUnit} (h : ∀ u ∈ us, u.Literate source) :
    ((rewritesOf texts us).map Edit.asReplacement).flatMap
        (fun r => (literals r.text).map (.shift (moved r.start))) =
      rewrittenLiterals texts moved us := by
  rw [rewritesOf, editsOf, List.map_flatMap, List.flatMap_assoc, rewrittenLiterals]
  refine List.flatMap_congr ?_
  intro u hu
  cases texts u with
  | none => rfl
  | some t =>
    have hone : ∀ span : Span, (literals (u.render t)).map (.shift (moved span.start)) =
        [u.literalAt t (moved span.start)] := by
      intro span
      rw [(h u hu).literals_render, CallUnit.literalAt, Nat.zero_add]
      rfl
    simp only [Option.map_some, List.map_map, List.flatMap_map, Function.comp_def,
      Edit.asReplacement, Int.toNat_natCast, hone]
    exact List.map_eq_flatMap.symm

/-- **No text breaks out of its literal.** Chosen units of a call get new texts, with any
characters, and the edits are made in any order. The literals of the call are then those that stood
outside the replaced spans, moved, and one for every replaced span, behind the key of the unit; and
what had no end before has none now. -/
theorem literals_of_rewritten_units (source : Text) (texts : CallUnit → Option Text)
    {listed : List Edit} (perm : listed.Perm (rewritesOf texts (units source))) :
    let spans := (rewritesOf texts (units source)).map Edit.asReplacement
    let moved := movedTo spans source
    (∀ u ∈ units source, (∀ t, u.render t = u.head ++ enclosed u.quote (u.inside t)) ∧
      (u.kind = .keyValue → IsKeyHead u.head ∧ ∃ inner, u.written = u.head ++ enclosed u.quote inner)) ∧
    literals (applyEdits source listed) =
      (keptLiterals spans source ++ rewrittenLiterals texts moved (units source)).mergeSort
        (fun a b => a.start ≤ b.start) ∧
    openTail (applyEdits source listed) = openTail source := by
  intro spans moved
  have hsound := units_sound source
  have hliterate : ∀ u ∈ units source, u.Literate source := fun u hu => literate_of_mem_units hu
  have hedits : ∀ e ∈ rewritesOf texts (units source), e.Spans := fun e he =>
    (hsound.editsOf_fits _ e he).spans
  have hapart : (rewritesOf texts (units source)).Pairwise fun a b =>
      a.asReplacement.Apart b.asReplacement := editsOf_pairwise hsound.apart
  have happly : applyEdits source listed = Text.replaceSpans spans source :=
    (hsound.applyEdits_eq perm).2.trans
      (replaceSpans_edits_perm perm.symm hedits hapart source).symm
  have hsorted : (((rewritesOf texts (units source)).mergeSort fun a b => b.start ≤ a.start).map
      Edit.asReplacement).Pairwise fun a b => b.stop ≤ a.start :=
    List.pairwise_map.mpr <| (mergeSort_order hedits hapart).imp fun h => Int.toNat_le_toNat h
  obtain ⟨hliterals, htail⟩ := literals_replaceSpans ((List.mergeSort_perm _ _).map _) hsorted
    fun r hr => seamless_of_mem_rewritesOf hr
  rw [newLiterals, flatMap_literals_rewritesOf texts moved hliterate] at hliterals
  rw [happly]
  exact ⟨fun u hu => ⟨(hliterate u hu).render_eq, (hliterate u hu).head_keyed⟩, hliterals, htail⟩

/-- A name that stands twice gets a text with quotes and a backslash. -/
theorem literals_of_repeated_name :
    let source := "add('Bob','Bob')".toList
    let text := "O'Neil\\".toList
    let new := "'O\\'Neil\\\\'".toList
    let listed : List Edit := [⟨10, 15, "'Bob'".toList, new⟩, ⟨4, 9, "'Bob'".toList, new⟩]
    listed.Perm (rewritesOf (fun _ => some text) (units source)) ∧
      literals (applyEdits source listed) =
        [⟨4, '\'', "O\\'Neil\\\\".toList⟩, ⟨16, '\'', "O\\'Neil\\\\".toList⟩] ∧
      openTail (applyEdits source listed) = [] := by
  intro source text new listed
  have perm : listed.Perm (rewritesOf (fun _ => some text) (units source)) := by
    rw [units_of_repeated_name]
    exact List.Perm.swap _ _ _
  obtain ⟨-, hliterals, htail⟩ := literals_of_rewritten_units source (fun _ => some text) perm
  rw [units_of_repeated_name, List.mergeSort_of_pairwise (by decide +kernel)] at hliterals
  exact ⟨perm, hliterals.trans (by decide +kernel), htail.trans (by decide +kernel)⟩

end ScriptCall

end GameText
