import GameText.Proofs.Script.RenpyRoundTrip

/-!
# Literals in a trailing comment

A line of Ren'Py code is complete literals and characters between them; behind a `#` the rest of the
line is its comment. Extraction looks for the comment with a scan that remembers the open quote and
one character (`Text.beforeComment`), while literals are read with escapes. A literal whose text
ends in a backslash ends in an escape sequence and its closing quote; the scan takes that quote for
a protected one and goes on inside.

Where no literal does that, the comment is found at its `#` (`beforeComment_code`). Which literals
of a line are extracted is in any case decided by where the scan finds a comment, and
`extracted_bodies_iff` says when these are the literals of the code.
-/

namespace GameText

namespace Renpy

open Quoted (Closed IsQuote literal?)

/-- A piece of code with nothing left open: a closed literal, or a character that opens neither a
literal nor a comment. -/
def IsCode : Piece Text → Prop
  | .token value raw => Closed raw ∧ value = raw
  | .gap c => ¬ IsQuote c ∧ c ≠ '\\' ∧ c ≠ '#'

/-- The text of a literal ends in a backslash. -/
def EndsEscaped (literal : Text) : Prop := (Quoted.inner literal).getLast? = some '\\'

instance (literal : Text) : Decidable (EndsEscaped literal) := inferInstanceAs (Decidable (_ = _))

theorem IsCode.settled {p : Piece Text} (h : IsCode p) : Quoted.Settled p := by
  cases p with
  | gap c => exact h.1
  | token value raw => exact h

/-- A text is code if each character outside its literals is a character of code. -/
theorem isCode_pieces {text : Text}
    (h : ∀ c, .gap c ∈ pieces literal? text → ¬ IsQuote c ∧ c ≠ '\\' ∧ c ≠ '#') :
    ∀ p ∈ pieces literal? text, IsCode p := by
  intro p hp
  cases p with
  | gap c => exact h c hp
  | token value raw => exact Quoted.closed_of_token_mem hp

/-! ## Where the comment is found -/

/-- Outside quotes a character that is no quote and no mark is passed. -/
theorem beforeCommentFrom_plain {c : Char} (hquote : ¬ IsQuote c) (hmark : c ≠ '#')
    (before : Option Char) (cs : Text) : Text.beforeCommentFrom ['#'] ⟨none, before⟩ (c :: cs) =
      c :: Text.beforeCommentFrom ['#'] ⟨none, some c⟩ cs := by
  simp only [IsQuote, not_or] at hquote
  simp [Text.beforeCommentFrom, hquote, hmark]

/-- Outside quotes a quote behind no backslash opens. -/
theorem beforeCommentFrom_open {q : Char} (hq : IsQuote q) {before : Option Char}
    (hbefore : before ≠ some '\\') (cs : Text) :
    Text.beforeCommentFrom ['#'] ⟨none, before⟩ (q :: cs) =
      q :: Text.beforeCommentFrom ['#'] ⟨some q, some q⟩ cs := by
  rcases hq with rfl | rfl <;> simp [Text.beforeCommentFrom, hbefore]

/-- Inside quotes every character is passed but the closing quote, and that too behind a
backslash. -/
theorem beforeCommentFrom_inside {q c : Char} {before : Option Char}
    (h : c ≠ q ∨ before = some '\\') (cs : Text) :
    Text.beforeCommentFrom ['#'] ⟨some q, before⟩ (c :: cs) =
      c :: Text.beforeCommentFrom ['#'] ⟨some q, some c⟩ cs := by
  rw [Text.beforeCommentFrom]
  split
  next hcounts =>
    simp only [Bool.and_eq_true, bne_iff_ne] at hcounts
    have hne : q ≠ c := (h.resolve_right hcounts.2).symm
    simp only [hne, if_false]
  next =>
    rw [if_neg]
    simp

/-- Inside quotes the closing quote behind no backslash closes. -/
theorem beforeCommentFrom_close {q : Char} (hq : IsQuote q) {before : Option Char}
    (hbefore : before ≠ some '\\') (cs : Text) :
    Text.beforeCommentFrom ['#'] ⟨some q, before⟩ (q :: cs) =
      q :: Text.beforeCommentFrom ['#'] ⟨none, some q⟩ cs := by
  rcases hq with rfl | rfl <;> simp [Text.beforeCommentFrom, hbefore]

/-- The inside of a literal is passed, and its closing quote is seen unless a backslash stands
before it. -/
theorem beforeCommentFrom_close? {q : Char} (hq : IsQuote q) {s body rest : Text}
    (h : Quoted.close? q s = some (body ++ [q], rest)) {before : Char}
    (hseen : body.getLast?.getD before ≠ '\\') (after : Text) :
    Text.beforeCommentFrom ['#'] ⟨some q, some before⟩ (body ++ q :: after) =
      body ++ q :: Text.beforeCommentFrom ['#'] ⟨none, some q⟩ after := by
  fun_induction Quoted.close? q s generalizing body rest before with
  | case1 => cases h
  | case2 => cases h
  | case3 => cases h
  | case4 c cs _ ih =>
    obtain ⟨⟨inside', rest'⟩, hclose, heq⟩ := Option.map_eq_some_iff.mp h
    obtain ⟨-, body', rfl⟩ := Quoted.close?_eq hclose
    obtain rfl : '\\' :: c :: body' = body := List.append_cancel_right (congrArg Prod.fst heq)
    have hpair : body'.getLast?.getD c ≠ '\\' := by
      rwa [List.getLast?_cons_cons, List.getLast?_cons, Option.getD_some] at hseen
    rw [List.cons_append, List.cons_append,
      beforeCommentFrom_inside (.inl (Ne.symm hq.ne_backslash)),
      beforeCommentFrom_inside (.inr rfl), ih hclose hpair]
    rfl
  | case5 cs hbare hlone =>
    obtain rfl : [] = body := List.append_cancel_right (congrArg Prod.fst (Option.some.inj h))
    exact beforeCommentFrom_close hq (fun h => hseen (Option.some.inj h)) after
  | case6 c cs hbare hlone hne ih =>
    obtain ⟨⟨inside', rest'⟩, hclose, heq⟩ := Option.map_eq_some_iff.mp h
    obtain ⟨-, body', rfl⟩ := Quoted.close?_eq hclose
    obtain rfl : c :: body' = body := List.append_cancel_right (congrArg Prod.fst heq)
    have hlater : body'.getLast?.getD c ≠ '\\' := by
      rwa [List.getLast?_cons, Option.getD_some] at hseen
    rw [List.cons_append, beforeCommentFrom_inside (.inl hne), ih hclose hlater]
    rfl

/-- A literal that does not end in a backslash is passed as one. -/
theorem beforeCommentFrom_literal {raw : Text} (hclosed : Closed raw) (hplain : ¬ EndsEscaped raw)
    {before : Option Char} (hbefore : before ≠ some '\\') (after : Text) :
    ∃ q, IsQuote q ∧ Text.beforeCommentFrom ['#'] ⟨none, before⟩ (raw ++ after) =
      raw ++ Text.beforeCommentFrom ['#'] ⟨none, some q⟩ after := by
  obtain ⟨q, inside, hq, rfl, hclose⟩ := hclosed
  obtain ⟨-, body, rfl⟩ := Quoted.close?_eq (hclose [])
  have hinner : Quoted.inner (q :: (body ++ [q])) = body := by
    rw [Quoted.inner, List.drop_succ_cons, List.drop_zero, List.dropLast_concat]
  have hseen : body.getLast?.getD q ≠ '\\' := by
    rw [EndsEscaped, hinner] at hplain
    cases hlast : body.getLast? with
    | none => exact hq.ne_backslash
    | some c => exact fun h => hplain (hlast.trans (congrArg some h))
  refine ⟨q, hq, ?_⟩
  have hpassed := beforeCommentFrom_close? hq (hclose []) hseen after
  rw [List.cons_append, beforeCommentFrom_open hq hbefore, List.append_assoc,
    List.singleton_append, hpassed, List.cons_append, List.append_assoc]
  rfl

/-- **The comment of a line is found at its mark**, if no literal of its code ends in a
backslash. -/
theorem beforeComment_code {code : List (Piece Text)} (hcode : ∀ p ∈ code, IsCode p)
    (hplain : ∀ literal ∈ code.filterMap Piece.value?, ¬ EndsEscaped literal) (comment : Text) :
    Text.beforeComment ['#'] (code.flatMap Piece.raw ++ '#' :: comment) =
      code.flatMap Piece.raw := by
  suffices h : ∀ before ≠ some '\\', Text.beforeCommentFrom ['#'] ⟨none, before⟩
      (code.flatMap Piece.raw ++ '#' :: comment) = code.flatMap Piece.raw from
    h none nofun
  induction code with
  | nil =>
    intro before _
    simp [Text.beforeCommentFrom]
  | cons p code ih =>
    intro before hbefore
    have hp := hcode p List.mem_cons_self
    have ih := ih (fun p hp => hcode p (List.mem_cons_of_mem _ hp))
    rw [List.flatMap_cons, List.append_assoc]
    cases p with
    | gap c =>
      obtain ⟨hquote, hbackslash, hmark⟩ := hp
      rw [Piece.raw, List.singleton_append, beforeCommentFrom_plain hquote hmark,
        ih hplain _ (fun h => hbackslash (Option.some.inj h))]
      rfl
    | token value raw =>
      obtain ⟨hclosed, rfl⟩ := hp
      have hliteral := hplain value List.mem_cons_self
      obtain ⟨q, hq, hpassed⟩ := beforeCommentFrom_literal hclosed hliteral hbefore
        (code.flatMap Piece.raw ++ '#' :: comment)
      rw [Piece.raw, hpassed, ih (fun literal hmem => hplain literal (List.mem_cons_of_mem _ hmem))
        _ (fun h => hq.ne_backslash (Option.some.inj h))]

/-! ## Which literals are extracted -/

/-- Of a row in two parts, the beginning is the first part exactly if all of it counts and what
follows it does not. -/
theorem takeWhile_append_eq_left_iff {α : Type} {p : α → Bool} {xs ys : List α} :
    (xs ++ ys).takeWhile p = xs ↔ (∀ x ∈ xs, p x = true) ∧ ∀ y ∈ ys.head?, p y = false := by
  constructor
  · intro h
    have hall : ∀ x ∈ xs, p x = true := List.all_eq_true.mp (h ▸ List.all_takeWhile)
    rw [List.takeWhile_append_of_pos hall] at h
    refine ⟨hall, fun y hy => Bool.eq_false_iff.mpr fun hp => ?_⟩
    obtain ⟨ys', rfl⟩ := List.head?_eq_some_iff.mp hy
    rw [List.takeWhile_cons_of_pos hp] at h
    exact List.cons_ne_nil _ _ (List.append_right_eq_self.mp h)
  · rintro ⟨hall, hhead⟩
    rw [List.takeWhile_append_of_pos hall]
    cases ys with
    | nil => rw [List.takeWhile_nil, List.append_nil]
    | cons y ys =>
      have hy := hhead y rfl
      rw [List.takeWhile_cons_of_neg (by rw [hy]; decide), List.append_nil]

/-- The texts of a line of dialogue are those of its literals up to the place where a comment is
found. -/
theorem map_fst_lineUnits {line : Text} (accepted : isDialogueLine line = true) (number : Nat) :
    (lineUnits line number).map (·.1) =
      ((line.spans literal?).takeWhile fun span =>
        span.1 < (Text.beforeComment ['#'] line).length).map fun span => Quoted.inner span.2.2 := by
  have hspans := List.takeWhile_map (f := fun x : (Nat × Nat × Text) × Nat => x.1)
    (p := fun span => decide (span.1 < (Text.beforeComment ['#'] line).length))
    (l := (line.spans literal?).zipIdx)
  rw [List.zipIdx_map_fst] at hspans
  rw [lineUnits, if_pos accepted, literalsOf, List.map_map, List.map_map, hspans, List.map_map]
  rfl

/-- The units addressed to a line are all the units of the line. -/
theorem filter_extract_eq {source : Text} {number : Nat} {l : Line}
    (hl : source.lines[number]? = some l) :
    (extract source).filter (fun u => u.2.line = (number : Int)) = lineUnits l.body number := by
  have hdistinct : ((Script.numbered source).map (·.2)).Nodup := by
    rw [Script.numbered, List.zipIdx_map_snd]
    exact List.nodup_range'
  have hmem : (l.body, number) ∈ Script.numbered source := by
    rw [Script.numbered, List.mk_mem_zipIdx_iff_getElem?, List.getElem?_map, hl]
    rfl
  refine Script.filter_units_eq LiteralAddress.line (fun number line => lineUnits line number) ?_
    hdistinct hmem
  intro number line u hu
  obtain ⟨n, start, stop, literal, -, rfl⟩ := exists_of_mem_lineUnits hu
  rfl

/-- The literals of a line with a comment: those of the code, then those behind the mark. -/
theorem spans_code {code : List (Piece Text)} (hcode : ∀ p ∈ code, IsCode p) (comment : Text) :
    Text.spans literal? (code.flatMap Piece.raw ++ '#' :: comment) =
      Piece.spansFrom 0 code ++
        Piece.spansFrom (code.flatMap Piece.raw).length (pieces literal? ('#' :: comment)) := by
  have hpieces := Quoted.literal?_blind.pieces_firm_append
    (fun p hp => (hcode p hp).settled.firm) none ('#' :: comment)
  rw [Text.spans, pieces, hpieces, Piece.spansFrom_append, Nat.zero_add]

theorem start_lt_of_mem_code {code : List (Piece Text)} (hcode : ∀ p ∈ code, IsCode p)
    {span : Nat × Nat × Text} (h : span ∈ Piece.spansFrom 0 code) :
    span.1 < (code.flatMap Piece.raw).length := by
  obtain ⟨start, stop, literal⟩ := span
  obtain ⟨before, own, after, rfl, hstart, -⟩ := Piece.exists_of_mem_spansFrom h
  have hown : IsCode (.token literal own) :=
    hcode _ (List.mem_append_right _ List.mem_cons_self)
  have hpos := List.length_pos_iff.mpr hown.1.ne_nil
  rw [List.flatMap_append, List.flatMap_cons, List.length_append, List.length_append, Piece.raw]
  dsimp only
  omega

/-- What is behind the mark of a row of literals counts exactly if its first literal does. -/
theorem forall_lt_iff_head {offset bound : Nat} {ps : List (Piece Text)} :
    (∀ span ∈ Piece.spansFrom offset ps, ¬ span.1 < bound) ↔
      ∀ span ∈ (Piece.spansFrom offset ps).head?, ¬ span.1 < bound := by
  have hordered := Piece.spansFrom_pairwise offset ps
  constructor
  · exact fun h span hspan => h span (List.mem_of_mem_head? hspan)
  · intro h
    cases hrow : Piece.spansFrom offset ps with
    | nil => exact nofun
    | cons first others =>
      rw [hrow] at hordered h
      have hfirst : ¬ first.1 < bound := h first rfl
      obtain ⟨hbehind, -⟩ := List.pairwise_cons.mp hordered
      intro span hspan
      rcases List.mem_cons.mp hspan with rfl | hspan
      · exact hfirst
      · have hmem : first ∈ Piece.spansFrom offset ps := hrow ▸ List.mem_cons_self
        obtain ⟨-, own, -, -, -, hstop⟩ := Piece.exists_of_mem_spansFrom hmem
        have hle : first.2.1 ≤ span.1 := hbehind span hspan
        have hsize : first.1 ≤ first.2.1 := hstop ▸ Nat.le_add_right _ _
        omega

/-- **Which texts a line with a comment gives.** On a line of dialogue that is code, a `#` and a
comment, the extracted texts are those of the literals of the code if no such literal ends in a
backslash. In any case they are these texts exactly if the place where the scan finds a comment lies
behind the beginning of every literal of the code and not behind that of any literal of the
comment. -/
theorem extracted_bodies_iff {source : Text} {number : Nat} {l : Line}
    (hl : source.lines[number]? = some l) {code : List (Piece Text)}
    (hcode : ∀ p ∈ code, IsCode p) {comment : Text}
    (hbody : l.body = code.flatMap Piece.raw ++ '#' :: comment)
    (accepted : isDialogueLine l.body = true) :
    let texts := ((extract source).filter fun u => u.2.line = (number : Int)).map (·.1)
    let bodies := (code.filterMap Piece.value?).map Quoted.inner
    ((∀ literal ∈ code.filterMap Piece.value?, ¬ EndsEscaped literal) → texts = bodies) ∧
      (texts = bodies ↔ ∀ span ∈ l.body.spans literal?,
        span.1 < (Text.beforeComment ['#'] l.body).length ↔
          span.1 < (code.flatMap Piece.raw).length) := by
  intro texts bodies
  have htexts : texts = ((l.body.spans literal?).takeWhile fun span =>
      span.1 < (Text.beforeComment ['#'] l.body).length).map fun span => Quoted.inner span.2.2 := by
    have hunits : (extract source).filter (fun u => u.2.line = (number : Int)) =
        lineUnits l.body number := filter_extract_eq hl
    rw [← map_fst_lineUnits accepted number, ← hunits]
  have hspans : l.body.spans literal? = Piece.spansFrom 0 code ++
      Piece.spansFrom (code.flatMap Piece.raw).length (pieces literal? ('#' :: comment)) := by
    rw [hbody]
    exact spans_code hcode comment
  have hbodies : bodies = (Piece.spansFrom 0 code).map fun span => Quoted.inner span.2.2 := by
    have hvalues := congrArg (List.map Quoted.inner) (Piece.map_value_spansFrom 0 code)
    rw [List.map_map] at hvalues
    exact hvalues.symm
  have hbehind : ∀ span ∈ Piece.spansFrom (code.flatMap Piece.raw).length
      (pieces literal? ('#' :: comment)), ¬ span.1 < (code.flatMap Piece.raw).length := by
    intro span hspan
    obtain ⟨before, -, -, -, hstart, -⟩ := Piece.exists_of_mem_spansFrom hspan
    omega
  -- the texts are those of the first literals, so it is their number that decides
  have hnumber : texts = bodies ↔ (l.body.spans literal?).takeWhile
      (fun span => span.1 < (Text.beforeComment ['#'] l.body).length) = Piece.spansFrom 0 code := by
    rw [htexts, hbodies]
    refine ⟨fun h => ?_, fun h => by rw [h]⟩
    have hlength := congrArg List.length h
    rw [List.length_map, List.length_map] at hlength
    have hprefix : Piece.spansFrom 0 code <+: l.body.spans literal? :=
      hspans ▸ List.prefix_append _ _
    exact (List.prefix_of_prefix_length_le (List.takeWhile_prefix _) hprefix
      (Nat.le_of_eq hlength)).eq_of_length hlength
  have hiff : texts = bodies ↔ ∀ span ∈ l.body.spans literal?,
      span.1 < (Text.beforeComment ['#'] l.body).length ↔
        span.1 < (code.flatMap Piece.raw).length := by
    rw [hnumber, hspans, takeWhile_append_eq_left_iff, List.forall_mem_append]
    simp only [decide_eq_true_eq, decide_eq_false_iff_not]
    rw [← forall_lt_iff_head]
    refine and_congr (forall₂_congr fun span hspan => ?_) (forall₂_congr fun span hspan => ?_)
    · exact (iff_true_right (start_lt_of_mem_code hcode hspan)).symm
    · exact (iff_false_right (hbehind span hspan)).symm
  refine ⟨fun hplain => hiff.mpr fun span _ => ?_, hiff⟩
  rw [hbody, beforeComment_code hcode hplain comment]

/-- A literal with a mark and a protected quote, one in the other quotes, and a comment with a
third. -/
theorem marks_in_literals_passed :
    let source : Text := "e \"a \\\" # b\" 'it' # \"x\"".toList
    isDialogueLine source = true ∧
      ((extract source).filter fun u => u.2.line = ((0 : Nat) : Int)).map (·.1) =
        ["a \\\" # b".toList, "it".toList] := by
  intro source
  let text : Text := "e \"a \\\" # b\" 'it' ".toList
  have hpieces : pieces literal? text = [.gap 'e', .gap ' ',
      .token "\"a \\\" # b\"".toList "\"a \\\" # b\"".toList, .gap ' ',
      .token "'it'".toList "'it'".toList, .gap ' '] := by
    decide +kernel
  have hcode : ∀ p ∈ pieces literal? text, IsCode p := by
    refine isCode_pieces fun c hc => ?_
    rw [hpieces] at hc
    simp only [List.mem_cons, List.not_mem_nil, Piece.gap.injEq, reduceCtorEq, or_false,
      false_or] at hc
    rcases hc with rfl | rfl | rfl | rfl <;> decide
  have hl : source.lines[0]? = some ⟨source, []⟩ := by decide +kernel
  have hbody : source = (pieces literal? text).flatMap Piece.raw ++ '#' :: " \"x\"".toList := by
    rw [flatMap_raw_pieces Quoted.literal?_cuts]
    decide +kernel
  have accepted : isDialogueLine source = true := by decide +kernel
  refine ⟨accepted, ((extracted_bodies_iff hl hcode hbody accepted).1 ?_).trans ?_⟩
  · rw [hpieces]
    decide +kernel
  · rw [hpieces]
    decide +kernel

/-- A literal that ends in an escaped backslash: the scan takes its closing quote for a protected
one, passes the mark, and the literal of the comment is extracted. -/
theorem literal_of_comment_extracted :
    let code : List (Piece Text) := [.gap 'e', .gap ' ',
      .token "\"a\\\\\"".toList "\"a\\\\\"".toList, .gap ' ']
    let source : Text := code.flatMap Piece.raw ++ '#' :: " \"b\"".toList
    (∀ p ∈ code, IsCode p) ∧ source.lines[0]? = some ⟨source, []⟩ ∧
      isDialogueLine source = true ∧
      (code.filterMap Piece.value?).map Quoted.inner = ["a\\\\".toList] ∧
      ((extract source).filter fun u => u.2.line = ((0 : Nat) : Int)).map (·.1) =
        ["a\\\\".toList, "b".toList] := by
  intro code source
  have hcode : ∀ p ∈ code, IsCode p := by
    have hpieces : pieces literal? "e \"a\\\\\" ".toList = code := by decide +kernel
    rw [← hpieces]
    refine isCode_pieces fun c hc => ?_
    rw [hpieces] at hc
    simp only [code, List.mem_cons, List.not_mem_nil, Piece.gap.injEq, reduceCtorEq, or_false,
      false_or] at hc
    rcases hc with rfl | rfl | rfl <;> decide
  refine ⟨hcode, ?_⟩
  decide +kernel

end Renpy

end GameText
