import GameText.Proofs.Script.KagLine
import GameText.Proofs.Text.Lines
import GameText.Proofs.Text.TagRuns
import GameText.Script.Kag

/-!
# A line rebuilt with its own text

Each shape of a line is found by one recogniser and rebuilt by another. For a unit of the line and
the text it was extracted with, `rebuild_eq_self_iff` decides when the two agree on the characters
of the line (`Survives`): always for prose and quotations; for an evaluation if its value is written
as it is, or is not written at all because it holds the quote around the expression; for an
attribute if the line's first value of that name and quote is the unit's, which only a line of tags
or directives can fail (`firstValue?_of_prose`).
-/

namespace GameText

namespace Text

theorem occursIn_singleton (c : Char) (s : Text) : occursIn [c] s = true ↔ c ∈ s := by
  induction s with
  | nil =>
    rw [occursIn]
    exact ⟨fun h => (nomatch h), fun h => (nomatch h)⟩
  | cons d ds ih =>
    rw [occursIn, Bool.or_eq_true, ih, List.mem_cons, startsWith, after?]
    split
    next hd => exact ⟨fun _ => Or.inl hd.symm, fun _ => Or.inl rfl⟩
    next hd =>
      refine ⟨fun h => Or.inr (h.resolve_left (by decide)), fun h => Or.inr ?_⟩
      exact h.resolve_left fun heq => hd heq.symm

end Text

namespace Kag

open Quoted (IsQuote)

/-- With a quote of one character, a value up to it is the quoted value. -/
theorem valueUpTo?_singleton (q : Char) (s : Text) : valueUpTo? [q] s = value? q s := by
  induction s with
  | nil => rfl
  | cons c cs ih =>
    rw [valueUpTo?, value?, Text.after?, ih]
    by_cases hc : c = q
    · simp only [hc, if_true, Text.after?]
    · simp only [hc, if_false]

/-! ## Prose and quotations -/

/-- Prose written back between its tag runs is the line. -/
theorem rebuild_center {line : Text} (hline : '\n' ∉ line) :
    (TagRuns.ofLine line).lead ++ Text.inlineBreaks breakTag (TagRuns.ofLine line).center ++
      (TagRuns.ofLine line).tail = line := by
  have htext := TagRuns.text_ofLine line
  have hcenter : '\n' ∉ (TagRuns.ofLine line).center := by
    intro h
    refine hline ?_
    rw [← htext, TagRuns.text]
    exact List.mem_append_left _ (List.mem_append_right _ h)
  rw [Text.inlineBreaks_of_not_mem _ hcenter]
  exact htext

theorem quotation?_cuts : Recognizer.Cuts quotation? := fun _ s inside rest h => by
  obtain ⟨hsplit, -, -⟩ := quotation?_eq_some_iff.mp h
  refine ⟨'「' :: (inside ++ ['」']), List.cons_ne_nil _ _, ?_⟩
  rw [hsplit, List.cons_append, List.append_assoc, List.singleton_append]

/-- A quotation is its inside between the two marks. -/
theorem raw_of_quotation_mem {line inside own : Text}
    (h : .token inside own ∈ pieces quotation? line) :
    own = '「' :: (inside ++ ['」']) ∧ '\n' ∉ inside := by
  obtain ⟨-, before, rest, hrec⟩ := recognized_of_token_mem quotation?_cuts h
  obtain ⟨hsplit, -, hline⟩ := quotation?_eq_some_iff.mp hrec
  refine ⟨List.append_cancel_right (hsplit.trans ?_), hline⟩
  rw [List.cons_append, List.append_assoc, List.singleton_append]

theorem rebuild_quotation {line inside : Text} {n : Nat}
    (h : (line.tokens quotation?)[n]? = some inside) :
    line.mapNthToken quotation? (n : Int)
      (fun _ _ => '「' :: Text.inlineBreaks breakTag inside ++ ['」']) = line := by
  rw [Text.mapNthToken, if_neg (by omega), Int.toNat_natCast]
  have hown : ∀ own, .token inside own ∈ pieces quotation? line →
      own = '「' :: Text.inlineBreaks breakTag inside ++ ['」'] := by
    intro own hmem
    obtain ⟨hraw, hline⟩ := raw_of_quotation_mem hmem
    rw [Text.inlineBreaks_of_not_mem _ hline]
    exact hraw
  rw [Piece.mapNth_of_raw h hown, flatMap_raw_pieces quotation?_cuts]

/-! ## Attributes -/

/-- Recognises an attribute with a name and a quote. -/
def namedAttribute? (name quote : Text) : Recognizer Attribute := fun before s =>
  (attribute? before s).filter fun (a, _) => a.name == name && [a.quote] == quote

theorem namedAttribute?_eq_some_iff {name : Text} {q : Char} {before : Option Char} {s rest : Text}
    {a : Attribute} : namedAttribute? name [q] before s = some (a, rest) ↔
      a.name = name ∧ a.quote = q ∧ a.StandsAt before s rest := by
  rw [namedAttribute?, Option.filter_eq_some_iff, attribute?_eq_some_iff]
  simp only [Bool.and_eq_true, beq_iff_eq, List.cons.injEq, and_true]
  exact ⟨fun ⟨h, hname, hq⟩ => ⟨hname, hq, h⟩, fun ⟨hname, hq, h⟩ => ⟨h, hname, hq⟩⟩

/-- A place where no attribute stands has none with a name and a quote. -/
theorem namedAttribute?_none (name quote : Text) (before : Option Char) (s : Text)
    (h : attribute? before s = none) : namedAttribute? name quote before s = none := by
  rw [namedAttribute?, h]
  rfl

/-- Before a name of an attribute a word begins unless a word character stands there. -/
theorem beginsWordAt_name {name : Text} (hname : name = "text".toList ∨ name = "name".toList)
    (before : Option Char) (rest : Text) :
    beginsWordAt before (name ++ rest) = !before.any isWordChar := by
  have hhead : ∃ c, (name ++ rest).head? = some c ∧ isWordChar c = true := by
    rcases hname with rfl | rfl
    · exact ⟨'t', rfl, by decide⟩
    · exact ⟨'n', rfl, by decide⟩
  obtain ⟨c, hc, hword⟩ := hhead
  rw [beginsWordAt, atWordEdge, hc, Option.any_some, hword, Bool.bne_true]

theorem attributeValue?_eq_some_iff {name : Text}
    (hname : name = "text".toList ∨ name = "name".toList) {q : Char} (hq : IsQuote q)
    {before : Option Char} {s rest : Text} : attributeValue? name [q] before s = some ((), rest) ↔
      ∃ text, Attribute.StandsAt ⟨name, q, text⟩ before s rest := by
  rw [attributeValue?]
  constructor
  · intro h
    split at h
    next hbegins =>
      simp only [Option.bind_eq_bind, Option.bind_eq_some_iff, Option.pure_def, Option.some_inj,
        Prod.mk.injEq, true_and, Prod.exists] at h
      obtain ⟨rest₁, hafter, text, rest₂, hvalue, rfl⟩ := h
      rw [valueUpTo?_singleton] at hvalue
      obtain ⟨hsplit, hmem, hline⟩ := value?_eq_some_iff.mp hvalue
      have hs := Text.after?_eq_some_iff.mp hafter
      rw [hsplit, List.append_assoc, List.cons_append, List.singleton_append] at hs
      rw [hs, beginsWordAt_name hname, Bool.not_eq_true'] at hbegins
      exact ⟨text, hbegins, hname, hq, hs, hmem, hline⟩
    next => cases h
  · rintro ⟨text, hbegins, -, -, hsplit, hmem, hline⟩
    dsimp only at hsplit
    have hafter : Text.after? (name ++ '=' :: [q]) s = some (text ++ q :: rest) := by
      rw [hsplit, Text.after?_eq_some_iff, List.append_assoc, List.cons_append,
        List.singleton_append]
    have hvalue : valueUpTo? [q] (text ++ q :: rest) = some (text, rest) := by
      rw [valueUpTo?_singleton]
      exact value?_eq_some_iff.mpr ⟨rfl, hmem, hline⟩
    rw [if_pos (by rw [hsplit, beginsWordAt_name hname, hbegins]; rfl), hafter]
    simp only [Option.bind_eq_bind, Option.bind_some, hvalue]
    rfl

/-- The writer looks for an attribute at the same places as the reader. -/
theorem attributeValue?_eq {name : Text} (hname : name = "text".toList ∨ name = "name".toList)
    {q : Char} (hq : IsQuote q) (before : Option Char) (s : Text) :
    attributeValue? name [q] before s =
      (namedAttribute? name [q] before s).map fun (_, rest) => ((), rest) := by
  refine Option.ext fun ⟨_, rest⟩ => ?_
  rw [attributeValue?_eq_some_iff hname hq, Option.map_eq_some_iff]
  constructor
  · rintro ⟨text, hstands⟩
    exact ⟨(⟨name, q, text⟩, rest), namedAttribute?_eq_some_iff.mpr ⟨rfl, rfl, hstands⟩, rfl⟩
  · rintro ⟨⟨a, rest'⟩, hnamed, heq⟩
    cases heq
    obtain ⟨rfl, rfl, hstands⟩ := namedAttribute?_eq_some_iff.mp hnamed
    exact ⟨a.text, hstands⟩

theorem find?_attributeValue? {name : Text} (hname : name = "text".toList ∨ name = "name".toList)
    {q : Char} (hq : IsQuote q) {line lead after : Text} {first : Attribute}
    (h : Text.find? (namedAttribute? name [q]) line = some (lead, first, after)) :
    Text.find? (attributeValue? name [q]) line = some (lead, (), after) := by
  have hmap := Text.findFrom?_map (f := fun _ : Attribute => ())
    (attributeValue?_eq hname hq) none line
  rw [Text.find?] at h ⊢
  rw [hmap, h]
  rfl

/-- The value of the first attribute of a line with a name and a quote, wherever it stands. -/
def firstValue? (name quote line : Text) : Option Text :=
  (Text.find? (namedAttribute? name quote) line).map fun (_, a, _) => a.text

section Attribute

variable {line : Text} {a : Attribute}

theorem standsAt_of_token {own : Text} (h : .token a own ∈ pieces attribute? line) :
    ∃ before s rest, a.StandsAt before s rest := by
  obtain ⟨-, before, rest, hrec⟩ := recognized_of_token_mem attribute?_cuts h
  exact ⟨before, _, rest, attribute?_eq_some_iff.mp hrec⟩

/-- The attribute of a unit is a token of the line. -/
theorem exists_token_of_found
    (h : (line.tokens attribute?).find? (Attribute.counts line) = some a) :
    ∃ own, .token a own ∈ pieces attribute? line := by
  obtain ⟨p, hp, hvalue⟩ := List.mem_filterMap.mp (List.mem_of_find?_eq_some h)
  cases p with
  | gap c => cases hvalue
  | token value own =>
    cases hvalue
    exact ⟨own, hp⟩

/-- Of the name and the quote of a token the line has a first attribute. -/
theorem exists_named_of_token {own : Text} (h : .token a own ∈ pieces attribute? line) :
    ∃ lead first after,
      Text.find? (namedAttribute? a.name [a.quote]) line = some (lead, first, after) := by
  have hfinds : (Text.find? (namedAttribute? a.name [a.quote]) line).isSome :=
    Text.find?_isSome_of_token_mem attribute?_cuts (fun before s rest hrec => by
      rw [namedAttribute?_eq_some_iff.mpr ⟨rfl, rfl, attribute?_eq_some_iff.mp hrec⟩]
      rfl) h
  obtain ⟨⟨lead, first, after⟩, hfirst⟩ := Option.isSome_iff_exists.mp hfinds
  exact ⟨lead, first, after, hfirst⟩

/-- On a line with prose the unit is the line's first attribute. -/
theorem firstValue?_of_prose
    (h : (line.tokens attribute?).find? (Attribute.counts line) = some a)
    (hprose : isGarbage line = false) : firstValue? a.name [a.quote] line = some a.text := by
  cases htokens : line.tokens attribute? with
  | nil =>
    rw [htokens] at h
    cases h
  | cons first others =>
    have hcounts : Attribute.counts line first = true := by
      rw [Attribute.counts, hprose]
      rfl
    rw [htokens, List.find?_cons_of_pos hcounts] at h
    obtain rfl : first = a := Option.some.inj h
    obtain ⟨lead, rest, hfind⟩ := Text.find?_of_first_token attribute?_cuts htokens
    obtain ⟨at?, tail, -, hrec, hagree⟩ :=
      Text.findFrom?_agree (namedAttribute?_none first.name [first.quote]) hfind
    have hnamed := namedAttribute?_eq_some_iff.mpr ⟨rfl, rfl, attribute?_eq_some_iff.mp hrec⟩
    rw [firstValue?, Text.find?, hagree _ _ hnamed]
    rfl

/-- **An attribute written with its own text** leaves the line as it is exactly if the line's first
value of that name and quote is the unit's. -/
theorem rebuildAttribute_eq_self_iff
    (h : (line.tokens attribute?).find? (Attribute.counts line) = some a) (number : Int) :
    rebuildAttribute (a.unit number).2 a.text line = line ↔
      firstValue? a.name [a.quote] line = some a.text := by
  obtain ⟨own, htoken⟩ := exists_token_of_found h
  obtain ⟨before, s, rest, hstands⟩ := standsAt_of_token htoken
  have hflat := Text.inlineBreaks_of_not_mem [' '] hstands.one_line
  have husable : usableQuote? a.text [a.quote] = some [a.quote] := by
    have hnone : Text.occursIn [a.quote] a.text = false := by
      rw [Bool.eq_false_iff, Ne, Text.occursIn_singleton]
      exact hstands.quote_not_mem
    rw [usableQuote?, hnone]
    rfl
  obtain ⟨lead, first, after, hfirst⟩ := exists_named_of_token htoken
  have hwriter := find?_attributeValue? hstands.name hstands.quote hfirst
  obtain ⟨at?, tail, hsplit, hrec⟩ := Text.exists_of_find? hfirst
  obtain ⟨hname, hquote, hthere⟩ := namedAttribute?_eq_some_iff.mp hrec
  have htail := hthere.split
  rw [hname, hquote] at htail
  have hline : line = lead ++ (a.name ++ '=' :: a.quote :: (first.text ++ a.quote :: after)) := by
    rw [hsplit, htail]
  have hrebuilt : rebuildAttribute (a.unit number).2 a.text line =
      lead ++ (a.name ++ '=' :: a.quote :: (a.text ++ a.quote :: after)) := by
    simp only [rebuildAttribute, Attribute.unit, hflat, husable, hwriter, List.append_assoc,
      List.cons_append, List.nil_append]
  rw [hrebuilt, firstValue?, hfirst, Option.map_some, Option.some_inj]
  constructor
  · intro heq
    rw [hline] at heq
    have htexts := List.append_cancel_left (List.append_cancel_left heq)
    have hvalues := (List.cons.inj (List.cons.inj htexts).2).2
    exact (List.append_cancel_right hvalues).symm
  · intro heq
    rw [← heq]
    exact hline.symm

end Attribute

/-! ## Evaluations -/

/-- The beginning of an evaluation stands in front of its expression. -/
theorem exists_of_afterEval? {s expression : Text} (h : afterEval? s = some expression) :
    ∃ opening, s = opening ++ expression := by
  rw [afterEval?, Option.bind_eq_some_iff] at h
  obtain ⟨rest, heval, hrest⟩ := h
  split at hrest
  next =>
    obtain ⟨blanks, hblanks⟩ := Text.exists_trimStart rest
    have hexp := Text.after?_eq_some_iff.mp hrest
    have heval := Text.after?_eq_some_iff.mp heval
    refine ⟨"@eval".toList ++ (blanks ++ "exp=".toList), ?_⟩
    rw [heval, hblanks, hexp]
    simp only [List.append_assoc]
  next => cases hrest

/-- The value that the writer finds behind a beginning of an expression. -/
def valueBehind? (outer path quote expression : Text) :
    Option ((Text × Text × Text) × Text) := do
  let rest ← Text.after? (path ++ '=' :: quote) expression
  let (_, after) ← valueUpTo? quote rest
  return ((outer, rest, quote ++ after), after)

theorem valueBehind?_eq_some_iff {outer path expression : Text} {q : Char}
    {found : Text × Text × Text} {rest : Text} :
    valueBehind? outer path [q] expression = some (found, rest) ↔
      ∃ text, expression = path ++ '=' :: q :: (text ++ q :: rest) ∧ q ∉ text ∧ '\n' ∉ text ∧
        found = (outer, text ++ q :: rest, q :: rest) := by
  simp only [valueBehind?, Option.bind_eq_bind, Option.bind_eq_some_iff, Option.pure_def,
    Option.some_inj, Prod.mk.injEq, Prod.exists, valueUpTo?_singleton, value?_eq_some_iff,
    Text.after?_eq_some_iff]
  constructor
  · rintro ⟨_, hexpression, text, after, ⟨rfl, hmem, hline⟩, rfl, rfl⟩
    refine ⟨text, ?_, hmem, hline, rfl⟩
    rw [hexpression, List.append_assoc, List.cons_append, List.singleton_append]
  · rintro ⟨text, hexpression, hmem, hline, rfl⟩
    refine ⟨text ++ q :: rest, ?_, text, rest, ⟨rfl, hmem, hline⟩, rfl, rfl⟩
    rw [hexpression, List.append_assoc, List.cons_append, List.singleton_append]

/-- No path begins at a quote, or where the expression ends. -/
theorem valueBehind?_none {path : Text} (hpath : TextPath path) (outer quote : Text)
    {expression : Text} (h : ∀ c ∈ expression.head?, IsQuote c) :
    valueBehind? outer path quote expression = none := by
  obtain ⟨d, ds, rfl⟩ := List.exists_cons_of_ne_nil hpath.ne_nil
  have hafter : Text.after? (d :: ds ++ '=' :: quote) expression = none := by
    cases hafter : Text.after? (d :: ds ++ '=' :: quote) expression with
    | none => rfl
    | some rest =>
      have hsplit := Text.after?_eq_some_iff.mp hafter
      rw [hsplit] at h
      exact absurd (h d rfl) (hpath.head_not_quote rfl)
  rw [valueBehind?, hafter]
  rfl

/-- The writer looks for the value behind the outer quote if there is one. -/
theorem evaluationValue?_eq {path : Text} (hpath : TextPath path) (quote : Text)
    (before : Option Char) (s : Text) :
    evaluationValue? path quote before s = (afterEval? s).bind fun expression =>
      match expression with
      | [] => none
      | c :: cs =>
        if IsQuote c then valueBehind? [c] path quote cs
        else valueBehind? [] path quote (c :: cs) := by
  rw [evaluationValue?]
  cases afterEval? s with
  | none => rfl
  | some expression =>
    cases expression with
    | nil => exact valueBehind?_none hpath [] quote fun c hc => (nomatch hc)
    | cons c cs =>
      by_cases hc : IsQuote c
      · have hdirect : valueBehind? [] path quote (c :: cs) = none :=
          valueBehind?_none hpath [] quote fun d hd => by
            rw [← Option.some.inj hd]
            exact hc
        have hinner : (valueBehind? [c] path quote cs <|> valueBehind? [] path quote (c :: cs)) =
            valueBehind? [c] path quote cs := by
          rw [hdirect]
          cases valueBehind? [c] path quote cs <;> rfl
        simp only [Option.bind_eq_bind, Option.bind_some, if_pos hc,
          if_pos ((Quoted.isQuote_iff c).mpr hc)]
        exact hinner
      · simp only [Option.bind_eq_bind, Option.bind_some, if_neg hc,
          if_neg (mt (Quoted.isQuote_iff c).mp hc)]
        rfl

/-- The writer finds a value exactly where an evaluation of that path and quote stands. -/
theorem evaluationValue?_eq_some_iff {path : Text} (hpath : TextPath path) {q : Char}
    (hq : IsQuote q) {before : Option Char} {s : Text} {found : Text × Text × Text} {rest : Text} :
    evaluationValue? path [q] before s = some (found, rest) ↔
      ∃ outer text, Evaluation.StandsAt ⟨path, q, text⟩ s outer rest ∧
        found = (outer, text ++ q :: rest, q :: rest) := by
  rw [evaluationValue?_eq hpath, Option.bind_eq_some_iff]
  constructor
  · rintro ⟨expression, hbegins, h⟩
    cases expression with
    | nil => cases h
    | cons c cs =>
      dsimp only at h
      split at h
      next hc =>
        obtain ⟨text, hsplit, hmem, hline, rfl⟩ := valueBehind?_eq_some_iff.mp h
        rw [hsplit] at hbegins
        exact ⟨[c], text, ⟨hbegins, Or.inr ⟨c, hc, rfl⟩, hpath, hq, hmem, hline⟩, rfl⟩
      next =>
        obtain ⟨text, hsplit, hmem, hline, rfl⟩ := valueBehind?_eq_some_iff.mp h
        rw [hsplit] at hbegins
        exact ⟨[], text, ⟨hbegins, Or.inl rfl, hpath, hq, hmem, hline⟩, rfl⟩
  · rintro ⟨outer, text, ⟨hbegins, houter, -, -, hmem, hline⟩, rfl⟩
    refine ⟨_, hbegins, ?_⟩
    rcases houter with rfl | ⟨c, hc, rfl⟩
    · obtain ⟨d, ds, rfl⟩ := List.exists_cons_of_ne_nil hpath.ne_nil
      rw [List.nil_append, List.cons_append]
      dsimp only
      rw [if_neg (hpath.head_not_quote rfl)]
      exact valueBehind?_eq_some_iff.mpr ⟨text, rfl, hmem, hline, rfl⟩
    · rw [List.singleton_append]
      dsimp only
      rw [if_pos hc]
      exact valueBehind?_eq_some_iff.mpr ⟨text, rfl, hmem, hline, rfl⟩

/-- The quote around the expression of a line's first evaluation, if it has one. -/
def outerQuote? (line : Text) : Option Char :=
  (Text.find? evaluation? line).bind fun (before, _, _) =>
    (afterEval? (line.drop before.length)).bind fun expression =>
      expression.head?.filter fun c => decide (IsQuote c)

section Evaluation

variable {line before rest : Text} {e : Evaluation}

/-- The first evaluation of a line, as reader and writer see it. -/
theorem exists_of_evaluation_found (h : Text.find? evaluation? line = some (before, e, rest)) :
    ∃ outer opening, e.StandsAt (line.drop before.length) outer rest ∧
      line = before ++ (opening ++
        (outer ++ (e.path ++ '=' :: e.quote :: (e.text ++ e.quote :: rest)))) ∧
      Text.find? (evaluationValue? e.path [e.quote]) line =
        some (before, (outer, e.text ++ e.quote :: rest, e.quote :: rest), rest) ∧
      outerQuote? line = outer.head? := by
  obtain ⟨at?, tail, hsplit, hrec⟩ := Text.exists_of_find? h
  obtain ⟨outer, hstands⟩ := evaluation?_eq_some_iff.mp hrec
  have hdrop : line.drop before.length = tail := by
    rw [hsplit]
    exact List.drop_left' rfl
  obtain ⟨opening, hopening⟩ := exists_of_afterEval? hstands.begins
  refine ⟨outer, opening, by rw [hdrop]; exact hstands, by rw [hsplit, hopening], ?_, ?_⟩
  · have hnarrow : ∀ before s, evaluation? before s = none →
        evaluationValue? e.path [e.quote] before s = none := by
      intro before' s hnone
      cases hvalue : evaluationValue? e.path [e.quote] before' s with
      | none => rfl
      | some found =>
        obtain ⟨outer', text, hthere, -⟩ :=
          (evaluationValue?_eq_some_iff hstands.path hstands.quote).mp hvalue
        rw [evaluation?_eq_some_iff.mpr ⟨outer', hthere⟩] at hnone
        cases hnone
    obtain ⟨at', tail', hsplit', -, hagree⟩ := Text.findFrom?_agree hnarrow h
    obtain rfl : tail = tail' := List.append_cancel_left (hsplit.symm.trans hsplit')
    exact hagree _ _ ((evaluationValue?_eq_some_iff hstands.path hstands.quote).mpr
      ⟨outer, e.text, hstands, rfl⟩)
  · rw [outerQuote?, h, Option.bind_some]
    dsimp only
    rw [hdrop, hstands.begins, Option.bind_some]
    rcases hstands.outer_quote with rfl | ⟨c, hc, rfl⟩
    · obtain ⟨d, ds, hd⟩ := List.exists_cons_of_ne_nil hstands.path.ne_nil
      have hnot := hstands.path.head_not_quote hd
      rw [List.nil_append, hd, List.cons_append, List.head?_cons, Option.filter_some,
        if_neg (by rw [decide_eq_true_eq]; exact hnot)]
      rfl
    · rw [List.singleton_append, List.head?_cons, Option.filter_some,
        if_pos (by rw [decide_eq_true_eq]; exact hc)]
      rfl

/-- **An evaluation written with its own text** leaves the line as it is exactly if the text is
written as it is, or not written at all. -/
theorem rebuildEvaluation_eq_self_iff
    (h : Text.find? evaluation? line = some (before, e, rest)) (number : Int) :
    rebuildEvaluation (e.unit number).2 e.text line = line ↔
      Quoted.Lasting e.text ∨ ∃ o, outerQuote? line = some o ∧ o ≠ e.quote ∧ o ∈ e.text := by
  obtain ⟨outer, opening, hstands, hline, hwriter, houter⟩ := exists_of_evaluation_found h
  have hwritten : Quoted.escape [e.quote] e.text = e.text ↔ Quoted.Lasting e.text :=
    Quoted.escape_eq_self_iff hstands.quote.encloses hstands.quote_not_mem hstands.one_line
  let front := before ++ (opening ++ (outer ++ (e.path ++ ['=', e.quote])))
  have hfront : line = front ++ (e.text ++ e.quote :: rest) := by
    simp only [front, List.append_assoc, List.cons_append, List.nil_append]
    exact hline
  have htake : line.take (line.length - (e.text ++ e.quote :: rest).length) = front := by
    rw [hfront, List.length_append, Nat.add_sub_cancel, List.take_left' rfl]
  have hedited : front ++ Quoted.escape [e.quote] e.text ++ e.quote :: rest = line ↔
      Quoted.Lasting e.text := by
    rw [hfront, List.append_assoc, List.append_cancel_left_eq, List.append_cancel_right_eq, hwritten]
  simp only [rebuildEvaluation, Evaluation.unit, hwriter, htake]
  rw [houter]
  rcases hstands.outer_quote with rfl | ⟨c, -, rfl⟩
  · rw [if_neg (by simp only [List.isEmpty_nil, Bool.not_true, Bool.false_and, Bool.false_eq_true,
      not_false_eq_true]), hedited]
    exact ⟨Or.inl, fun h => h.resolve_right fun ⟨o, ho, _⟩ => nomatch ho⟩
  · have hguard : (!([c] : Text).isEmpty && [c] != [e.quote] && Text.occursIn [c] e.text) = true ↔
        c ≠ e.quote ∧ c ∈ e.text := by
      rw [Bool.and_eq_true, Bool.and_eq_true, Text.occursIn_singleton, bne_iff_ne, Ne,
        List.singleton_inj]
      exact ⟨fun ⟨⟨_, hne⟩, hmem⟩ => ⟨hne, hmem⟩, fun ⟨hne, hmem⟩ => ⟨⟨rfl, hne⟩, hmem⟩⟩
    by_cases hskip : c ≠ e.quote ∧ c ∈ e.text
    · rw [if_pos (hguard.mpr hskip)]
      exact ⟨fun _ => Or.inr ⟨c, rfl, hskip⟩, fun _ => rfl⟩
    · rw [if_neg (mt hguard.mp hskip), hedited]
      refine ⟨Or.inl, fun h => h.resolve_right ?_⟩
      rintro ⟨o, ho, hne⟩
      cases ho
      exact hskip hne

end Evaluation

/-! ## Any unit -/

/-- The unit's text is written back over its own characters. -/
def Survives (line : Text) (u : LineUnit) : Prop :=
  match u.2.kind with
  | .evalVariable =>
    Quoted.Lasting u.1 ∨ ∃ o, outerQuote? line = some o ∧ [o] ≠ u.2.quote ∧ o ∈ u.1
  | .tagAttribute => isGarbage line = true → firstValue? u.2.attributeName u.2.quote line = some u.1
  | _ => True

/-- **A line rebuilt with a unit's own text** is the line exactly if the unit survives. -/
theorem rebuild_eq_self_iff {number : Int} {line : Text} {u : LineUnit} (h : UnitOf number line u)
    (hline : '\n' ∉ line) : rebuild u.2 u.1 line = line ↔ Survives line u := by
  cases h with
  | @evaluation before rest e found _ =>
    have hiff := rebuildEvaluation_eq_self_iff found number
    rw [show rebuild (e.unit number).2 (e.unit number).1 line =
      rebuildEvaluation (e.unit number).2 e.text line from rfl, hiff]
    simp only [Survives, Evaluation.unit, Ne, List.singleton_inj]
  | @attributed a found _ =>
    have hiff := rebuildAttribute_eq_self_iff found number
    rw [show rebuild (a.unit number).2 (a.unit number).1 line =
      rebuildAttribute (a.unit number).2 a.text line from rfl, hiff]
    refine ⟨fun heq _ => heq, ?_⟩
    intro hsurvives
    cases hprose : isGarbage line with
    | false => exact firstValue?_of_prose found hprose
    | true => exact hsurvives hprose
  | quotation found => exact ⟨fun _ => trivial, fun _ => rebuild_quotation found⟩
  | center shape =>
    have hcenter := rebuild_center hline
    rcases shape with rfl | rfl | rfl <;> exact ⟨fun _ => trivial, fun _ => hcenter⟩

/-! ## No terminator is written -/

section Terminator

variable {c : Char} (hc : Text.EndsLine c)

include hc

theorem not_mem_quote {q : Char} (hq : IsQuote q) : c ∉ [q] := by
  rw [List.mem_singleton]
  rcases hc with rfl | rfl
  · exact hq.ne_newline.symm
  · exact hq.ne_cr.symm

theorem not_mem_usableQuote {q : Char} (hq : IsQuote q) {text quote : Text}
    (h : usableQuote? text [q] = some quote) : c ∉ quote := by
  rw [usableQuote?] at h
  split at h
  next =>
    cases h
    exact not_mem_quote hc hq
  next =>
    obtain ⟨hother, -⟩ := Option.filter_eq_some_iff.mp h
    rcases hq with rfl | rfl
    · cases hother
      exact not_mem_quote hc (.inr rfl)
    · cases hother
      exact not_mem_quote hc (.inl rfl)

theorem not_mem_rebuildAttribute {name : Text} (hname : name = "text".toList ∨ name = "name".toList)
    {q : Char} (hq : IsQuote q) {a : TagLineAddress} (haname : a.attributeName = name)
    (haquote : a.quote = [q]) {text : Text} (hflat : Text.Flattens c text) {body : Text}
    (hbody : c ∉ body) : c ∉ rebuildAttribute a text body := by
  have hblank : c ∉ [' '] := by
    rcases hc with rfl | rfl <;> decide
  have hnames : c ∉ name := by
    rcases hc with rfl | rfl <;> rcases hname with rfl | rfl <;> decide
  have hequals : c ≠ '=' := by
    rcases hc with rfl | rfl <;> decide
  rw [rebuildAttribute, haname, haquote]
  split
  next => exact hbody
  next quote hquote =>
    split
    next => exact hbody
    next before _ after hfind =>
      obtain ⟨at?, tail, hsplit, hrec⟩ := Text.exists_of_find? hfind
      obtain ⟨value, hstands⟩ := (attributeValue?_eq_some_iff hname hq).mp hrec
      have hown := not_mem_usableQuote hc hq hquote
      rw [hsplit, hstands.split] at hbody
      simp only [List.mem_append, List.mem_cons, not_or] at hbody ⊢
      exact ⟨⟨⟨⟨⟨hbody.1, hnames⟩, hequals, hown⟩, hflat _ hblank⟩, hown⟩, hbody.2.2.2.2.2.2⟩

theorem not_mem_rebuildEvaluation {path : Text} (hpath : TextPath path) {q : Char}
    (hq : IsQuote q) {a : TagLineAddress} (hapath : a.variablePath = path) (haquote : a.quote = [q])
    (text : Text) {body : Text} (hbody : c ∉ body) : c ∉ rebuildEvaluation a text body := by
  rw [rebuildEvaluation, hapath, haquote]
  split
  next => exact hbody
  next outer fromValue fromQuote after hfind =>
    split
    next => exact hbody
    next =>
      obtain ⟨at?, tail, hsplit, hrec⟩ := Text.exists_of_find? hfind
      obtain ⟨outer', value, hstands, hfound⟩ := (evaluationValue?_eq_some_iff hpath hq).mp hrec
      cases hfound
      obtain ⟨opening, hopening⟩ := exists_of_afterEval? hstands.begins
      have hbehind : c ∉ q :: after := by
        intro h
        refine hbody ?_
        rw [hsplit, hopening]
        have hvalue : c ∈ path ++ '=' :: q :: (value ++ q :: after) :=
          List.mem_append_right _ (List.mem_cons_of_mem _ (List.mem_cons_of_mem _
            (List.mem_append_right _ h)))
        exact List.mem_append_right _ (List.mem_append_right _ (List.mem_append_right _ hvalue))
      have hfront : ∀ n, c ∉ body.take n := fun n h => hbody (List.mem_of_mem_take h)
      exact List.not_mem_append
        (List.not_mem_append (hfront _) (Quoted.not_mem_escape hc hq.encloses text)) hbehind

theorem not_mem_breakTag : c ∉ breakTag := by
  rcases hc with rfl | rfl <;> decide

theorem not_mem_quotation {text : Text} (hflat : Text.Flattens c text) :
    c ∉ '「' :: Text.inlineBreaks breakTag text ++ ['」'] := by
  have hmarks : c ≠ '「' ∧ c ≠ '」' := by
    rcases hc with rfl | rfl <;> decide
  have hinside := hflat _ (not_mem_breakTag hc)
  simp [hmarks, hinside]

/-- **A rebuilt line is one line**: no character of a terminator comes in, whatever is written, if the
text loses it with its line breaks. -/
theorem not_mem_rebuild {number : Int} {line : Text} {u : LineUnit} (h : UnitOf number line u)
    {text : Text} (hflat : Text.Flattens c text) {body : Text} (hbody : c ∉ body) :
    c ∉ rebuild u.2 text body := by
  cases h with
  | @evaluation before rest e found _ =>
    obtain ⟨outer, opening, hstands, -⟩ := exists_of_evaluation_found found
    exact not_mem_rebuildEvaluation hc hstands.path hstands.quote rfl rfl text hbody
  | @attributed a found _ =>
    obtain ⟨own, htoken⟩ := exists_token_of_found found
    obtain ⟨before, s, rest, hstands⟩ := standsAt_of_token htoken
    exact not_mem_rebuildAttribute hc hstands.name hstands.quote rfl rfl hflat hbody
  | quotation found =>
    intro hmem
    have hmem' : c ∈ Text.mapNthToken quotation? _
      (fun _ _ => '「' :: Text.inlineBreaks breakTag text ++ ['」']) body := hmem
    rw [Text.mapNthToken] at hmem'
    split at hmem'
    next => exact hbody hmem'
    next =>
      rcases Piece.mem_mapNth hmem' with hraw | ⟨_, _, _, hnew⟩
      · rw [flatMap_raw_pieces quotation?_cuts] at hraw
        exact hbody hraw
      · exact not_mem_quotation hc hflat hnew
  | center shape =>
    have hparts : c ∉ (TagRuns.ofLine body).lead ++ Text.inlineBreaks breakTag text ++
        (TagRuns.ofLine body).tail := by
      rw [← TagRuns.text_ofLine body, TagRuns.text] at hbody
      simp only [List.mem_append, not_or] at hbody ⊢
      exact ⟨⟨hbody.1.1, hflat _ (not_mem_breakTag hc)⟩, hbody.2⟩
    rcases shape with rfl | rfl | rfl <;> exact hparts

end Terminator

end Kag

end GameText
