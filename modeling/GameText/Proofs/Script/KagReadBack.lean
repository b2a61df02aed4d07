import GameText.Proofs.Script.KagOpen
import GameText.Proofs.Script.KagRebuild
import GameText.Proofs.Script.KagStanding

/-!
# A saved value read back

An edited attribute or evaluation is written into its line by one search and read again by another,
which knows nothing of the escapes that the writer makes: it ends a value at the first quote of its
own. `saved?` is what an edited text becomes, `place?` where it is written, and
`saved_value_reads_back_iff` decides from the text and the line when it is found there again
(`Place.ReadsBack`).

Three things can go wrong. The value of an evaluation holds its own quote. A quote that comes in ends
a value that the line leaves open in front of the place, and what was written is swallowed; nothing
else in front can change, for what was read in front of the place was not in its way (`Place.ahead`).
And the value of an attribute may itself hold an evaluation, which is looked for first.
-/

namespace GameText

namespace Kag

open Quoted (IsQuote)

/-! ## What is saved, and where -/

/-- The value that is written for a text: line breaks become blanks in an attribute, and an
evaluation is written with escapes. -/
def writtenForm (a : TagLineAddress) (text : Text) : Text :=
  match a.kind with
  | .evalVariable => Quoted.escape a.quote text
  | _ => Text.inlineBreaks [' '] text

/-- The unit that an edited text becomes, with the quote it is written in; none if the quotes it
holds cannot stand in the line. -/
def saved? (line : Text) (a : TagLineAddress) (text : Text) : Option LineUnit :=
  let value := writtenForm a text
  match a.kind with
  | .evalVariable =>
    if (outerQuote? line).any fun outer => [outer] != a.quote && text.contains outer then none
    else some (value, a)
  | _ => (usableQuote? value a.quote).map fun quote => (value, { a with quote })

/-- The place of a value in quotes on a line: the text in front of the unit, the unit up to the quote
that opens the value, that quote, and what follows the quote that closes it. -/
structure Place where
  lead : Text
  head : Text
  quote : Char
  behind : Text
deriving DecidableEq, Repr

/-- The line up to the value. -/
def Place.front (p : Place) : Text := p.lead ++ (p.head ++ [p.quote])

/-- The line with a value at the place. -/
def Place.line (p : Place) (quote : Char) (value : Text) : Text :=
  p.lead ++ (p.head ++ quote :: (value ++ quote :: p.behind))

/-- The place where an edited text is written. -/
def place? (a : TagLineAddress) (line : Text) : Option Place :=
  a.quote.head?.bind fun quote =>
    match a.kind with
    | .evalVariable =>
      (Text.find? (evaluationValue? a.variablePath a.quote) line).map
        fun (lead, (_, fromValue, _), behind) =>
          let front := line.take (line.length - fromValue.length)
          { lead, head := (front.drop lead.length).dropLast, quote, behind }
    | _ =>
      (Text.find? (attributeValue? a.attributeName a.quote) line).map fun (lead, _, behind) =>
        { lead, head := a.attributeName ++ ['='], quote, behind }

/-- A text written at the place is read back: nothing that the line leaves open in front of the place
is ended by a quote that comes in, and the value of an evaluation holds no quote of its own, and an
attribute no evaluation. -/
def Place.ReadsBack (p : Place) (text : Text) (saved : LineUnit) : Prop :=
  match saved.2.kind with
  | .evalVariable =>
    p.quote ∉ text ∧
      (otherQuote p.quote ∈ text → evaluationLeftOpen p.front (otherQuote p.quote) = false)
  | _ =>
    (p.quote ∈ saved.1 ∨ otherQuote p.quote ∈ saved.1 →
        evaluationLeftOpen p.front (otherQuote p.quote) = false ∧
          attributeLeftOpen p.lead (otherQuote p.quote) = false) ∧
      Text.finds evaluation? (saved.1 ++ (saved.2.quote ++ p.behind)) = false

/-- The line has the one unit, behind the text `lead`. -/
def FoundAt (number : Int) (line lead : Text) (u : LineUnit) : Prop :=
  standing? number line = some (lead, u) ∧ lineUnits number line = [u]

/-- What is saved has the written form and the kind of its address. -/
theorem written_of_saved {line text : Text} {a : TagLineAddress} {saved : LineUnit}
    (h : saved? line a text = some saved) :
    saved.1 = writtenForm a text ∧ saved.2.kind = a.kind := by
  rw [saved?] at h
  split at h
  next =>
    split at h
    next => cases h
    next =>
      cases h
      exact ⟨rfl, rfl⟩
  next =>
    obtain ⟨quote, -, rfl⟩ := Option.map_eq_some_iff.mp h
    exact ⟨rfl, rfl⟩

theorem foundAt_of_standing {number : Int} {line lead : Text} {u : LineUnit}
    (h : standing? number line = some (lead, u)) (hplain : isGarbage u.1 = false) :
    FoundAt number line lead u := by
  refine ⟨h, ?_⟩
  rw [lineUnits_of_standing h, hplain]
  rfl

/-! ## Quotes in what is written -/

/-- Escapes bring in no quotes and take none away. -/
theorem mem_escape_iff {q c : Char} (hq : IsQuote q) (hc : IsQuote c) (t : Text) :
    c ∈ Quoted.escape [q] t ↔ c ∈ t := by
  have hslash : c ≠ '\\' := hc.ne_backslash
  have hcr : c ≠ '\r' := hc.ne_cr
  have hline : c ≠ '\n' := hc.ne_newline
  have hn : c ≠ 'n' := by rcases hc with rfl | rfl <;> decide
  fun_induction Quoted.escape [q] t with
  | case1 => exact Iff.rfl
  | case2 => simp only [List.mem_cons, hslash, false_or]
  | case3 d cs hbreak ih => simp only [List.mem_cons, hslash, false_or, ih]
  | case4 d cs hbreak ih => simp only [List.mem_cons, hslash, false_or, ih]
  | case5 cs hquote => exact absurd (List.cons.inj hquote).1.symm hq.ne_cr
  | case6 cs hquote ih => simp only [List.mem_cons, hslash, hn, hcr, hline, false_or, ih]
  | case7 d cs _ _ _ hquote ih =>
    obtain rfl : d = q := (List.cons.inj hquote).1
    simp only [List.cons_append, List.nil_append, List.mem_cons, hslash, false_or, ih]
  | case8 d cs _ _ _ hquote hbreak ih =>
    have hd : c ≠ d := by
      rintro rfl
      rw [Bool.or_eq_true, decide_eq_true_eq, decide_eq_true_eq] at hbreak
      exact hbreak.elim hcr hline
    simp only [List.mem_cons, hslash, hn, hd, false_or, ih]
  | case9 d cs _ _ _ hquote hbreak ih => simp only [List.mem_cons, ih]

/-- The quote in which an attribute is written stands nowhere in its value; it is not the old one
only if the value holds that. -/
theorem usableQuote?_eq_some {q : Char} (hq : IsQuote q) {value quote : Text}
    (h : usableQuote? value [q] = some quote) :
    ∃ z, quote = [z] ∧ IsQuote z ∧ z ∉ value ∧
      (otherQuote q ∈ z :: value ↔ q ∈ value ∨ otherQuote q ∈ value) := by
  rw [usableQuote?] at h
  split at h
  next hown =>
    cases h
    rw [Bool.not_eq_true', Bool.eq_false_iff, Ne, Text.occursIn_singleton] at hown
    refine ⟨q, rfl, hq, hown, ?_⟩
    rw [List.mem_cons, or_iff_right (otherQuote_ne hq), or_iff_right hown]
  next hown =>
    rw [Bool.not_eq_true', Bool.not_eq_false, Text.occursIn_singleton] at hown
    obtain ⟨hquote, hnot⟩ := Option.filter_eq_some_iff.mp h
    have hother : quote = [otherQuote q] := by
      rcases hq with rfl | rfl <;> exact (Option.some.inj hquote).symm
    subst hother
    rw [Bool.not_eq_true', Bool.eq_false_iff, Ne, Text.occursIn_singleton] at hnot
    exact ⟨otherQuote q, rfl, isQuote_otherQuote q, hnot,
      iff_of_true List.mem_cons_self (Or.inl hown)⟩

/-! ## Evaluations in front of a place -/

theorem EvalHead.mark_first {path head : Text} (h : EvalHead path head) :
    ∃ more, head = '@' :: more ∧ '@' ∉ more := by
  obtain ⟨opening, outer, hopening, houter, hpath, rfl⟩ := h
  obtain ⟨more, rfl, hmark⟩ := hopening.mark_first
  refine ⟨more ++ (outer ++ (path ++ ['='])), rfl, List.not_mem_append hmark ?_⟩
  refine List.not_mem_append ?_ (List.not_mem_append hpath.plain.1 (by decide))
  rcases houter with rfl | ⟨c, rfl | rfl, rfl⟩ <;> decide

/-- A head has the dot of its path, so it is no beginning. -/
theorem EvalHead.not_opening {path head : Text} (h : EvalHead path head) (s : Text) :
    ¬ EvalOpening (s ++ head) := by
  obtain ⟨opening, outer, -, -, hpath, rfl⟩ := h
  rintro ⟨blanks, -, hblanks, heq⟩
  have hdot : '.' ∈ s ++ (opening ++ (outer ++ (path ++ ['=']))) := by
    simp only [List.mem_append, hpath.plain.2.1, true_or, or_true]
  rw [heq] at hdot
  rcases List.mem_append.mp hdot with hdot | hdot
  · exact absurd hdot (by decide)
  rcases List.mem_append.mp hdot with hdot | hdot
  · exact absurd (hblanks _ hdot) (by decide)
  · exact absurd hdot (by decide)

/-- Where no mark of a directive stands, no evaluation begins. -/
theorem evaluation?_of_no_mark {s : Text} (hs : s ≠ []) (hmark : '@' ∉ s) (rest : Text) :
    evaluation? none (s ++ rest) = none := by
  cases hfound : evaluation? none (s ++ rest) with
  | none => rfl
  | some found =>
    obtain ⟨e, rest'⟩ := found
    obtain ⟨head, hhead, -, -, -, heq⟩ := evaluation?_eq_some_iff_head.mp hfound
    obtain ⟨more, rfl, -⟩ := hhead.mark_first
    obtain ⟨c, cs, rfl⟩ := List.exists_cons_of_ne_nil hs
    rw [List.cons_append, List.cons_append] at heq
    rw [(List.cons.inj heq).1] at hmark
    exact absurd List.mem_cons_self hmark

/-- A search goes on behind a text without a mark. -/
theorem find?_of_no_mark {s : Text} (hmark : '@' ∉ s) (rest : Text) :
    Text.find? evaluation? (s ++ rest) =
      (Text.find? evaluation? rest).map fun (lead, e, after) => (s ++ lead, e, after) :=
  Text.find?_append_of_none evaluation?_blind fun _ hne hsuffix =>
    evaluation?_of_no_mark hne (fun hmem => hmark (hsuffix.subset hmem)) rest

/-- A head with two quotes behind it that differ is no evaluation. -/
theorem EvalHead.evaluation?_quotes {path head : Text} {q : Char} (h : EvalHead path head)
    (hq : IsQuote q) : evaluation? none (head ++ [q, otherQuote q]) = none := by
  cases hfound : evaluation? none (head ++ [q, otherQuote q]) with
  | none => rfl
  | some found =>
    obtain ⟨e, rest⟩ := found
    obtain ⟨head', hhead', hquote, -, -, heq⟩ := evaluation?_eq_some_iff_head.mp hfound
    -- the value begins in the head, at its end, or behind it
    have hinside : ∀ inner, head ≠ head' ++ e.quote :: inner := by
      rintro inner rfl
      exact hhead'.not_opening [] (h.opening_of_quote hquote)
    rcases value_append_cases heq with ⟨rest', hfront, -⟩ | ⟨inner, _, hfront, -, -⟩ |
      ⟨-, hbehind⟩ | ⟨_, hreach, -, hbehind⟩
    · exact absurd hfront (hinside _)
    · exact absurd hfront (hinside _)
    · obtain ⟨hown, hbehind⟩ := List.cons.inj hbehind
      have hends := congrArg List.getLast? hbehind
      have hlength := congrArg List.length hbehind
      simp only [List.length_cons, List.length_append, List.length_nil] at hlength
      obtain rfl : rest = [] := List.length_eq_zero_iff.mp (by omega)
      rw [List.getLast?_concat] at hends
      exact absurd ((Option.some.inj hends).trans hown.symm) (otherQuote_ne hq)
    · have hlength := congrArg List.length hbehind
      have hpos := List.length_pos_iff.mpr hreach
      simp only [List.length_cons, List.length_append, List.length_nil] at hlength
      omega

/-- Nor does one stand anywhere in a head with such quotes behind it. -/
theorem EvalHead.find?_quotes {path head : Text} {q : Char} (h : EvalHead path head)
    (hq : IsQuote q) : Text.find? evaluation? (head ++ [q, otherQuote q]) = none := by
  have hhere := h.evaluation?_quotes hq
  have hquotes : '@' ∉ [q, otherQuote q] := by
    rcases hq with rfl | rfl <;> decide
  obtain ⟨more, rfl, hmark⟩ := h.mark_first
  have hlater : Text.find? evaluation? (more ++ [q, otherQuote q]) = none := by
    rw [find?_of_no_mark hmark, ← List.append_nil [q, otherQuote q], find?_of_no_mark hquotes]
    rfl
  rw [List.cons_append] at hhere ⊢
  rw [Text.find?] at hlater ⊢
  rw [Text.findFrom?, hhere, Text.findFrom?_blind evaluation?_blind (some '@') none, hlater]
  rfl

/-- **In front of a place at which a line is read**, an evaluation can only be left open, in the other
quote, and then that quote does not stand behind the place. -/
theorem Place.ahead {p : Place} {text : Text} (hq : IsQuote p.quote) (hmem : p.quote ∉ text)
    (hline : '\n' ∉ p.line p.quote text) (hopening : ∀ s, ¬ EvalOpening (s ++ p.head))
    (hnone : ∀ s, s ≠ [] → s <:+ p.lead →
      evaluation? none (s ++ (p.head ++ p.quote :: (text ++ p.quote :: p.behind))) = none) :
    (∀ s, s ≠ [] → s <:+ p.lead → Ahead p.quote (s ++ p.head)) ∧
      (OpenAhead p.quote p.lead p.head → otherQuote p.quote ∉ p.behind) := by
  have hplace : ∀ s, s ≠ [] → s <:+ p.lead → Ahead p.quote (s ++ p.head) ∧
      (LeavesOpen (s ++ p.head) (otherQuote p.quote) →
        otherQuote p.quote ∉ text ∧ otherQuote p.quote ∉ p.behind) := by
    intro s hs hsuffix
    refine ahead_of_none hq hmem (fun hbreak => hline ?_) (hopening s) ?_
    · obtain ⟨t, ht⟩ := hsuffix
      rw [Place.line, ← ht, List.append_assoc t, ← List.append_assoc s]
      exact List.mem_append_right t hbreak
    · rw [List.append_assoc]
      exact hnone s hs hsuffix
  refine ⟨fun s hs hsuffix => (hplace s hs hsuffix).1, ?_⟩
  rintro ⟨s, hs, hsuffix, hopen⟩
  exact ((hplace s hs hsuffix).2 hopen).2

/-! ## An evaluation read back -/

theorem Place.newline_not_mem {p : Place} {quote : Char} {value : Text}
    (hline : '\n' ∉ p.line quote value) : '\n' ∉ p.lead ++ p.head ∧ '\n' ∉ value := by
  rw [Place.line] at hline
  simp only [List.mem_append, List.mem_cons, not_or] at hline ⊢
  exact ⟨⟨hline.1, hline.2.1⟩, hline.2.2.2.1⟩

/-- The quotes and the value alone can bring in a line break. -/
theorem Place.newline_not_mem_line {p : Place} {quote z : Char} {text value : Text}
    (hline : '\n' ∉ p.line quote text) (hz : z ≠ '\n') (hvalue : '\n' ∉ value) :
    '\n' ∉ p.line z value := by
  rw [Place.line] at hline ⊢
  simp only [List.mem_append, List.mem_cons, not_or] at hline ⊢
  exact ⟨hline.1, hline.2.1, hz.symm, hvalue, hz.symm, hline.2.2.2.2.2⟩

section Evaluation

variable {p : Place} {path value : Text}

/-- At a head with a value behind it an evaluation is found, up to the first quote of its own. -/
theorem EvalHead.find?_value {head : Text} (h : EvalHead path head) {q : Char} (hq : IsQuote q)
    (hvalue : '\n' ∉ value) (rest : Text) :
    ∃ found after, Text.find? evaluation? (head ++ q :: (value ++ q :: rest)) =
        some ([], ⟨path, q, found⟩, after) ∧ q ∉ found ∧
      (q ∉ value → found = value ∧ after = rest) := by
  have hhere : ∀ found after, value ++ q :: rest = found ++ q :: after → q ∉ found → '\n' ∉ found →
      Text.find? evaluation? (head ++ q :: (value ++ q :: rest)) =
        some ([], ⟨path, q, found⟩, after) := by
    intro found after hsplit hmem hbreak
    have hrec : evaluation? none (head ++ q :: (found ++ q :: after)) =
        some (⟨path, q, found⟩, after) :=
      evaluation?_eq_some_iff_head.mpr ⟨head, h, hq, hmem, hbreak, rfl⟩
    obtain ⟨more, rfl, -⟩ := h.mark_first
    rw [hsplit]
    rw [List.cons_append] at hrec ⊢
    rw [Text.find?, Text.findFrom?, hrec]
  by_cases hmem : q ∈ value
  · obtain ⟨found, after, rfl, hfound⟩ := List.eq_append_cons_of_mem hmem
    refine ⟨found, after ++ q :: rest, hhere _ _ ?_ hfound fun hbreak => ?_, hfound, ?_⟩
    · rw [List.append_assoc, List.cons_append]
    · exact hvalue (List.mem_append_left _ hbreak)
    · exact fun hnot => absurd hmem hnot
  · exact ⟨value, rest, hhere value rest rfl hmem hvalue, hmem, fun _ => ⟨rfl, rfl⟩⟩

variable (hq : IsQuote p.quote) (hhead : EvalHead path p.head)
  (hahead : ∀ s, s ≠ [] → s <:+ p.lead → Ahead p.quote (s ++ p.head))
  (hbehind : OpenAhead p.quote p.lead p.head → otherQuote p.quote ∉ p.behind)
  (hline : '\n' ∉ p.line p.quote value)

include hq hhead hahead hline

/-- The line with a value at the place holds an evaluation. -/
theorem Place.exists_evaluation :
    ∃ found, Text.find? evaluation? (p.line p.quote value) = some found := by
  obtain ⟨hfront, hbreak⟩ := Place.newline_not_mem hline
  by_cases hopen : OpenAhead p.quote p.lead p.head ∧
      otherQuote p.quote ∈ p.quote :: (value ++ p.quote :: p.behind)
  · obtain ⟨lead, e, rest, hfound, -⟩ := find?_ahead hahead hq hline hopen
    exact ⟨_, hfound⟩
  · obtain ⟨found, after, hfound, -⟩ := hhead.find?_value hq hbreak p.behind
    rw [Place.line, find?_behind hahead hq hline hopen, hfound]
    exact ⟨_, rfl⟩

include hbehind

/-- An evaluation that is read back with the value that was written has no quote of its own in it,
and none that would end an evaluation in front of it. -/
theorem Place.closed_of_read {lead rest : Text} {e : Evaluation}
    (hfind : Text.find? evaluation? (p.line p.quote value) = some (lead, e, rest))
    (hvalue : e.text = value) :
    p.quote ∉ value ∧
      (otherQuote p.quote ∈ value → evaluationLeftOpen p.front (otherQuote p.quote) = false) := by
  obtain ⟨hfront, hbreak⟩ := Place.newline_not_mem hline
  have hleft := evaluationLeftOpen_iff hq hahead (hhead.find?_quotes hq) hfront
  by_cases hopen : OpenAhead p.quote p.lead p.head ∧
      otherQuote p.quote ∈ p.quote :: (value ++ p.quote :: p.behind)
  · -- what is left open in front is found instead, and its value lacks the other quote
    obtain ⟨_, e', _, hfound, -, hquote, hmem⟩ := find?_ahead hahead hq hline hopen
    rw [Place.line, hfound] at hfind
    cases hfind
    rw [hquote, hvalue] at hmem
    have hcomes := hopen.2
    simp only [List.mem_cons, List.mem_append, otherQuote_ne hq, hmem, hbehind hopen.1,
      or_self] at hcomes
  · obtain ⟨found, after, hfound, hmem, -⟩ := hhead.find?_value hq hbreak p.behind
    rw [Place.line, find?_behind hahead hq hline hopen, hfound] at hfind
    cases hfind
    subst hvalue
    refine ⟨hmem, fun hother => ?_⟩
    rw [Bool.eq_false_iff, Ne, Place.front, hleft]
    exact fun hopens => hopen ⟨hopens, List.mem_cons_of_mem _ (List.mem_append_left _ hother)⟩

/-- A value without its own quote is read back where it was written, unless it ends an evaluation in
front of it. -/
theorem Place.read_of_closed (hown : p.quote ∉ value)
    (hother : otherQuote p.quote ∈ value → evaluationLeftOpen p.front (otherQuote p.quote) = false) :
    Text.find? evaluation? (p.line p.quote value) =
      some (p.lead, ⟨path, p.quote, value⟩, p.behind) := by
  obtain ⟨hfront, hbreak⟩ := Place.newline_not_mem hline
  have hleft := evaluationLeftOpen_iff hq hahead (hhead.find?_quotes hq) hfront
  have hopen : ¬ (OpenAhead p.quote p.lead p.head ∧
      otherQuote p.quote ∈ p.quote :: (value ++ p.quote :: p.behind)) := by
    rintro ⟨hopens, hcomes⟩
    simp only [List.mem_cons, List.mem_append, otherQuote_ne hq, hbehind hopens, or_false,
      false_or] at hcomes
    have hnot := hother hcomes
    rw [Place.front, hleft.mpr hopens] at hnot
    cases hnot
  obtain ⟨found, after, hfound, -, heq⟩ := hhead.find?_value hq hbreak p.behind
  obtain ⟨rfl, rfl⟩ := heq hown
  rw [Place.line, find?_behind hahead hq hline hopen, hfound]
  exact congrArg (fun lead => some (lead, _, _)) (List.append_nil p.lead)

/-- An evaluation that gives the value that was written is closed. -/
theorem Place.closed_of_mem_lineUnits {number : Int} {a : TagLineAddress}
    (h : (value, a) ∈ lineUnits number (p.line p.quote value)) :
    p.quote ∉ value ∧
      (otherQuote p.quote ∈ value → evaluationLeftOpen p.front (otherQuote p.quote) = false) := by
  obtain ⟨⟨lead, e, rest⟩, hfind⟩ := Place.exists_evaluation hq hhead hahead hline
  rw [lineUnits_of_standing (standing?_of_evaluation hfind number)] at h
  split at h
  next => cases h
  next =>
    have hunit := List.mem_singleton.mp h
    exact Place.closed_of_read hq hhead hahead hbehind hline hfind (congrArg (·.1) hunit).symm

end Evaluation

/-! ## An attribute read back -/

section Attribute

variable {p : Place} {name text value : Text} {z : Char}

/-- The head of an attribute is no beginning of an evaluation. -/
theorem not_opening_of_attribute (hname : name = "text".toList ∨ name = "name".toList) (s : Text) :
    ¬ EvalOpening (s ++ (name ++ ['='])) := by
  rintro ⟨blanks, -, -, heq⟩
  have hends := congrArg List.reverse heq
  simp only [List.reverse_append] at hends
  rcases hname with rfl | rfl
  · exact absurd (congrArg (·[1]?) hends) (by simp)
  · exact absurd (congrArg (·[1]?) hends) (by simp)

/-- The head of an attribute and the quote behind it are no part of an evaluation. -/
theorem find?_behind_attribute (hname : name = "text".toList ∨ name = "name".toList) {quote : Char}
    (hquote : IsQuote quote) (rest : Text) :
    Text.find? evaluation? ((name ++ ['=']) ++ quote :: rest) = none ↔
      Text.find? evaluation? rest = none := by
  have hmark : '@' ∉ name ++ ['=', quote] := by
    rcases hname with rfl | rfl <;> rcases hquote with rfl | rfl <;> decide
  have hsplit : (name ++ ['=']) ++ quote :: rest = (name ++ ['=', quote]) ++ rest := by
    simp only [List.append_assoc, List.cons_append, List.nil_append]
  rw [hsplit, find?_of_no_mark hmark, Option.map_eq_none_iff]

variable (hname : name = "text".toList ∨ name = "name".toList) (hhead : p.head = name ++ ['='])
  (hq : IsQuote p.quote) (hz : IsQuote z) (hline : '\n' ∉ p.line z value)

include hname hhead hq hz hline

/-- **A line with an attribute holds no evaluation** exactly if none that was left open in front is
ended by a quote that comes in, and none stands in the value or comes about behind it. -/
theorem Place.find?_evaluation_eq_none_iff
    (hahead : ∀ s, s ≠ [] → s <:+ p.lead → Ahead p.quote (s ++ p.head))
    (hbehind : OpenAhead p.quote p.lead p.head → otherQuote p.quote ∉ p.behind) :
    Text.find? evaluation? (p.line z value) = none ↔
      (otherQuote p.quote ∈ z :: value → evaluationLeftOpen p.front (otherQuote p.quote) = false) ∧
        Text.find? evaluation? (value ++ z :: p.behind) = none := by
  have hhere : Text.find? evaluation? (p.head ++ [p.quote, otherQuote p.quote]) = none := by
    rw [hhead, find?_behind_attribute hname hq]
    rcases isQuote_otherQuote p.quote with h | h <;> rw [h] <;> rfl
  have hleft := evaluationLeftOpen_iff hq hahead hhere (Place.newline_not_mem hline).1
  have hafter : Text.find? evaluation? (p.head ++ z :: (value ++ z :: p.behind)) = none ↔
      Text.find? evaluation? (value ++ z :: p.behind) = none := by
    rw [hhead]
    exact find?_behind_attribute hname hz _
  have hcomes : OpenAhead p.quote p.lead p.head →
      (otherQuote p.quote ∈ z :: (value ++ z :: p.behind) ↔ otherQuote p.quote ∈ z :: value) := by
    intro hopens
    simp only [List.mem_cons, List.mem_append, hbehind hopens, or_false]
    exact ⟨fun h => h.elim Or.inl Or.symm, fun h => h.elim Or.inl fun h => Or.inr (Or.inl h)⟩
  by_cases hopen : OpenAhead p.quote p.lead p.head ∧
      otherQuote p.quote ∈ z :: (value ++ z :: p.behind)
  · obtain ⟨lead, e, rest, hfound, -⟩ := find?_ahead hahead hz hline hopen
    rw [Place.line, hfound]
    refine iff_of_false (Option.some_ne_none _) fun hfree => ?_
    have hclosed := hfree.1 ((hcomes hopen.1).mp hopen.2)
    rw [Place.front, hleft.mpr hopen.1] at hclosed
    cases hclosed
  · rw [Place.line, find?_behind hahead hz hline hopen, Option.map_eq_none_iff, hafter]
    refine ⟨fun h => ⟨fun hother => ?_, h⟩, fun h => h.2⟩
    rw [Bool.eq_false_iff, Ne, Place.front, hleft]
    exact fun hopens => hopen ⟨hopens, (hcomes hopens).mpr hother⟩

end Attribute

section Tokens

variable {counts : Attribute → Bool} {p : Place} {name value text : Text} {quote z : Char}
  {a : Attribute} {rest : Text}

theorem OpenFrom.isQuote {q : Char} {before : Option Char} {s : Text} (h : OpenFrom q before s) :
    IsQuote q := by
  induction h with
  | here _ leaves =>
    obtain ⟨_, _, _, hq, _⟩ := leaves
    exact hq
  | token _ _ _ ih => exact ih
  | gap _ _ ih => exact ih

/-- In front of a token no word is open. -/
theorem no_word_before_token {line lead : Text}
    (h : Piece.firstToken? counts (pieces attribute? line) = some (lead, a, rest)) :
    lead.getLast?.any isWordChar = false := by
  obtain ⟨done, own, after, hpieces, rfl, -, -⟩ := Piece.exists_of_firstToken? h
  have hrec := recognized_of_piecesFrom attribute?_cuts (piecesFrom_drop attribute?_cuts hpieces)
  have hword := (attribute?_eq_some_iff.mp hrec).word_begins
  rwa [Text.lastOr, Option.or_none] at hword

/-- Where a token begins, no attribute is left open in front whose quote stands behind. -/
theorem not_open_of_token {lead tail : Text}
    (hword : lead.getLast?.any isWordChar = false) (htail : tail.head?.any isWordChar = true)
    (hline : '\n' ∉ lead ++ tail)
    (h : Piece.firstToken? counts (pieces attribute? (lead ++ tail)) = some (lead, a, rest)) :
    ∀ c ∈ tail, ¬ OpenFrom c none lead := by
  intro c hc hopen
  obtain ⟨done, own, after, hpieces, hlead, -, -⟩ := Piece.exists_of_firstToken? h
  refine length_ne_of_open hopen (parted_of_word hword htail) hc hline hpieces ?_
  rw [← hlead]

/-- No token of the front counts if the first one that counts begins behind it. -/
theorem firstToken?_front {lead tail : Text} {ps : List (Piece Attribute)}
    (hpieces : pieces attribute? (lead ++ tail) = pieces attribute? lead ++ ps)
    (h : Piece.firstToken? counts (pieces attribute? (lead ++ tail)) = some (lead, a, rest)) :
    Piece.firstToken? counts (pieces attribute? lead) = none := by
  cases hfront : Piece.firstToken? counts (pieces attribute? lead) with
  | none => rfl
  | some found =>
    obtain ⟨lead', a', rest'⟩ := found
    rw [hpieces, Piece.firstToken?_append_of_some hfront] at h
    obtain rfl : lead' = lead := congrArg (·.1) (Option.some.inj h)
    obtain ⟨done, own, after, hown, hlead, -, -⟩ := Piece.exists_of_firstToken? hfront
    have hraw := flatMap_raw_pieces attribute?_cuts lead'
    have htoken : .token a' own ∈ pieces attribute? lead' := by
      rw [hown]
      exact List.mem_append_right _ List.mem_cons_self
    rw [hown, List.flatMap_append, ← hlead, List.flatMap_cons] at hraw
    have hnil := List.append_right_eq_self.mp hraw
    exact absurd (List.append_eq_nil_iff.mp hnil).1 (ne_nil_of_token_mem htoken)

variable (hname : name = "text".toList ∨ name = "name".toList) (hhead : p.head = name ++ ['='])
  (hline : '\n' ∉ p.line p.quote text) (hnew : '\n' ∉ p.line z value)
  (hold : Piece.firstToken? counts (pieces attribute? (p.line p.quote text)) = some (p.lead, a, rest))

include hname hhead

theorem Place.begins_word (tail : Text) : (p.head ++ tail).head?.any isWordChar = true := by
  rw [hhead]
  rcases hname with rfl | rfl <;> rfl

include hold hnew

/-- If an attribute is read where it was written, none that is left open in front is ended by a quote
that comes in. -/
theorem Place.attribute_closed_of_read {a' : Attribute} {rest' : Text}
    (hread : Piece.firstToken? counts (pieces attribute? (p.line z value)) = some (p.lead, a', rest'))
    (hother : otherQuote p.quote ∈ z :: value) :
    attributeLeftOpen p.lead (otherQuote p.quote) = false := by
  have hword := no_word_before_token hold
  have hcomes : otherQuote p.quote ∈ z :: (value ++ z :: p.behind) := by
    rw [← List.cons_append]
    exact List.mem_append_left _ hother
  rw [Bool.eq_false_iff, Ne, attributeLeftOpen_iff (isQuote_otherQuote _)
    fun h => hnew (List.mem_append_left _ h)]
  exact not_open_of_token hword (Place.begins_word hname hhead _) hnew hread _
    (List.mem_append_right _ hcomes)

include hline

/-- An attribute is read where it was written, unless its quotes end one in front of it. -/
theorem Place.attribute_read_of_closed (hq : IsQuote p.quote) (hz : IsQuote z) (hown : z ∉ value)
    (hcounts : counts ⟨name, z, value⟩ = true)
    (hother : otherQuote p.quote ∈ z :: value →
      attributeLeftOpen p.lead (otherQuote p.quote) = false) :
    Piece.firstToken? counts (pieces attribute? (p.line z value)) =
      some (p.lead, ⟨name, z, value⟩, p.behind) := by
  have hword := no_word_before_token hold
  have hclosed := not_open_of_token hword (Place.begins_word hname hhead _) hline hold
  have hopen : ∀ c ∈ p.head ++ z :: (value ++ z :: p.behind), ¬ OpenFrom c none p.lead := by
    intro c hc hopens
    have hold : c ∉ p.head ++ p.quote :: (text ++ p.quote :: p.behind) :=
      fun hmem => hclosed c hmem hopens
    simp only [List.mem_append, List.mem_cons, not_or] at hold
    obtain rfl : c = otherQuote p.quote := eq_otherQuote hq hopens.isQuote hold.2.1
    have hcomes : otherQuote p.quote ∈ z :: value := by
      simp only [List.mem_append, List.mem_cons, hold.1, hold.2.2.2.2, or_false, false_or] at hc ⊢
      exact hc.elim Or.inl Or.symm
    have hleft := hother hcomes
    rw [(attributeLeftOpen_iff hopens.isQuote fun h => hnew (List.mem_append_left _ h)).mpr hopens]
      at hleft
    cases hleft
  have hcut : ∀ {tail}, (∀ c ∈ p.head ++ tail, ¬ OpenFrom c none p.lead) →
      pieces attribute? (p.lead ++ (p.head ++ tail)) = pieces attribute? p.lead ++
        piecesFrom attribute? (Text.lastOr none p.lead) (p.head ++ tail) := fun hnot =>
    piecesFrom_append_of_not_open (parted_of_word hword (Place.begins_word hname hhead _)) hnot
  have hfront := firstToken?_front (hcut hclosed) hold
  have hrec : attribute? (Text.lastOr none p.lead)
      ((name ++ '=' :: z :: (value ++ [z])) ++ p.behind) = some (⟨name, z, value⟩, p.behind) :=
    attribute?_eq_some_iff.mpr ⟨by rw [Text.lastOr, Option.or_none]; exact hword, hname, hz,
      by simp only [List.append_assoc, List.cons_append, List.nil_append], hown,
      (Place.newline_not_mem hnew).2⟩
  have hsplit : p.head ++ z :: (value ++ z :: p.behind) =
      (name ++ '=' :: z :: (value ++ [z])) ++ p.behind := by
    rw [hhead]
    simp only [List.append_assoc, List.cons_append, List.nil_append]
  rw [Place.line, hcut hopen, Piece.firstToken?_append_of_none hfront, hsplit,
    piecesFrom_token hrec (List.append_ne_nil_of_right_ne_nil _ (List.cons_ne_nil _ _)),
    Piece.firstToken?, if_pos hcounts, flatMap_raw_pieces attribute?_cuts,
    flatMap_raw_piecesFrom attribute?_cuts, Option.map_some]
  exact congrArg (fun lead => some (lead, _, _)) (List.append_nil p.lead)

end Tokens

/-! ## The rebuilt line -/

section Evaluation

variable {number : Int} {line lead rest text : Text} {e : Evaluation} {saved : LineUnit}

/-- What an edited evaluation becomes is an evaluation of the same variable. -/
theorem saved?_evaluation (line : Text) (e : Evaluation) (number : Int) (text : Text) :
    saved? line (e.unit number).2 text =
      if (outerQuote? line).any fun outer => [outer] != [e.quote] && text.contains outer then none
      else some (Evaluation.unit ⟨e.path, e.quote, Quoted.escape [e.quote] text⟩ number) := rfl

/-- The place of an evaluation, and its line with an edited text. -/
theorem exists_place_of_evaluation (found : Text.find? evaluation? line = some (lead, e, rest))
    (number : Int) : ∃ p : Place, place? (e.unit number).2 line = some p ∧
      p.lead = lead ∧ p.quote = e.quote ∧ p.behind = rest ∧ EvalHead e.path p.head ∧
      line = p.line p.quote e.text ∧
      ∀ text, rebuild (e.unit number).2 text line =
        ((saved? line (e.unit number).2 text).map fun saved => p.line p.quote saved.1).getD line := by
  obtain ⟨outer, _, hstands, -, hwriter, houter⟩ := exists_of_evaluation_found found
  obtain ⟨tail, hline, hrec, -⟩ := Text.find?_eq_some evaluation?_blind found
  obtain ⟨head, hhead, -, -, -, rfl⟩ := evaluation?_eq_some_iff_head.mp hrec
  let p : Place := ⟨lead, head, e.quote, rest⟩
  have hfront : line = p.front ++ (e.text ++ e.quote :: rest) := by
    rw [hline]
    simp only [p, Place.front, List.append_assoc, List.cons_append, List.nil_append]
  have htake : line.take (line.length - (e.text ++ e.quote :: rest).length) = p.front := by
    rw [hfront, List.length_append, Nat.add_sub_cancel, List.take_left' rfl]
  refine ⟨p, ?_, rfl, rfl, rfl, hhead, hline, fun text => ?_⟩
  · simp only [place?, Evaluation.unit, List.head?_cons, Option.bind_some, hwriter, Option.map_some,
      htake]
    simp only [p, Place.front, List.drop_left' rfl, List.dropLast_concat]
  · have hguard : (!outer.isEmpty && outer != [e.quote] && Text.occursIn outer text) =
        (outerQuote? line).any fun outer => [outer] != [e.quote] && text.contains outer := by
      rw [houter]
      rcases hstands.outer_quote with rfl | ⟨c, -, rfl⟩
      · rfl
      · have hoccurs : Text.occursIn [c] text = text.contains c := by
          rw [Bool.eq_iff_iff, Text.occursIn_singleton, List.contains_iff_mem]
        rw [hoccurs]
        rfl
    rw [saved?_evaluation, ← hguard]
    simp only [rebuild, rebuildEvaluation, Evaluation.unit, hwriter, htake]
    split
    next => rfl
    next =>
      simp only [p, Place.front, Place.line, Option.map_some, Option.getD_some, List.append_assoc,
        List.cons_append, List.nil_append]

variable (found : Text.find? evaluation? line = some (lead, e, rest)) (hline : '\n' ∉ line)

include found hline

/-- **A rewritten evaluation** gives the value that was written exactly if the text has no quote of
its own and none that would end an evaluation in front of it, and gives it at its place. -/
theorem evaluation_reads_back_iff (number : Int) :
    ∃ p, place? (e.unit number).2 line = some p ∧ p.lead = lead ∧ ∀ text,
      (saved? line (e.unit number).2 text = none → rebuild (e.unit number).2 text line = line) ∧
      ∀ saved, saved? line (e.unit number).2 text = some saved → isGarbage saved.1 = false →
        ((∃ a, (saved.1, a) ∈ lineUnits number (rebuild (e.unit number).2 text line)) →
          p.ReadsBack text saved) ∧
        (p.ReadsBack text saved → FoundAt number (rebuild (e.unit number).2 text line) lead saved) := by
  obtain ⟨p, hplace, rfl, hquote, rfl, hhead, hsplit, hrebuild⟩ :=
    exists_place_of_evaluation found number
  obtain ⟨tail, htail, hrec, hnone⟩ := Text.find?_eq_some evaluation?_blind found
  obtain ⟨-, -, hq, hmem, -, -⟩ := evaluation?_eq_some_iff_head.mp hrec
  rw [← hquote] at hq hmem
  rw [hsplit] at htail hline
  obtain rfl := List.append_cancel_left htail
  obtain ⟨hahead, hbehind⟩ := Place.ahead hq hmem hline hhead.not_opening hnone
  refine ⟨p, hplace, rfl, fun text => ⟨fun hsaved => ?_, fun saved hsaved hplain => ?_⟩⟩
  · rw [hrebuild, hsaved]
    rfl
  · rw [hrebuild, hsaved, Option.map_some, Option.getD_some]
    rw [saved?_evaluation] at hsaved
    split at hsaved
    next => cases hsaved
    next =>
      cases hsaved
      rw [← hquote] at hplain ⊢
      have hnew : '\n' ∉ p.line p.quote (Quoted.escape [p.quote] text) := by
        refine Place.newline_not_mem_line hline hq.ne_newline ?_
        exact Quoted.not_mem_escape (.inl rfl) hq.encloses text
      have hreads : p.ReadsBack text
          (Evaluation.unit ⟨e.path, p.quote, Quoted.escape [p.quote] text⟩ number) ↔
            p.quote ∉ Quoted.escape [p.quote] text ∧
              (otherQuote p.quote ∈ Quoted.escape [p.quote] text →
                evaluationLeftOpen p.front (otherQuote p.quote) = false) := by
        rw [mem_escape_iff hq hq, mem_escape_iff hq (isQuote_otherQuote _)]
        exact Iff.rfl
      rw [hreads]
      refine ⟨fun ⟨a, ha⟩ => ?_, fun ⟨hown, hother⟩ => ?_⟩
      · exact Place.closed_of_mem_lineUnits hq hhead hahead hbehind hnew ha
      · have hfind := Place.read_of_closed hq hhead hahead hbehind hnew hown hother
        exact foundAt_of_standing (standing?_of_evaluation hfind number) hplain

end Evaluation

section Attribute

variable {number : Int} {line lead rest behind text : Text} {a first : Attribute} {saved : LineUnit}

/-- What an edited attribute becomes is an attribute of the same name, in a quote that can stand
around it. -/
theorem saved?_attribute (line : Text) (a : Attribute) (number : Int) (text : Text) :
    saved? line (a.unit number).2 text =
      (usableQuote? (Text.inlineBreaks [' '] text) [a.quote]).map fun quote =>
        (Text.inlineBreaks [' '] text, { (a.unit number).2 with quote }) := rfl

theorem exists_quote_of_saved (hq : IsQuote a.quote)
    (h : saved? line (a.unit number).2 text = some saved) :
    ∃ z, saved = Attribute.unit ⟨a.name, z, Text.inlineBreaks [' '] text⟩ number ∧ IsQuote z ∧
      z ∉ saved.1 ∧ (otherQuote a.quote ∈ z :: saved.1 ↔
        a.quote ∈ saved.1 ∨ otherQuote a.quote ∈ saved.1) := by
  rw [saved?_attribute, Option.map_eq_some_iff] at h
  obtain ⟨quote, husable, rfl⟩ := h
  obtain ⟨z, rfl, hz⟩ := usableQuote?_eq_some hq husable
  exact ⟨z, rfl, hz⟩

/-- The place where an edited attribute is written, and its line with the text. -/
theorem exists_place_of_attribute (hname : a.name = "text".toList ∨ a.name = "name".toList)
    (hq : IsQuote a.quote)
    (hfirst : Text.find? (namedAttribute? a.name [a.quote]) line = some (lead, first, behind))
    (number : Int) : ∃ p : Place, place? (a.unit number).2 line = some p ∧
      p.lead = lead ∧ p.quote = a.quote ∧ p.behind = behind ∧ p.head = a.name ++ ['='] ∧
      line = p.line p.quote first.text ∧
      ∀ text z value, saved? line (a.unit number).2 text =
          some (Attribute.unit ⟨a.name, z, value⟩ number) →
        rebuild (a.unit number).2 text line = p.line z value := by
  have hwriter := find?_attributeValue? hname hq hfirst
  obtain ⟨at?, tail, hsplit, hrec⟩ := Text.exists_of_find? hfirst
  obtain ⟨hname', hquote', hthere⟩ := namedAttribute?_eq_some_iff.mp hrec
  have htail := hthere.split
  rw [hname', hquote'] at htail
  refine ⟨⟨lead, a.name ++ ['='], a.quote, behind⟩, ?_, rfl, rfl, rfl, rfl, ?_, ?_⟩
  · simp only [place?, Attribute.unit, List.head?_cons, Option.bind_some, hwriter, Option.map_some]
  · rw [hsplit, htail]
    simp only [Place.line, List.append_assoc, List.cons_append, List.nil_append]
  · intro text z value hsaved
    rw [saved?_attribute, Option.map_eq_some_iff] at hsaved
    obtain ⟨quote, husable, heq⟩ := hsaved
    obtain ⟨hvalue, haddress⟩ := Prod.mk.inj heq
    have hquote : quote = [z] := congrArg TagLineAddress.quote haddress
    subst hquote hvalue
    simp only [rebuild, rebuildAttribute, Attribute.unit, husable, hwriter, Place.line,
      List.append_assoc, List.cons_append, List.nil_append]

/-- Without a quote that can stand around it, nothing is written. -/
theorem rebuild_of_not_saved (h : saved? line (a.unit number).2 text = none) :
    rebuild (a.unit number).2 text line = line := by
  rw [saved?_attribute, Option.map_eq_none_iff] at h
  simp only [rebuild, rebuildAttribute, Attribute.unit, h]

/-- On a line with prose an attribute is written where it is read. -/
theorem find?_named_of_prose (hprose : isGarbage line = false)
    (h : Piece.firstToken? (Attribute.counts line) (pieces attribute? line) = some (lead, a, rest)) :
    Text.find? (namedAttribute? a.name [a.quote]) line = some (lead, a, rest) := by
  have hall : ∀ b, Attribute.counts line b = true := fun b => by
    rw [Attribute.counts, hprose]
    rfl
  rw [pieces, Piece.firstToken?_eq_find? attribute?_cuts hall] at h
  obtain ⟨at?, tail, -, hrec, hagree⟩ :=
    Text.findFrom?_agree (namedAttribute?_none a.name [a.quote]) h
  exact hagree _ _ (namedAttribute?_eq_some_iff.mpr ⟨rfl, rfl, attribute?_eq_some_iff.mp hrec⟩)

/-- At one place of a line one attribute stands. -/
theorem eq_of_same_lead
    (hread : Piece.firstToken? (Attribute.counts line) (pieces attribute? line) = some (lead, a, rest))
    (hfirst : Text.find? (namedAttribute? a.name [a.quote]) line = some (lead, first, behind)) :
    first = a ∧ behind = rest := by
  obtain ⟨done, own, after, hpieces, rfl, rfl, -⟩ := Piece.exists_of_firstToken? hread
  have hrec := recognized_of_piecesFrom attribute?_cuts (piecesFrom_drop attribute?_cuts hpieces)
  have hstands := attribute?_eq_some_iff.mp hrec
  obtain ⟨at?, tail, hsplit, hnamed⟩ := Text.exists_of_find? hfirst
  obtain ⟨hname, hquote, hthere⟩ := namedAttribute?_eq_some_iff.mp hnamed
  have htail : tail = ((Piece.token a own :: after).flatMap Piece.raw) := by
    have hraw := flatMap_raw_pieces attribute?_cuts line
    rw [hpieces, List.flatMap_append] at hraw
    exact List.append_cancel_left (hsplit.symm.trans hraw.symm)
  have hvalues := hthere.split.symm.trans (htail.trans hstands.split)
  rw [hname, hquote] at hvalues
  have hvalues := (List.cons.inj (List.cons.inj (List.append_cancel_left hvalues)).2).2
  have hmem := hthere.quote_not_mem
  rw [hquote] at hmem
  have hvalue : value? a.quote (first.text ++ a.quote :: behind) = some (first.text, behind) :=
    value?_eq_some_iff.mpr ⟨rfl, hmem, hthere.one_line⟩
  rw [value?_eq_some_iff.mpr ⟨hvalues, hstands.quote_not_mem, hstands.one_line⟩] at hvalue
  obtain ⟨htext, hbehind⟩ := Prod.mk.inj (Option.some.inj hvalue).symm
  obtain ⟨_, _, _⟩ := first
  obtain ⟨_, _, _⟩ := a
  simp only at hname hquote htext
  subst hname hquote htext
  exact ⟨rfl, hbehind⟩

/-- Which attributes count on a line does not depend on the values at a place. -/
theorem Place.counts_line {p : Place} {name value : Text} {q z : Char}
    (hname : name = "text".toList ∨ name = "name".toList) (hhead : p.head = name ++ ['='])
    (hq : IsQuote q) (hz : IsQuote z) (hline : '\n' ∉ p.line q text) (hnew : '\n' ∉ p.line z value) :
    Attribute.counts (p.line z value) = Attribute.counts (p.line q text) := by
  have hsplit : ∀ c t, p.line c t = p.lead ++ (name ++ '=' :: c :: (t ++ c :: p.behind)) := by
    intro c t
    rw [Place.line, hhead]
    simp only [List.append_assoc, List.cons_append, List.nil_append]
  rw [hsplit] at hline hnew
  funext b
  rw [Attribute.counts, Attribute.counts, hsplit, hsplit, isGarbage_attribute hname hq hline,
    isGarbage_attribute hname hz hnew]

/-- An attribute in a new quote with a new value is found at its place exactly if it reads back. -/
theorem Place.attribute_found_iff {p : Place} {name text value : Text} {z : Char}
    (hname : name = "text".toList ∨ name = "name".toList) (hhead : p.head = name ++ ['='])
    (hq : IsQuote p.quote) (hz : IsQuote z) (hmem : p.quote ∉ text) (hown : z ∉ value)
    (hquotes : otherQuote p.quote ∈ z :: value ↔ p.quote ∈ value ∨ otherQuote p.quote ∈ value)
    (hline : '\n' ∉ p.line p.quote text) (hnew : '\n' ∉ p.line z value)
    (hnone : Text.find? evaluation? (p.line p.quote text) = none)
    (hread : Piece.firstToken? (Attribute.counts (p.line p.quote text))
      (pieces attribute? (p.line p.quote text)) = some (p.lead, ⟨name, p.quote, text⟩, rest))
    (hplain : isGarbage value = false) (number : Int) (edited : Text) :
    FoundAt number (p.line z value) p.lead (Attribute.unit ⟨name, z, value⟩ number) ↔
      p.ReadsBack edited (Attribute.unit ⟨name, z, value⟩ number) := by
  have hplaces := (Text.find?_eq_none evaluation?_blind).mp hnone
  obtain ⟨hahead, hbehind⟩ := Place.ahead hq hmem hline
    (hhead ▸ not_opening_of_attribute hname) hplaces.1
  have heval := Place.find?_evaluation_eq_none_iff hname hhead hq hz hnew hahead hbehind
  have hcounts := Place.counts_line hname hhead hq hz hline hnew
  have hown' : Attribute.counts (p.line p.quote text) ⟨name, z, value⟩ = true := by
    obtain ⟨_, _, _, _, -, -, hcounted⟩ := Piece.exists_of_firstToken? hread
    exact hcounted
  have hfinds : Text.finds evaluation? (value ++ ([z] ++ p.behind)) = false ↔
      Text.find? evaluation? (value ++ z :: p.behind) = none := by
    rw [Text.finds, Option.isSome_eq_false_iff, Option.isNone_iff_eq_none]
    rfl
  have hreads : p.ReadsBack edited (Attribute.unit ⟨name, z, value⟩ number) ↔
      (otherQuote p.quote ∈ z :: value → evaluationLeftOpen p.front (otherQuote p.quote) = false ∧
        attributeLeftOpen p.lead (otherQuote p.quote) = false) ∧
          Text.find? evaluation? (value ++ z :: p.behind) = none := by
    rw [hquotes, ← hfinds]
    exact Iff.rfl
  rw [hreads]
  constructor
  · rintro ⟨hstanding, -⟩
    rcases standing?_eq_some hstanding with ⟨e, _, -, heq⟩ | ⟨hfree, a', rest', hfound, -⟩
    · exact TagLineKind.noConfusion (congrArg (·.2.kind) heq)
    · obtain ⟨hopens, hafter⟩ := heval.mp hfree
      rw [hcounts] at hfound
      exact ⟨fun hother => ⟨hopens hother,
        Place.attribute_closed_of_read hname hhead hnew hread hfound hother⟩, hafter⟩
  · rintro ⟨hclosed, hafter⟩
    have hfree := heval.mpr ⟨fun hother => (hclosed hother).1, hafter⟩
    have hfound := Place.attribute_read_of_closed hname hhead hline hnew hread hq hz hown hown'
      fun hother => (hclosed hother).2
    rw [← hcounts] at hfound
    exact foundAt_of_standing (standing?_of_attribute hfree hfound number) hplain

variable (hnone : Text.find? evaluation? line = none)
  (hread : Piece.firstToken? (Attribute.counts line) (pieces attribute? line) = some (lead, a, rest))
  (hline : '\n' ∉ line)

include hnone hread hline

/-- **A rewritten attribute**, written where it was read, is read there again exactly if its value
makes no evaluation and its quotes end nothing that is left open in front of it. -/
theorem attribute_reads_back_iff (number : Int) :
    ∃ p, place? (a.unit number).2 line = some p ∧ (isGarbage line = false → p.lead = lead) ∧
      ∀ text saved, saved? line (a.unit number).2 text = some saved → isGarbage saved.1 = false →
        p.lead = lead → (FoundAt number (rebuild (a.unit number).2 text line) lead saved ↔
          p.ReadsBack text saved) := by
  obtain ⟨done, own, after, hpieces, -, -, hcounts⟩ := Piece.exists_of_firstToken? hread
  have htoken : .token a own ∈ pieces attribute? line := by
    rw [hpieces]
    exact List.mem_append_right _ List.mem_cons_self
  obtain ⟨_, _, _, hstands⟩ := standsAt_of_token htoken
  obtain ⟨lead', first, behind, hfirst⟩ := exists_named_of_token htoken
  obtain ⟨p, hplace, rfl, hquote, rfl, hhead, hsplit, hrebuild⟩ :=
    exists_place_of_attribute hstands.name hstands.quote hfirst number
  refine ⟨p, hplace, fun hprose => ?_, ?_⟩
  · rw [find?_named_of_prose hprose hread] at hfirst
    exact (congrArg (·.1) (Option.some.inj hfirst)).symm
  · rintro text saved hsaved hplain rfl
    obtain ⟨rfl, -⟩ := eq_of_same_lead hread hfirst
    obtain ⟨z, rfl, hz, hown, hquotes⟩ := exists_quote_of_saved hstands.quote hsaved
    rw [hrebuild text z _ hsaved]
    subst hsplit
    have hread : Piece.firstToken? (Attribute.counts (p.line p.quote first.text))
        (pieces attribute? (p.line p.quote first.text)) =
          some (p.lead, ⟨first.name, p.quote, first.text⟩, rest) := by
      rw [hread, hquote]
    have hnew : '\n' ∉ p.line z (Text.inlineBreaks [' '] text) :=
      Place.newline_not_mem_line hline hz.ne_newline
        (Text.newline_not_mem_inlineBreaks (by decide) text)
    rw [← hquote] at hquotes
    exact Place.attribute_found_iff hstands.name hhead (hquote ▸ hstands.quote) hz
      (hquote ▸ hstands.quote_not_mem) hown hquotes hline hnew hnone hread hplain number text

end Attribute

/-! ## Any edited value -/

/-- **A saved attribute or evaluation read back**: a text whose quotes cannot stand in the line leaves
it as it is. Any other is written in its written form and, where it is written at the unit's own
place, found there again exactly if it reads back. An evaluation, and an attribute of a line with
prose, is always written at its own place, and an evaluation that does not read back does not give
the value elsewhere. -/
theorem saved_value_reads_back_iff {number : Int} {line : Text} {u : LineUnit}
    (hu : u ∈ lineUnits number line)
    (hkind : u.2.kind = .evalVariable ∨ u.2.kind = .tagAttribute) (hline : '\n' ∉ line) :
    ∃ p lead, place? u.2 line = some p ∧ standing? number line = some (lead, u) ∧
      (u.2.kind = .evalVariable ∨ isGarbage line = false → p.lead = lead) ∧
      ∀ text, (saved? line u.2 text = none → rebuild u.2 text line = line) ∧
        ∀ saved, saved? line u.2 text = some saved →
          saved.1 = writtenForm u.2 text ∧ saved.2.kind = u.2.kind ∧
            (isGarbage saved.1 = false → p.lead = lead →
              (FoundAt number (rebuild u.2 text line) lead saved ↔ p.ReadsBack text saved) ∧
              (u.2.kind = .evalVariable → ∀ a, (saved.1, a) ∈ lineUnits number
                (rebuild u.2 text line) → p.ReadsBack text saved)) := by
  obtain ⟨lead, hstanding⟩ := standing?_of_mem_lineUnits hu hkind
  rcases standing?_eq_some hstanding with ⟨e, rest, hfind, rfl⟩ | ⟨hnone, a, rest, hread, rfl⟩
  · obtain ⟨p, hplace, rfl, hreads⟩ := evaluation_reads_back_iff hfind hline number
    refine ⟨p, p.lead, hplace, hstanding, fun _ => rfl, fun text => ?_⟩
    refine ⟨(hreads text).1, fun saved hsaved => ?_⟩
    obtain ⟨hvalue, hsame⟩ := written_of_saved hsaved
    refine ⟨hvalue, hsame, fun hplain _ => ?_⟩
    obtain ⟨hgiven, hfound⟩ := (hreads text).2 saved hsaved hplain
    refine ⟨⟨fun hread => hgiven ⟨saved.2, ?_⟩, hfound⟩, fun _ a ha => hgiven ⟨a, ha⟩⟩
    rw [hread.2]
    exact List.mem_cons_self
  · obtain ⟨p, hplace, hown, hreads⟩ := attribute_reads_back_iff hnone hread hline number
    refine ⟨p, lead, hplace, hstanding, fun h => hown (h.resolve_left fun h => nomatch h),
      fun text => ⟨rebuild_of_not_saved, fun saved hsaved => ?_⟩⟩
    obtain ⟨hvalue, hsame⟩ := written_of_saved hsaved
    exact ⟨hvalue, hsame, fun hplain hlead =>
      ⟨hreads text saved hsaved hplain hlead, fun h => nomatch h⟩⟩

/-- A name without quotes, written over another. -/
theorem renamed_hero_reads_back :
    let line := "@eval exp=\"f.name='Bob'\"".toList
    let hero : LineUnit := ("Bob".toList,
      { line := 0, kind := .evalVariable, quote := ['\''], variablePath := "f.name".toList })
    hero ∈ lineUnits 0 line ∧
      FoundAt 0 (rebuild hero.2 "Ann".toList line) [] ("Ann".toList, hero.2) := by
  intro line hero
  have hu : hero ∈ lineUnits 0 line := by decide +kernel
  refine ⟨hu, ?_⟩
  obtain ⟨p, lead, hplace, -, hown, hreads⟩ :=
    saved_value_reads_back_iff hu (.inl rfl) (by decide)
  have hthere : place? hero.2 line =
      some ⟨[], "@eval exp=\"f.name=".toList, '\'', "\"".toList⟩ := by decide +kernel
  obtain rfl := Option.some.inj (hthere.symm.trans hplace)
  obtain rfl := hown (.inl rfl)
  obtain ⟨-, -, hiff⟩ := (hreads "Ann".toList).2 ("Ann".toList, hero.2) (by decide +kernel)
  exact (hiff (by decide) rfl).1.mpr ⟨by decide, fun hmem => absurd hmem (by decide)⟩

/-- A name with an apostrophe: the reader ends the value at the quote that the writer protects. -/
theorem protected_apostrophe_cuts_value :
    let line := "@eval exp=\"f.name='Bob'\"".toList
    let hero : LineUnit := ("Bob".toList,
      { line := 0, kind := .evalVariable, quote := ['\''], variablePath := "f.name".toList })
    let text := "it's".toList
    hero ∈ lineUnits 0 line ∧ isGarbage (writtenForm hero.2 text) = false ∧
      rebuild hero.2 text line ≠ line ∧
      lineUnits 0 (rebuild hero.2 text line) = [("it\\".toList, hero.2)] ∧
      ∀ a, (writtenForm hero.2 text, a) ∉ lineUnits 0 (rebuild hero.2 text line) := by
  intro line hero text
  have hread : lineUnits 0 (rebuild hero.2 text line) = [("it\\".toList, hero.2)] := by
    decide +kernel
  refine ⟨by decide +kernel, by decide +kernel, by decide +kernel, hread, fun a ha => ?_⟩
  have hother : writtenForm hero.2 text ≠ "it\\".toList := by decide
  rw [hread, List.mem_singleton] at ha
  exact hother (congrArg (·.1) ha)

/-- An attribute left open in front of the value: an apostrophe that comes in ends it, and nothing is
read any more. -/
example :
    let line := "[x name='a text=\"b\"]".toList
    let b : LineUnit := ("b".toList,
      { line := 0, kind := .tagAttribute, quote := ['"'], attributeName := "text".toList })
    lineUnits 0 line = [b] ∧ attributeLeftOpen "[x name='a ".toList '\'' = true ∧
      lineUnits 0 (rebuild b.2 "it's".toList line) = [] := by decide +kernel

end Kag

end GameText
