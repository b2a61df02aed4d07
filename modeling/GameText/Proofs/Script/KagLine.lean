import GameText.Proofs.Text.Beginning
import GameText.Proofs.Text.Find
import GameText.Proofs.Text.Quoted
import GameText.Script.KagLine

/-!
# What the shapes of a KAG line find

For each shape, the characters of the line that it stands for, once and in both directions: a value
in quotes (`value?_eq_some_iff`), the path of a variable (`pathBeforeEquals?_eq_some_iff`), an
evaluation (`evaluation?_eq_some_iff`), an attribute (`attribute?_eq_some_iff`) and a quotation
(`quotation?_eq_some_iff`). `UnitOf` says what a unit of a line can be.
-/

namespace GameText

namespace Kag

open Quoted (IsQuote)

/-! ## Quoted values -/

theorem value?_eq_some_iff {q : Char} {s text rest : Text} :
    value? q s = some (text, rest) ↔ s = text ++ q :: rest ∧ q ∉ text ∧ '\n' ∉ text := by
  induction s generalizing text with
  | nil =>
    rw [value?]
    refine ⟨fun h => (nomatch h), ?_⟩
    intro h
    exact absurd h.1.symm (List.append_ne_nil_of_right_ne_nil _ (List.cons_ne_nil _ _))
  | cons c cs ih =>
    rw [value?]
    split
    next hc =>
      subst hc
      refine ⟨?_, fun ⟨hsplit, hq, _⟩ => ?_⟩
      · intro h
        cases h
        exact ⟨rfl, List.not_mem_nil, List.not_mem_nil⟩
      · cases text with
        | nil => rw [(List.cons.inj hsplit).2]
        | cons d ds => exact absurd ((List.cons.inj hsplit).1 ▸ List.mem_cons_self) hq
    next hc =>
      split
      next hline =>
        refine ⟨fun h => (nomatch h), fun ⟨hsplit, _, hbreak⟩ => ?_⟩
        cases text with
        | nil => exact absurd (List.cons.inj hsplit).1 hc
        | cons d ds =>
          exact absurd (hline ▸ (List.cons.inj hsplit).1 ▸ List.mem_cons_self) hbreak
      next hline =>
        rw [Option.map_eq_some_iff]
        constructor
        · rintro ⟨⟨text', rest'⟩, hvalue, heq⟩
          cases heq
          obtain ⟨hsplit, hq, hbreak⟩ := ih.mp hvalue
          exact ⟨congrArg (c :: ·) hsplit, List.not_mem_cons_of_ne_of_not_mem (Ne.symm hc) hq,
            List.not_mem_cons_of_ne_of_not_mem (Ne.symm hline) hbreak⟩
        · rintro ⟨hsplit, hq, hbreak⟩
          cases text with
          | nil => exact absurd (List.cons.inj hsplit).1 hc
          | cons d ds =>
            obtain ⟨hd, htail⟩ := List.cons.inj hsplit
            refine ⟨(ds, rest), ih.mpr ⟨htail, List.not_mem_of_not_mem_cons hq,
              List.not_mem_of_not_mem_cons hbreak⟩, ?_⟩
            rw [hd]

theorem quotedValue?_eq_some_iff {q : Char} {s text rest : Text} :
    quotedValue? s = some ((q, text), rest) ↔
      IsQuote q ∧ s = q :: (text ++ q :: rest) ∧ q ∉ text ∧ '\n' ∉ text := by
  cases s with
  | nil =>
    rw [quotedValue?]
    exact ⟨fun h => (nomatch h), fun h => (nomatch h.2.1)⟩
  | cons c cs =>
    rw [quotedValue?]
    split
    next hc =>
      rw [Option.map_eq_some_iff, List.cons.injEq]
      constructor
      · rintro ⟨⟨text', rest'⟩, hvalue, heq⟩
        cases heq
        obtain ⟨hsplit, hrest⟩ := value?_eq_some_iff.mp hvalue
        exact ⟨(Quoted.isQuote_iff _).mp hc, ⟨rfl, hsplit⟩, hrest⟩
      · rintro ⟨-, ⟨rfl, hsplit⟩, hrest⟩
        exact ⟨(text, rest), value?_eq_some_iff.mpr ⟨hsplit, hrest⟩, rfl⟩
    next hc =>
      rw [List.cons.injEq]
      refine ⟨fun h => (nomatch h), fun ⟨hq, ⟨heq, _⟩, _⟩ => ?_⟩
      rw [← heq] at hq
      exact absurd ((Quoted.isQuote_iff c).mpr hq) hc

/-! ## Evaluations -/

/-- The path of a variable that holds a name or a label. -/
def TextPath (path : Text) : Prop :=
  ∃ scope word : Text, (["sf", "f", "tf"].any (·.toList == scope)) = true ∧
    path = scope ++ '.' :: word ∧ (∀ c ∈ word, isWordChar c) ∧ namesText word = true

theorem isLower_of_scope {scope : Text} (h : (["sf", "f", "tf"].any (·.toList == scope)) = true) :
    scope ≠ [] ∧ ∀ c ∈ scope, c.isLower := by
  simp only [List.any_cons, List.any_nil, Bool.or_false, Bool.or_eq_true, beq_iff_eq] at h
  rcases h with rfl | rfl | rfl <;> exact ⟨by decide, List.all_eq_true.mp (by decide)⟩

theorem TextPath.ne_nil {path : Text} (h : TextPath path) : path ≠ [] := by
  obtain ⟨scope, word, -, rfl, -⟩ := h
  exact List.append_ne_nil_of_right_ne_nil _ (List.cons_ne_nil _ _)

/-- A path begins with a letter. -/
theorem TextPath.head_not_quote {path : Text} (h : TextPath path) {c : Char} {cs : Text}
    (hpath : path = c :: cs) : ¬ IsQuote c := by
  obtain ⟨scope, word, hscope, rfl, -⟩ := h
  obtain ⟨hne, hlower⟩ := isLower_of_scope hscope
  obtain ⟨d, ds, rfl⟩ := List.exists_cons_of_ne_nil hne
  have hc : c.isLower := (List.cons.inj hpath).1 ▸ hlower d List.mem_cons_self
  rintro (rfl | rfl) <;> exact absurd hc (by decide)

theorem pathBeforeEquals?_eq_some_iff {s path rest : Text} :
    pathBeforeEquals? s = some (path, rest) ↔ TextPath path ∧ s = path ++ '=' :: rest := by
  constructor
  · intro h
    rw [pathBeforeEquals?] at h
    dsimp only at h
    split at h
    next cs hdrop =>
      split at h
      next rest' hword =>
        split at h
        next hcond =>
          cases h
          rw [Bool.and_eq_true] at hcond
          have hall : ∀ c ∈ cs.takeWhile isWordChar, isWordChar c :=
            List.all_eq_true.mp List.all_takeWhile
          have hs : s.takeWhile Char.isLower ++ '.' :: cs = s := by
            obtain ⟨tail, htail⟩ := List.takeWhile_prefix (l := s) Char.isLower
            have hcut : s.drop (s.takeWhile Char.isLower).length = tail := by
              have h : (s.takeWhile Char.isLower ++ tail).drop (s.takeWhile Char.isLower).length =
                tail := List.drop_left' rfl
              rwa [htail] at h
            rw [← hdrop, hcut, htail]
          refine ⟨⟨_, _, hcond.1, rfl, hall, hcond.2⟩, ?_⟩
          rw [List.append_assoc, List.cons_append, ← hword, List.takeWhile_append_dropWhile, hs]
        next => cases h
      next => cases h
    next => cases h
  · rintro ⟨⟨scope, word, hscope, rfl, hword, hnames⟩, rfl⟩
    have hlower := (isLower_of_scope hscope).2
    have htake : (scope ++ '.' :: word ++ '=' :: rest).takeWhile Char.isLower = scope := by
      rw [List.append_assoc, List.takeWhile_append_of_pos hlower, List.cons_append,
        List.takeWhile_cons_of_neg (by decide), List.append_nil]
    have hdrop : (scope ++ '.' :: word ++ '=' :: rest).drop scope.length =
        '.' :: (word ++ '=' :: rest) := by
      rw [List.append_assoc, List.drop_left' rfl]
      rfl
    have hwordTake : (word ++ '=' :: rest).takeWhile isWordChar = word := by
      rw [List.takeWhile_append_of_pos hword, List.takeWhile_cons_of_neg (by decide),
        List.append_nil]
    have hwordDrop : (word ++ '=' :: rest).dropWhile isWordChar = '=' :: rest := by
      rw [List.dropWhile_append_of_pos hword, List.dropWhile_cons_of_neg (by decide)]
    rw [pathBeforeEquals?, htake, hdrop]
    simp only [hwordDrop, hwordTake, hscope, hnames, Bool.and_self, if_true]

/-- The quote around a whole expression, if it has one. -/
def OuterQuote (outer : Text) : Prop := outer = [] ∨ ∃ c, IsQuote c ∧ outer = [c]

/-- An evaluation: the text after its beginning is its outer quote if any, the path, and the value
in quotes. -/
structure Evaluation.StandsAt (e : Evaluation) (s outer rest : Text) : Prop where
  begins : afterEval? s = some (outer ++ (e.path ++ '=' :: e.quote :: (e.text ++ e.quote :: rest)))
  outer_quote : OuterQuote outer
  path : TextPath e.path
  quote : IsQuote e.quote
  quote_not_mem : e.quote ∉ e.text
  one_line : '\n' ∉ e.text

theorem evaluation?_eq_some_iff {before : Option Char} {s rest : Text} {e : Evaluation} :
    evaluation? before s = some (e, rest) ↔ ∃ outer, e.StandsAt s outer rest := by
  constructor
  · intro h
    simp only [evaluation?, Option.bind_eq_bind, Option.bind_eq_some_iff, Option.pure_def,
      Option.some_inj, Prod.exists, Prod.mk.injEq] at h
    obtain ⟨expression, hbegins, path, rest₁, hpath, q, text, rest₂, hvalue, rfl, rfl⟩ := h
    obtain ⟨htext, hinner⟩ := pathBeforeEquals?_eq_some_iff.mp hpath
    obtain ⟨hq, hsplit, hmem, hline⟩ := quotedValue?_eq_some_iff.mp hvalue
    rw [hsplit] at hinner
    cases expression with
    | nil => exact absurd hinner.symm (List.append_ne_nil_of_right_ne_nil _ (List.cons_ne_nil _ _))
    | cons c cs =>
      dsimp only at hinner
      split at hinner
      next hc =>
        refine ⟨[c], ?_, Or.inr ⟨c, (Quoted.isQuote_iff c).mp hc, rfl⟩, htext, hq, hmem, hline⟩
        rw [hbegins, hinner]
        rfl
      next =>
        refine ⟨[], ?_, Or.inl rfl, htext, hq, hmem, hline⟩
        rw [hbegins, hinner]
        rfl
  · rintro ⟨outer, hbegins, houter, hpath, hq, hmem, hline⟩
    obtain ⟨path, q, text⟩ := e
    have hvalue : quotedValue? (q :: (text ++ q :: rest)) = some ((q, text), rest) :=
      quotedValue?_eq_some_iff.mpr ⟨hq, rfl, hmem, hline⟩
    have hinner : pathBeforeEquals? (path ++ '=' :: q :: (text ++ q :: rest)) =
        some (path, q :: (text ++ q :: rest)) :=
      pathBeforeEquals?_eq_some_iff.mpr ⟨hpath, rfl⟩
    simp only [evaluation?, hbegins, Option.bind_eq_bind, Option.bind_some]
    rcases houter with rfl | ⟨c, hc, rfl⟩
    · have htext : TextPath path := hpath
      obtain ⟨d, ds, hd⟩ := List.exists_cons_of_ne_nil htext.ne_nil
      have hnot : ¬ (decide (d = '"') || decide (d = '\'')) = true :=
        mt (Quoted.isQuote_iff d).mp (htext.head_not_quote hd)
      have hexpression : path ++ '=' :: q :: (text ++ q :: rest) =
          d :: (ds ++ '=' :: q :: (text ++ q :: rest)) := by
        rw [hd]
        rfl
      rw [List.nil_append, hexpression]
      dsimp only
      rw [if_neg hnot, ← hexpression, hinner]
      simp only [Option.bind_some, hvalue]
      rfl
    · rw [List.singleton_append]
      dsimp only
      rw [if_pos ((Quoted.isQuote_iff c).mpr hc), hinner]
      simp only [Option.bind_some, hvalue]
      rfl

/-! ## Attributes -/

/-- An attribute stands at a place where a word can begin: its name and its value in quotes. -/
structure Attribute.StandsAt (a : Attribute) (before : Option Char) (s rest : Text) : Prop where
  word_begins : before.any isWordChar = false
  name : a.name = "text".toList ∨ a.name = "name".toList
  quote : IsQuote a.quote
  split : s = a.name ++ '=' :: a.quote :: (a.text ++ a.quote :: rest)
  quote_not_mem : a.quote ∉ a.text
  one_line : '\n' ∉ a.text

theorem attribute?_eq_some_iff {before : Option Char} {s rest : Text} {a : Attribute} :
    attribute? before s = some (a, rest) ↔ a.StandsAt before s rest := by
  have hwords : Text.wordList ["text", "name"] = ["text".toList, "name".toList] := rfl
  rw [attribute?, hwords]
  constructor
  · intro h
    split at h
    next => cases h
    next hword =>
      obtain ⟨name, hname, hfound⟩ := List.exists_of_findSome?_eq_some h
      split at hfound
      next rest' hafter =>
        obtain ⟨⟨⟨q, text⟩, rest''⟩, hvalue, heq⟩ := Option.map_eq_some_iff.mp hfound
        cases heq
        obtain ⟨hq, hsplit, hmem, hline⟩ := quotedValue?_eq_some_iff.mp hvalue
        have hs := Text.after?_eq_some_iff.mp hafter
        rw [hsplit, List.append_assoc, List.singleton_append] at hs
        refine ⟨Bool.eq_false_iff.mpr hword, ?_, hq, hs, hmem, hline⟩
        simpa only [List.mem_cons, List.not_mem_nil, or_false] using hname
      next => cases hfound
  · rintro ⟨hword, hname, hq, hsplit, hmem, hline⟩
    obtain ⟨name, q, text⟩ := a
    dsimp only at hname hsplit
    have hvalue : quotedValue? (q :: (text ++ q :: rest)) = some ((q, text), rest) :=
      quotedValue?_eq_some_iff.mpr ⟨hq, rfl, hmem, hline⟩
    have hafter : Text.after? (name ++ ['=']) s = some (q :: (text ++ q :: rest)) := by
      rw [hsplit, Text.after?_eq_some_iff, List.append_assoc, List.singleton_append]
    rw [if_neg (by rw [hword]; exact Bool.false_ne_true)]
    rcases hname with rfl | rfl
    · rw [List.findSome?_cons, hafter]
      dsimp only
      rw [hvalue]
      rfl
    · have hother : Text.after? ("text".toList ++ ['=']) s = none := by
        rw [hsplit]
        rfl
      rw [List.findSome?_cons, hother]
      dsimp only
      rw [List.findSome?_cons, hafter]
      dsimp only
      rw [hvalue]
      rfl

theorem attribute?_cuts : Recognizer.Cuts attribute? := fun before s a rest h => by
  have hstands := attribute?_eq_some_iff.mp h
  refine ⟨a.name ++ '=' :: a.quote :: (a.text ++ [a.quote]),
    List.append_ne_nil_of_right_ne_nil _ (List.cons_ne_nil _ _), ?_⟩
  rw [hstands.split]
  simp only [List.append_assoc, List.cons_append, List.nil_append]

/-! ## Quotations -/

theorem quotation?_eq_some_iff {before : Option Char} {s inside rest : Text} :
    quotation? before s = some (inside, rest) ↔
      s = '「' :: (inside ++ '」' :: rest) ∧ '」' ∉ inside ∧ '\n' ∉ inside := by
  cases s with
  | nil => exact ⟨fun h => (nomatch h), fun h => (nomatch h.1)⟩
  | cons c cs =>
    by_cases hc : c = '「'
    · subst hc
      rw [quotation?, value?_eq_some_iff, List.cons_inj_right]
    · rw [List.cons.injEq]
      refine ⟨?_, fun h => absurd h.1.1 hc⟩
      intro h
      simp only [quotation?] at h
      split at h
      next heq => exact absurd (List.cons.inj heq).1 hc
      next => cases h

/-! ## What a unit of a line can be -/

/-- The unit of an evaluation on a line. -/
def Evaluation.unit (e : Evaluation) (number : Int) : LineUnit :=
  (e.text, { line := number, kind := .evalVariable, quote := [e.quote], variablePath := e.path })

/-- The unit of an attribute on a line. -/
def Attribute.unit (a : Attribute) (number : Int) : LineUnit :=
  (a.text, { line := number, kind := .tagAttribute, quote := [a.quote], attributeName := a.name })

/-- An attribute that counts on the line: on a line of tags or directives alone only `text=`. -/
def Attribute.counts (line : Text) (a : Attribute) : Bool :=
  !isGarbage line || a.name == "text".toList

/-- What a unit of a line can be. An evaluation and an attribute are the only units of their line. -/
inductive UnitOf (number : Int) (line : Text) : LineUnit → Prop where
  | evaluation {before rest : Text} {e : Evaluation}
      (found : Text.find? evaluation? line = some (before, e, rest))
      (alone : lineUnits number line = [e.unit number]) : UnitOf number line (e.unit number)
  | attributed {a : Attribute}
      (found : (line.tokens attribute?).find? (Attribute.counts line) = some a)
      (alone : lineUnits number line = [a.unit number]) : UnitOf number line (a.unit number)
  | quotation {inside : Text} {n : Nat} (found : (line.tokens quotation?)[n]? = some inside) :
      UnitOf number line
        (inside, { line := number, kind := .quotation, ordinal := n, quote := ['「'] })
  | center {kind : TagLineKind}
      (shape : kind = .embText ∨ kind = .cnameDialogue ∨ kind = .bareLine) :
      UnitOf number line ((TagRuns.ofLine line).center, { line := number, kind })

section Shapes

variable {number : Int} {line : Text} {u : LineUnit} {us : List LineUnit}

theorem unitOf_of_evaluation (h : evaluationUnits? number line = some us) (hu : u ∈ us) :
    UnitOf number line u := by
  have hunits : lineUnits number line = us := by
    rw [lineUnits, h]
    rfl
  obtain ⟨⟨before, e, rest⟩, hfound, heq⟩ := Option.map_eq_some_iff.mp h
  dsimp only at heq
  split at heq
  next =>
    rw [← heq] at hu
    cases hu
  next =>
    rw [← heq] at hu hunits
    rw [List.mem_singleton.mp hu]
    exact .evaluation hfound hunits

theorem unitOf_of_attribute (heval : evaluationUnits? number line = none)
    (h : attributeUnits? number line = some us) (hu : u ∈ us) : UnitOf number line u := by
  have hunits : lineUnits number line = us := by
    rw [lineUnits, heval, h]
    rfl
  obtain ⟨a, hfound, heq⟩ := Option.map_eq_some_iff.mp h
  split at heq
  next =>
    rw [← heq] at hu
    cases hu
  next =>
    rw [← heq] at hu hunits
    rw [List.mem_singleton.mp hu]
    exact .attributed hfound hunits

theorem unitOf_of_center {kind : TagLineKind}
    (shape : kind = .embText ∨ kind = .cnameDialogue ∨ kind = .bareLine)
    (h : u ∈ centerUnits number line kind) : UnitOf number line u := by
  rw [centerUnits] at h
  split at h
  next => cases h
  next =>
    rw [List.mem_singleton.mp h]
    exact .center shape

theorem unitOf_of_quotation (h : quotationUnits? number line = some us) (hu : u ∈ us) :
    UnitOf number line u := by
  rw [quotationUnits?] at h
  split at h
  next => cases h
  next =>
    cases h
    obtain ⟨⟨inside, n⟩, hmem, heq⟩ := List.mem_filterMap.mp hu
    dsimp only at heq
    split at heq
    next => cases heq
    next =>
      cases heq
      exact .quotation (List.mk_mem_zipIdx_iff_getElem?.mp hmem)

theorem unitOf_of_bare (h : bareUnits? number line = some us) (hu : u ∈ us) :
    UnitOf number line u := by
  rw [bareUnits?] at h
  split at h
  next => cases h
  next =>
    split at h
    next => cases h
    next =>
      split at h
      next =>
        cases h
        rw [List.mem_singleton.mp hu]
        exact .center (Or.inr (Or.inr rfl))
      next => cases h

/-- Every unit of a line is one of these. -/
theorem unitOf_of_mem_lineUnits (h : u ∈ lineUnits number line) : UnitOf number line u := by
  rw [lineUnits] at h
  cases heval : evaluationUnits? number line with
  | some us => rw [heval] at h; exact unitOf_of_evaluation heval h
  | none =>
  cases hattr : attributeUnits? number line with
  | some us => rw [heval, hattr] at h; exact unitOf_of_attribute heval hattr h
  | none =>
  rw [heval, hattr, embeddedUnits?, nameUnits?] at h
  split at h
  next => exact unitOf_of_center (Or.inl rfl) h
  next =>
    split at h
    next => exact unitOf_of_center (Or.inr (Or.inl rfl)) h
    next =>
      cases hquote : quotationUnits? number line with
      | some us => rw [hquote] at h; exact unitOf_of_quotation hquote h
      | none =>
        rw [hquote] at h
        cases hbare : bareUnits? number line with
        | some us => rw [hbare] at h; exact unitOf_of_bare hbare h
        | none => rw [hbare] at h; cases h

end Shapes

end Kag

end GameText
