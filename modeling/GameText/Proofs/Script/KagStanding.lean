import GameText.Proofs.Script.KagLine
import GameText.Proofs.Text.Find
import GameText.Proofs.Text.TagRuns

/-!
# Where a unit stands on its line

An evaluation is read at its first find, and an attribute at the first one that counts in a scan of
the whole line (`firstToken?`). `standing?` gives that place with the unit there; the units of the
line follow from it (`lineUnits_of_standing`).

Whether a line is scenario syntax, and so which attributes count on it, does not depend on what an
attribute on it holds: it is decided by the first and the last character of the trimmed line
(`isGarbage_attribute`).
-/

namespace GameText

namespace Piece

variable {α : Type} {counts : α → Bool}

/-- The first token that counts, with the text in front of it and the text behind it. -/
def firstToken? (counts : α → Bool) : List (Piece α) → Option (Text × α × Text)
  | [] => none
  | .gap c :: ps => (firstToken? counts ps).map fun (lead, value, rest) => (c :: lead, value, rest)
  | .token value own :: ps =>
    if counts value then some ([], value, ps.flatMap raw)
    else (firstToken? counts ps).map fun (lead, value', rest) => (own ++ lead, value', rest)

theorem map_value_firstToken? (ps : List (Piece α)) :
    (firstToken? counts ps).map (·.2.1) = (ps.filterMap value?).find? counts := by
  fun_induction firstToken? counts ps with
  | case1 => rfl
  | case2 c ps ih =>
    rw [Option.map_map]
    exact ih
  | case3 value own ps hcounts =>
    rw [List.filterMap_cons]
    exact (List.find?_cons_of_pos hcounts).symm
  | case4 value own ps hcounts ih =>
    rw [Option.map_map, List.filterMap_cons]
    exact ih.trans (List.find?_cons_of_neg hcounts).symm

/-- The first token that counts has pieces in front of it and pieces behind it. -/
theorem exists_of_firstToken? {ps : List (Piece α)} {lead rest : Text} {v : α}
    (h : firstToken? counts ps = some (lead, v, rest)) :
    ∃ done own behind, ps = done ++ .token v own :: behind ∧ lead = done.flatMap raw ∧
      rest = behind.flatMap raw ∧ counts v = true := by
  induction ps generalizing lead with
  | nil => cases h
  | cons p ps ih =>
    have hlater : ∀ {lead'}, firstToken? counts ps = some (lead', v, rest) →
        lead = p.raw ++ lead' → ∃ done own behind, p :: ps = done ++ .token v own :: behind ∧
          lead = done.flatMap raw ∧ rest = behind.flatMap raw ∧ counts v = true := by
      intro lead' hps hlead
      obtain ⟨done, own, behind, rfl, rfl, hrest, hcounts⟩ := ih hps
      exact ⟨p :: done, own, behind, rfl, hlead, hrest, hcounts⟩
    cases p with
    | gap c =>
      obtain ⟨⟨lead', v', rest'⟩, hps, heq⟩ := Option.map_eq_some_iff.mp h
      cases heq
      exact hlater hps rfl
    | token value own =>
      rw [firstToken?] at h
      split at h
      next hcounts =>
        cases h
        exact ⟨[], own, ps, rfl, rfl, rfl, hcounts⟩
      next =>
        obtain ⟨⟨lead', v', rest'⟩, hps, heq⟩ := Option.map_eq_some_iff.mp h
        cases heq
        exact hlater hps rfl

/-- Behind pieces without a token that counts, the first one is that of the others. -/
theorem firstToken?_append_of_none {done : List (Piece α)} (h : firstToken? counts done = none)
    (ps : List (Piece α)) : firstToken? counts (done ++ ps) =
      (firstToken? counts ps).map fun (lead, value, rest) => (done.flatMap raw ++ lead, value, rest) := by
  fun_induction firstToken? counts done with
  | case1 => exact Option.map_id'.symm
  | case2 c done ih =>
    rw [List.cons_append, firstToken?, ih (Option.map_eq_none_iff.mp h), Option.map_map]
    rfl
  | case3 value own done hcounts => cases h
  | case4 value own done hcounts ih =>
    rw [List.cons_append, firstToken?, if_neg hcounts, ih (Option.map_eq_none_iff.mp h),
      Option.map_map, List.flatMap_cons]
    simp only [Function.comp_def, raw, List.append_assoc]

/-- The first token that counts is that of a text that goes on. -/
theorem firstToken?_append_of_some {done : List (Piece α)} {lead rest : Text} {v : α}
    (h : firstToken? counts done = some (lead, v, rest)) (ps : List (Piece α)) :
    firstToken? counts (done ++ ps) = some (lead, v, rest ++ ps.flatMap raw) := by
  fun_induction firstToken? counts done generalizing lead with
  | case1 => cases h
  | case2 c done ih =>
    obtain ⟨⟨lead', v', rest'⟩, hdone, heq⟩ := Option.map_eq_some_iff.mp h
    cases heq
    rw [List.cons_append, firstToken?, ih hdone]
    rfl
  | case3 value own done hcounts =>
    cases h
    rw [List.cons_append, firstToken?, if_pos hcounts, List.flatMap_append]
  | case4 value own done hcounts ih =>
    obtain ⟨⟨lead', v', rest'⟩, hdone, heq⟩ := Option.map_eq_some_iff.mp h
    cases heq
    rw [List.cons_append, firstToken?, if_neg hcounts, ih hdone]
    rfl

/-- If all tokens count, the first of a scan is the first find. -/
theorem firstToken?_eq_find? {recognize : Recognizer α} (hcuts : recognize.Cuts)
    (hall : ∀ v, counts v = true) (before : Option Char) (s : Text) :
    firstToken? counts (piecesFrom recognize before s) = Text.findFrom? recognize before s := by
  induction before, s using scan_induction hcuts with
  | nil before =>
    rw [piecesFrom_nil, Text.findFrom?, hcuts.nil]
    rfl
  | token before value raw rest hraw hrec hpieces _ =>
    rw [hpieces, firstToken?, if_pos (hall value), flatMap_raw_piecesFrom hcuts]
    obtain ⟨c, cs, rfl⟩ := List.exists_cons_of_ne_nil hraw
    rw [List.cons_append] at hrec ⊢
    rw [Text.findFrom?, hrec]
  | gap before c cs hrec hpieces ih =>
    rw [hpieces, firstToken?, ih, Text.findFrom?, hrec]

end Piece

namespace Kag

open Quoted (IsQuote)

/-! ## Scenario syntax around an attribute -/

/-- The first and the last character of a trimmed line make it scenario syntax. -/
def marksSyntax (first last : Option Char) : Bool :=
  first == some ';' || first == some '*' || (first == some '[' && last == some ']') ||
    first == some '@' || (first == some '【' && last == some '】') || first == some '#'

theorem beginsLine_eq {t : Text} (hlength : 2 ≤ t.length) (hline : '\n' ∉ t) (c : Char) :
    beginsLine c t = (t.head? == some c) := by
  match t, hlength with
  | d :: e :: t, _ =>
    have he : (e != '\n') = true := by
      rw [bne_iff_ne]
      rintro rfl
      exact hline (List.mem_cons_of_mem _ List.mem_cons_self)
    rw [beginsLine, he, Bool.and_true]
    rfl

theorem not_all_of_mem {p : Char → Bool} {t : Text} {c : Char} (hc : c ∈ t) (hp : p c = false) :
    t.all p = false := by
  rw [List.all_eq_false]
  exact ⟨c, hc, by rw [hp]; exact Bool.false_ne_true⟩

/-- A text with an equals sign and a letter is scenario syntax only by its two ends. -/
theorem isSyntax_eq_marksSyntax {t : Text} (hlength : 3 ≤ t.length) (hequals : '=' ∈ t)
    (hletter : 'e' ∈ t) (hline : '\n' ∉ t) : isSyntax t = marksSyntax t.head? t.getLast? := by
  have hfold : '=' ∈ t.fold := List.mem_map.mpr ⟨'=', hequals, by decide⟩
  have hword : codeWords.contains t.fold = false := by
    rw [Bool.eq_false_iff, Ne, List.contains_iff_mem]
    intro hmem
    have hnone : ∀ w ∈ codeWords, '=' ∉ w := by decide
    exact hnone _ hmem hfold
  have hquotation : (t == "「§」".toList) = false := by
    rw [beq_eq_false_iff_ne]
    rintro rfl
    exact absurd hequals (by decide)
  have hmark : (t == "§".toList) = false := by
    rw [beq_eq_false_iff_ne]
    rintro rfl
    exact absurd hequals (by decide)
  have hbreak : t.contains '\n' = false := by
    rw [Bool.eq_false_iff, Ne, List.contains_iff_mem]
    exact hline
  have htwo : 2 ≤ t.length := Nat.le_of_succ_le hlength
  rw [isSyntax, marksSyntax, beginsLine_eq htwo hline, beginsLine_eq htwo hline, hword, hquotation,
    hmark, hbreak, not_all_of_mem hequals (by decide), not_all_of_mem hletter (by decide),
    not_all_of_mem hletter (by decide), decide_eq_true hlength, decide_eq_true htwo]
  simp only [Bool.true_and, Bool.not_false, Bool.and_true, Bool.and_false, Bool.or_false]

section Ends

variable {name lead text rest : Text} {q : Char}
  (hname : name = "text".toList ∨ name = "name".toList) (hq : IsQuote q)

include hname hq

/-- Trimming a line leaves an attribute on it alone. -/
theorem trim_attribute :
    Text.trim (lead ++ (name ++ '=' :: q :: (text ++ q :: rest))) =
      lead.trimStart ++ (name ++ '=' :: q :: (text ++ q :: rest.trimEnd)) := by
  have hsplit : ∀ front behind : Text, front ++ (name ++ '=' :: q :: (text ++ q :: behind)) =
      front ++ (name ++ '=' :: q :: (text ++ [q])) ++ behind := by
    intro front behind
    simp only [List.append_assoc, List.cons_append, List.nil_append]
  have hbegins : Text.Stops isBlank (name ++ '=' :: q :: (text ++ q :: rest)) := by
    rcases hname with rfl | rfl <;> exact Text.stops_cons.mpr (by decide)
  have hends : Text.Stops isBlank
      (lead.trimStart ++ (name ++ '=' :: q :: (text ++ [q]))).reverse := by
    have hlast : (lead.trimStart ++ (name ++ '=' :: q :: (text ++ [q]))).reverse =
        q :: (lead.trimStart ++ (name ++ '=' :: q :: text)).reverse := by
      simp only [List.reverse_append, List.reverse_cons, List.append_assoc, List.nil_append,
        List.reverse_nil, List.cons_append]
    rw [hlast, Text.stops_cons]
    rcases hq with rfl | rfl <;> decide
  rw [Text.trim, Text.trimStart_append hbegins, hsplit _ rest, Text.trimEnd_append hends, ← hsplit]

/-- The two ends of a trimmed line with an attribute mark it whatever the attribute holds. -/
theorem marksSyntax_attribute :
    marksSyntax (lead ++ (name ++ '=' :: q :: (text ++ q :: rest))).head?
        (lead ++ (name ++ '=' :: q :: (text ++ q :: rest))).getLast? =
      marksSyntax (lead.head?.or name.head?) (rest.getLast?.or (some '"')) := by
  have hfirst : (lead ++ (name ++ '=' :: q :: (text ++ q :: rest))).head? =
      lead.head?.or name.head? := by
    rcases hname with rfl | rfl <;> exact List.head?_append
  have hlast : (lead ++ (name ++ '=' :: q :: (text ++ q :: rest))).getLast? =
      rest.getLast?.or (some q) := by
    have hsplit : lead ++ (name ++ '=' :: q :: (text ++ q :: rest)) =
        (lead ++ (name ++ '=' :: q :: text)) ++ [q] ++ rest := by
      simp only [List.append_assoc, List.cons_append, List.nil_append]
    rw [hsplit, List.getLast?_append, List.getLast?_concat]
  rw [hfirst, hlast]
  cases rest.getLast? with
  | some c => rfl
  | none => rcases hq with rfl | rfl <;> rfl

/-- **What an attribute holds** does not decide whether its line is scenario syntax. -/
theorem isGarbage_attribute
    (hline : '\n' ∉ lead ++ (name ++ '=' :: q :: (text ++ q :: rest))) :
    isGarbage (lead ++ (name ++ '=' :: q :: (text ++ q :: rest))) =
      marksSyntax (lead.trimStart.head?.or name.head?) (rest.trimEnd.getLast?.or (some '"')) := by
  have hnone : '\n' ∉ lead.trimStart ++ (name ++ '=' :: q :: (text ++ q :: rest.trimEnd)) := by
    obtain ⟨blanks, hlead⟩ := Text.exists_trimStart lead
    simp only [List.mem_append, List.mem_cons, not_or] at hline ⊢
    refine ⟨fun hmem => hline.1 ?_, hline.2.1, hline.2.2.1, hline.2.2.2.1, hline.2.2.2.2.1,
      hline.2.2.2.2.2.1, fun hmem => hline.2.2.2.2.2.2 ?_⟩
    · rw [hlead]
      exact List.mem_append_right _ hmem
    · rw [← Text.trimEnd_append_blanksAtEnd rest]
      exact List.mem_append_left _ hmem
  have hequals : '=' ∈ lead.trimStart ++ (name ++ '=' :: q :: (text ++ q :: rest.trimEnd)) :=
    List.mem_append_right _ (List.mem_append_right _ List.mem_cons_self)
  have hletter : 'e' ∈ lead.trimStart ++ (name ++ '=' :: q :: (text ++ q :: rest.trimEnd)) := by
    refine List.mem_append_right _ (List.mem_append_left _ ?_)
    rcases hname with rfl | rfl <;> decide
  have hlength : 3 ≤
      (lead.trimStart ++ (name ++ '=' :: q :: (text ++ q :: rest.trimEnd))).length := by
    simp only [List.length_append, List.length_cons]
    omega
  rw [isGarbage, trim_attribute hname hq,
    List.isEmpty_eq_false_iff.mpr (List.ne_nil_of_mem hequals), Bool.false_or,
    isSyntax_eq_marksSyntax hlength hequals hletter hnone, marksSyntax_attribute hname hq]

end Ends

/-! ## The unit of a line -/

/-- Where the evaluation or the attribute of a line stands, and its unit: the text in front of it,
and what the line would give if it holds text. -/
def standing? (number : Int) (line : Text) : Option (Text × LineUnit) :=
  match Text.find? evaluation? line with
  | some (lead, e, _) => some (lead, e.unit number)
  | none =>
    (Piece.firstToken? (Attribute.counts line) (pieces attribute? line)).map fun (lead, a, _) =>
      (lead, a.unit number)

section Standing

variable {number : Int} {line lead : Text} {u : LineUnit}

theorem standing?_of_evaluation {e : Evaluation} {rest : Text}
    (h : Text.find? evaluation? line = some (lead, e, rest)) (number : Int) :
    standing? number line = some (lead, e.unit number) := by
  rw [standing?, h]

theorem standing?_of_attribute {a : Attribute} {rest : Text}
    (heval : Text.find? evaluation? line = none)
    (h : Piece.firstToken? (Attribute.counts line) (pieces attribute? line) = some (lead, a, rest))
    (number : Int) : standing? number line = some (lead, a.unit number) := by
  rw [standing?, heval]
  dsimp only
  rw [h]
  rfl

/-- What stands on a line is an evaluation, or an attribute of a line without one. -/
theorem standing?_eq_some (h : standing? number line = some (lead, u)) :
    (∃ e rest, Text.find? evaluation? line = some (lead, e, rest) ∧ u = e.unit number) ∨
      Text.find? evaluation? line = none ∧ ∃ a rest,
        Piece.firstToken? (Attribute.counts line) (pieces attribute? line) = some (lead, a, rest) ∧
          u = a.unit number := by
  rw [standing?] at h
  split at h
  next e rest hfind =>
    cases h
    exact Or.inl ⟨e, rest, hfind, rfl⟩
  next hfind =>
    obtain ⟨⟨lead', a, rest⟩, hfirst, heq⟩ := Option.map_eq_some_iff.mp h
    cases heq
    exact Or.inr ⟨hfind, a, rest, hfirst, rfl⟩

/-- **What stands on a line is its only unit**, if it holds text. -/
theorem lineUnits_of_standing (h : standing? number line = some (lead, u)) :
    lineUnits number line = if isGarbage u.1 then [] else [u] := by
  rcases standing?_eq_some h with ⟨e, rest, hfind, rfl⟩ | ⟨hnone, a, rest, hfirst, rfl⟩
  · rw [lineUnits, evaluationUnits?, hfind]
    rfl
  · have htoken : (line.tokens attribute?).find? (Attribute.counts line) = some a := by
      rw [Text.tokens, ← Piece.map_value_firstToken?, hfirst]
      rfl
    have hunits : attributeUnits? number line =
        some (if isGarbage (a.unit number).1 then [] else [a.unit number]) := by
      rw [attributeUnits?]
      exact (congrArg (Option.map _) htoken).trans rfl
    rw [lineUnits, evaluationUnits?, hnone, hunits]
    rfl

/-- An evaluation or an attribute that is a unit of a line stands there. -/
theorem standing?_of_mem_lineUnits (h : u ∈ lineUnits number line)
    (hkind : u.2.kind = .evalVariable ∨ u.2.kind = .tagAttribute) :
    ∃ lead, standing? number line = some (lead, u) := by
  cases unitOf_of_mem_lineUnits h with
  | @evaluation before rest e found _ => exact ⟨before, standing?_of_evaluation found number⟩
  | @attributed a found alone =>
    cases hfind : Text.find? evaluation? line with
    | some other =>
      obtain ⟨lead, e, rest⟩ := other
      have hunits := lineUnits_of_standing (standing?_of_evaluation hfind number)
      rw [alone] at hunits
      split at hunits
      next => cases hunits
      next => exact TagLineKind.noConfusion (congrArg (·.2.kind) (List.cons.inj hunits).1)
    | none =>
      rw [Text.tokens, ← Piece.map_value_firstToken?, Option.map_eq_some_iff] at found
      obtain ⟨⟨lead, a', rest⟩, hfirst, rfl⟩ := found
      exact ⟨lead, standing?_of_attribute hfind hfirst number⟩
  | quotation found => rcases hkind with hkind | hkind <;> cases hkind
  | center shape => rcases hkind with rfl | rfl <;> rcases shape with h | h | h <;> cases h

end Standing

end Kag

end GameText
