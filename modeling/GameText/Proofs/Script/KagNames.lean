import GameText.Proofs.Script.KagStanding

/-!
# Names beside prose

A `name=` attribute is a character's id on a line of tags alone, and text on a line that has prose
beside its tags. The reader does not look for prose: it asks whether the line is scenario syntax,
and on a line with an attribute the first and the last character decide that
(`isGarbage_of_attribute`). A line without prose begins and ends with a tag (`ends_of_no_prose`), so
its names never count. But a line with prose between its first tag and its last has the same two
ends, and there the name is passed over.
-/

namespace GameText

namespace Kag

open Quoted (IsQuote)

/-! ## Lines without prose -/

/-- Outside its tags the line has a character that is not blank. -/
def hasProse (line : Text) : Bool := (line.without Tag.tag?).any fun c => !isBlank c

/-- A piece of a line without prose: a blank, or a tag in its brackets. -/
theorem piece_of_no_prose {line : Text} (h : hasProse line = false) {p : Piece Text}
    (hp : p ∈ pieces Tag.tag? line) :
    (∃ c, p.raw = [c] ∧ isBlank c = true) ∨ ∃ inside, p.raw = '[' :: (inside ++ [']']) := by
  cases p with
  | gap c =>
    refine Or.inl ⟨c, rfl, ?_⟩
    rw [hasProse, List.any_eq_false] at h
    have hc : c ∈ line.without Tag.tag? := List.mem_flatMap.mpr ⟨.gap c, hp, List.mem_singleton_self c⟩
    simpa using h c hc
  | token inside own =>
    obtain ⟨-, before, rest, hrec⟩ := recognized_of_token_mem Tag.tag?_cuts hp
    refine Or.inr ⟨inside, (List.append_left_inj rest).mp ?_⟩
    have hraw := Tag.tag?_eq_some hrec
    simpa only [Piece.raw, List.cons_append, List.append_assoc, List.nil_append] using hraw

/-- **A line without prose is blank or stands between the brackets of its tags.** -/
theorem ends_of_no_prose {line : Text} (h : hasProse line = false) (hne : line.trim ≠ []) :
    line.trim.head? = some '[' ∧ line.trim.getLast? = some ']' := by
  have hline : line = (pieces Tag.tag? line).flatMap Piece.raw :=
    (flatMap_raw_pieces Tag.tag?_cuts line).symm
  have hopen : ∀ c, line.trim.head? = some c → c = '[' := by
    intro c hc
    rw [Text.head?_trim, hline, List.find?_flatMap] at hc
    obtain ⟨p, hp, hfound⟩ := List.exists_of_findSome?_eq_some hc
    rcases piece_of_no_prose h hp with ⟨d, hraw, hd⟩ | ⟨inside, hraw⟩
    · rw [hraw, List.find?_singleton, hd] at hfound
      cases hfound
    · rw [hraw, List.find?_cons_of_pos (by decide)] at hfound
      exact (Option.some.inj hfound).symm
  have hclose : ∀ c, line.trim.getLast? = some c → c = ']' := by
    intro c hc
    rw [Text.getLast?_trim, hline, List.reverse_flatMap, List.find?_flatMap] at hc
    obtain ⟨p, hp, hfound⟩ := List.exists_of_findSome?_eq_some hc
    rcases piece_of_no_prose h (List.mem_reverse.mp hp) with ⟨d, hraw, hd⟩ | ⟨inside, hraw⟩
    · rw [Function.comp_apply, hraw, List.reverse_singleton, List.find?_singleton, hd] at hfound
      cases hfound
    · rw [Function.comp_apply, hraw, List.reverse_cons, List.reverse_append, List.reverse_singleton,
        List.cons_append, List.cons_append, List.find?_cons_of_pos (by decide)] at hfound
      exact (Option.some.inj hfound).symm
  obtain ⟨c, cs, hcons⟩ := List.exists_cons_of_ne_nil hne
  have hfirst : line.trim.head? = some c := by rw [hcons, List.head?_cons]
  obtain ⟨d, hlast⟩ := Option.ne_none_iff_exists'.mp (mt List.getLast?_eq_none_iff.mp hne)
  rw [hfirst, hlast, hopen c hfirst, hclose d hlast]
  exact ⟨rfl, rfl⟩

/-! ## Lines with an attribute -/

section Names

variable {line : Text} {a : Attribute}

/-- The characters of an attribute stand on its line. -/
theorem exists_of_attribute (h : a ∈ line.tokens attribute?) : ∃ lead rest,
    (a.name = "text".toList ∨ a.name = "name".toList) ∧ IsQuote a.quote ∧
      line = lead ++ (a.name ++ '=' :: a.quote :: (a.text ++ a.quote :: rest)) := by
  obtain ⟨p, hp, hvalue⟩ := List.mem_filterMap.mp h
  cases p with
  | gap c => cases hvalue
  | token value own =>
    cases hvalue
    obtain ⟨before, behind, hrow⟩ := List.append_of_mem hp
    obtain ⟨-, before', rest, hrec⟩ := recognized_of_token_mem attribute?_cuts hp
    have hstands := attribute?_eq_some_iff.mp hrec
    have hown : own = a.name ++ '=' :: a.quote :: (a.text ++ [a.quote]) := by
      refine (List.append_left_inj rest).mp (hstands.split.trans ?_)
      simp only [List.append_assoc, List.cons_append, List.nil_append]
    refine ⟨before.flatMap Piece.raw, behind.flatMap Piece.raw, hstands.name, hstands.quote, ?_⟩
    rw [← flatMap_raw_pieces attribute?_cuts line, hrow, List.flatMap_append, List.flatMap_cons,
      Piece.raw, hown]
    simp only [List.append_assoc, List.cons_append, List.nil_append]

/-- Whether a line with an attribute is scenario syntax is decided by its two ends. -/
theorem isGarbage_of_attribute (hline : '\n' ∉ line) (h : a ∈ line.tokens attribute?) :
    isGarbage line = marksSyntax line.trim.head? line.trim.getLast? := by
  obtain ⟨lead, rest, hname, hquote, rfl⟩ := exists_of_attribute h
  rw [isGarbage_attribute hname hquote hline, trim_attribute hname hquote,
    marksSyntax_attribute hname hquote]

/-- The first attribute of a line counts if the line is no scenario syntax. On a line that is, only
a `text=` counts. -/
theorem lineUnits_first_iff {number : Int} (heval : Text.find? evaluation? line = none)
    (hfirst : (line.tokens attribute?).head? = some a)
    (hnames : ∀ b ∈ line.tokens attribute?, b.name = "name".toList)
    (htext : isGarbage a.text = false) :
    lineUnits number line = [a.unit number] ↔ isGarbage line = false := by
  constructor
  · intro hunits
    by_contra hsyntax
    rw [Bool.not_eq_false] at hsyntax
    -- No attribute counts on a line of syntax, so none stands there.
    have hnone : (line.tokens attribute?).find? (Attribute.counts line) = none := by
      rw [List.find?_eq_none]
      intro b hb
      rw [Attribute.counts, hsyntax, hnames b hb]
      decide
    have hmem : a.unit number ∈ lineUnits number line := by
      rw [hunits]
      exact List.mem_singleton_self _
    obtain ⟨lead, hstands⟩ := standing?_of_mem_lineUnits hmem (Or.inr rfl)
    rcases standing?_eq_some hstands with ⟨e, rest, hfind, -⟩ | ⟨-, b, rest, hcounts, -⟩
    · rw [heval] at hfind
      cases hfind
    · rw [Text.tokens, ← Piece.map_value_firstToken?, Option.map_eq_none_iff] at hnone
      have hboth := hnone.symm.trans hcounts
      cases hboth
  · intro hprose
    have hcounts : Attribute.counts line = fun _ => true := by
      funext b
      rw [Attribute.counts, hprose]
      rfl
    have hfind : (line.tokens attribute?).find? (Attribute.counts line) = some a := by
      rw [hcounts, ← hfirst]
      cases line.tokens attribute? <;> rfl
    have hunits : attributeUnits? number line = some [a.unit number] := by
      rw [attributeUnits?]
      refine (congrArg (Option.map _) hfind).trans ?_
      rw [Option.map_some, if_neg (by rw [htext]; exact Bool.false_ne_true)]
      rfl
    rw [lineUnits, evaluationUnits?, heval, hunits]
    rfl

/-- **When a name is text.** On a line without an evaluation whose attributes are all names, the
first of them is the unit of the line exactly if the line has prose outside its tags and its two
ends do not mark it as scenario syntax: it begins with no comment, label, directive or speaker's
mark, does not both begin and end with a tag, and does not stand between lenticular brackets. -/
theorem name_counts_iff {number : Int} (hline : '\n' ∉ line)
    (heval : Text.find? evaluation? line = none)
    (hfirst : (line.tokens attribute?).head? = some a)
    (hnames : ∀ b ∈ line.tokens attribute?, b.name = "name".toList)
    (htext : isGarbage a.text = false) :
    lineUnits number line = [a.unit number] ↔
      hasProse line = true ∧ marksSyntax line.trim.head? line.trim.getLast? = false := by
  have hmem : a ∈ line.tokens attribute? := List.mem_of_mem_head? hfirst
  have hends := isGarbage_of_attribute hline hmem
  rw [lineUnits_first_iff heval hfirst hnames htext, hends]
  refine ⟨fun hmarks => ⟨?_, hmarks⟩, And.right⟩
  by_contra hprose
  have hne : line.trim ≠ [] := by
    obtain ⟨lead, rest, hname, hquote, rfl⟩ := exists_of_attribute hmem
    rw [trim_attribute hname hquote]
    exact List.append_ne_nil_of_right_ne_nil _
      (List.append_ne_nil_of_right_ne_nil _ (List.cons_ne_nil _ _))
  obtain ⟨hopen, hclose⟩ := ends_of_no_prose (Bool.eq_false_iff.mpr hprose) hne
  rw [hopen, hclose] at hmarks
  exact absurd hmarks (by decide)

end Names

/-- A name beside prose is the unit of its line. -/
theorem name_before_prose_counts :
    lineUnits 0 "[nm name=\"アカネ\"]おはよう".toList =
      [("アカネ".toList,
        { line := 0, kind := .tagAttribute, quote := ['"'], attributeName := "name".toList })] :=
  (name_counts_iff (a := ⟨"name".toList, '"', "アカネ".toList⟩) (by decide +kernel)
    (by decide +kernel) (by decide +kernel) (by decide +kernel) (by decide +kernel)).mpr
    (by decide +kernel)

/-- **A tag behind the prose loses the name.** The line has one attribute, a name in the first of
its tags, and prose behind it. Without the second tag the name is the unit of the line, with it the
prose is. -/
theorem name_lost_before_last_tag :
    let line : Text := "[cn name=\"Ann\"]Hello[r]".toList
    let name : Attribute := ⟨"name".toList, '"', "Ann".toList⟩
    line.tokens Tag.tag? = ["cn name=\"Ann\"".toList, "r".toList] ∧ hasProse line = true ∧
      Text.find? evaluation? line = none ∧ line.tokens attribute? = [name] ∧
      isGarbage name.text = false ∧
      lineUnits 0 line = [("Hello".toList, { line := 0, kind := .bareLine })] ∧
      lineUnits 0 "[cn name=\"Ann\"]Hello".toList = [name.unit 0] := by
  decide +kernel

end Kag

end GameText
