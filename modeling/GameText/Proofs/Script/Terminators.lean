import GameText.Proofs.OtherSource

/-!
# Terminators of a script that was written back

Edited texts may have line breaks of their own. Each parser takes them away on its own path: as
escape sequences between quotes, as a tag in prose, as a blank in an attribute, or by leaving the
line as it is. Where neither the source nor an edit has a carriage return by itself, a script that
was written back therefore has the lines of its source with their terminators
(`Format.reinsert_terminators`).

Not established: anything about carriage returns by themselves. One at the end of an edited body
joins the line feed behind it, so the terminator of that line changes (`Line.settled`); the number
of lines and the other lines are kept even then (`Format.reinsert_elsewhere`).
-/

namespace GameText

/-- Every carriage return of the edited texts stands before a line feed. -/
def Edits.ReturnsPaired (edits : Edits) : Prop :=
  ∀ edit ∈ edits, ∀ text ∈ edit, text.ReturnsPaired

instance (edits : Edits) : Decidable edits.ReturnsPaired :=
  inferInstanceAs (Decidable (∀ edit ∈ edits, ∀ text ∈ edit, text.ReturnsPaired))

theorem Edits.ReturnsPaired.of_mem_rows {α : Type} {edits : Edits} (h : edits.ReturnsPaired)
    {mapping : List α} {row : α × Text} (hrow : row ∈ rows mapping edits) :
    row.2.ReturnsPaired := by
  rcases snd_of_mem_rows hrow with hnil | hedit
  · rw [hnil]
    trivial
  · exact h (some row.2) hedit row.2 rfl

/-- A text has the lines of another with their terminators; bodies differ at most on the lines with
certain numbers. -/
structure TerminatorsKept (before after : Text) (numbers : List Int) : Prop
    extends LinesKept before after numbers where
  endings : after.lines.map Line.ending = before.lines.map Line.ending

namespace Script

variable {β : Type} (line : β → Int) (f : β → Text → Text)

/-- Edits that write no character of a terminator keep the terminators. -/
theorem map_ending_lines_foldr {rows : List β}
    (hf : ∀ c, Text.EndsLine c → ∀ r ∈ rows, ∀ body, c ∉ body → c ∉ f r body) {source : Text}
    (hsource : source.ReturnsPaired) :
    (Text.ofLines (rows.foldr (fun r ls => editLineAt (f r) (line r) ls) source.lines)).lines.map
      Line.ending = source.lines.map Line.ending := by
  have hbodies := not_mem_foldr_editLineAt line f hsource.return_not_mem (hf '\r' (.inr rfl))
  have hsettled : (rows.foldr (fun r ls => editLineAt (f r) (line r) ls) source.lines).map
      Line.settled = rows.foldr (fun r ls => editLineAt (f r) (line r) ls) source.lines :=
    (List.map_congr_left fun l hl => Text.settled_of_not_mem (hbodies l hl)).trans (List.map_id _)
  rw [lines_ofLines_foldr line f (hf '\n' (.inl rfl)), hsettled, map_ending_foldr_editLineAt]

/-- **The addresses of units with edited texts** keep the terminators, if a parser writes no
character of a terminator that a text loses with its line breaks. -/
theorem terminatorsKept_rows {α : Type} (line : α → Int) (f : α → Text → Text → Text)
    {units : List (Text × α)}
    (hf : ∀ c, Text.EndsLine c → ∀ u ∈ units, ∀ text, Text.Flattens c text →
      ∀ body, c ∉ body → c ∉ f u.2 text body)
    {edits : Edits} (hedits : edits.ReturnsPaired) {rows : List (α × Text)}
    (hrows : ∀ row ∈ rows, row ∈ Edits.rows (units.map (·.2)) edits) {source : Text}
    (hsource : source.ReturnsPaired) :
    TerminatorsKept source
      (Text.ofLines (rows.foldr (fun row ls => editLineAt (f row.1 row.2) (line row.1) ls)
        source.lines))
      (units.map fun u => line u.2) := by
  have hkept := linesKept_rows line f
    (fun u hu text => hf '\n' (.inl rfl) u hu text (Text.flattens_newline text)) edits hrows source
  refine ⟨hkept, map_ending_lines_foldr (fun row : α × Text => line row.1)
    (fun row => f row.1 row.2) ?_ hsource⟩
  intro c hc row hrow body hbody
  obtain ⟨u, hu, hunit⟩ := List.mem_map.mp (Edits.fst_mem_of_mem_rows (hrows row hrow))
  have hflat := (hedits.of_mem_rows (hrows row hrow)).flattens hc
  rw [← hunit]
  exact hf c hc u hu row.2 hflat body hbody

end Script

/-! ## The three parsers -/

section Parsers

variable {source : Text} (hsource : source.ReturnsPaired) {edits : Edits}
  (hedits : edits.ReturnsPaired)

include hsource hedits

theorem Renpy.reinsert_terminatorsKept :
    TerminatorsKept source (reinsert source ((extract source).map (·.2)) edits)
      ((extract source).map (·.2.line)) := by
  have hf : ∀ c, Text.EndsLine c → ∀ u ∈ extract source, ∀ text, Text.Flattens c text →
      ∀ body, c ∉ body → c ∉ writeLiteral u.2 text body := by
    intro c hc u hu text _ body hbody
    obtain ⟨number, l, -, -, hunit⟩ := exists_line_of_mem_extract hu
    exact not_mem_writeLiteral hc hunit text hbody
  have hkept := Script.terminatorsKept_rows LiteralAddress.line writeLiteral hf hedits
    (fun _ hrow => List.mem_reverse.mp hrow) hsource
  rw [List.foldr_reverse, Edits.rows, List.foldl_map] at hkept
  exact hkept

theorem Tyrano.reinsert_terminatorsKept :
    TerminatorsKept source (reinsert source ((extract source).map (·.2)) edits)
      ((extract source).map (·.2.line)) := by
  have hf : ∀ c, Text.EndsLine c → ∀ u ∈ extract source, ∀ text, Text.Flattens c text →
      ∀ body : Text, c ∉ body → c ∉ rebuild u.2 text := by
    intro c hc u hu text hflat _ _
    rcases hc with rfl | rfl
    · exact not_mem_rebuild hu (by decide) (Text.wellCut_lines source).newline_not_mem hflat
    · exact not_mem_rebuild hu (by decide) hsource.return_not_mem hflat
  have hkept := Script.terminatorsKept_rows ProseAddress.line (fun a text _ => rebuild a text) hf
    hedits (fun _ hrow => List.mem_reverse.mp hrow) hsource
  rw [List.foldr_reverse, Edits.rows, List.foldl_map] at hkept
  exact hkept

theorem Kag.reinsert_terminatorsKept (macroTexts : Bool) :
    TerminatorsKept source (reinsert source ((extract macroTexts source).map (·.2)) edits)
      ((extract macroTexts source).map (·.2.line)) := by
  have hf : ∀ c, Text.EndsLine c → ∀ u ∈ extract macroTexts source, ∀ text, Text.Flattens c text →
      ∀ body, c ∉ body → c ∉ rebuild u.2 text body := by
    intro c hc u hu text hflat body hbody
    obtain ⟨number, l, -, -, hunit⟩ := exists_line_of_mem_extract hu
    exact not_mem_rebuild hc hunit hflat hbody
  have hkept := Script.terminatorsKept_rows TagLineAddress.line rebuild hf hedits
    (fun _ hrow => hrow) hsource
  rw [Edits.rows, List.foldr_map] at hkept
  exact hkept

end Parsers

namespace Format

/-- **Edits cannot change the lines of a script.** In whichever of the three script formats, a source
is extracted and written back with any edited texts. If every carriage return of the source and of
the edits stands before a line feed, then what is written has as many lines as the source, the same
terminator on every line, and every line that no address names. -/
theorem reinsert_terminators {format : Format} (script : format ∈ [renpy, tyrano, kag])
    (options : ExtractionOptions) {source : Text} (hsource : source.ReturnsPaired) {edits : Edits}
    (hedits : edits.ReturnsPaired) :
    ∃ units out, format.extractUnits options source = .ok units ∧
      format.reinsertTexts source (units.map (·.2)) edits = .ok out ∧
      TerminatorsKept source out ((units.map (·.2)).filterMap Address.line?) := by
  simp only [List.mem_cons, List.not_mem_nil, or_false] at script
  rcases script with rfl | rfl | rfl
  · refine ⟨_, Renpy.reinsert source ((Renpy.extract source).map (·.2)) edits, rfl, ?_, ?_⟩
    · rw [map_snd_units, reinsertTexts, mapM_own .literal Address.literal? fun _ => rfl]
    · rw [map_snd_units, filterMap_line fun _ => rfl]
      exact Renpy.reinsert_terminatorsKept hsource hedits
  · refine ⟨_, Tyrano.reinsert source ((Tyrano.extract source).map (·.2)) edits, rfl, ?_, ?_⟩
    · rw [map_snd_units, reinsertTexts, mapM_own .prose Address.prose? fun _ => rfl]
    · rw [map_snd_units, filterMap_line fun _ => rfl]
      exact Tyrano.reinsert_terminatorsKept hsource hedits
  · refine ⟨_, Kag.reinsert source ((Kag.extract options.macroTexts source).map (·.2)) edits, rfl,
      ?_, ?_⟩
    · rw [map_snd_units, reinsertTexts, mapM_own .tagLine Address.tagLine? fun _ => rfl]
    · rw [map_snd_units, filterMap_line fun _ => rfl]
      exact Kag.reinsert_terminatorsKept hsource hedits options.macroTexts

/-- An attribute and two quotations, written with line breaks of both kinds. -/
theorem line_breaks_of_edits_kept_inside :
    let source : Text := "[chara text=\"Akira\"]\r\n「Hello」 she said. 「Yes」\n*end".toList
    let edits : Edits := [some "Ao\nAkira".toList, some "Hi,\r\nyou".toList, some "\n".toList]
    let expected : Text := "[chara text=\"Ao Akira\"]\r\n「Hi,[r]you」 she said. 「[r]」\n*end".toList
    kag ∈ [renpy, tyrano, kag] ∧ source.ReturnsPaired ∧ edits.ReturnsPaired ∧
      ∃ units, kag.extractUnits {} source = .ok units ∧
        kag.reinsertTexts source (units.map (·.2)) edits = .ok expected ∧
        TerminatorsKept source expected ((units.map (·.2)).filterMap Address.line?) := by
  intro source edits expected
  have hkag : kag ∈ [renpy, tyrano, kag] := by simp
  have hsource : source.ReturnsPaired := by decide +kernel
  have hedits : edits.ReturnsPaired := by decide +kernel
  have hwritten : ((kag.extractUnits {} source).toOption.bind fun units =>
      (kag.reinsertTexts source (units.map (·.2)) edits).toOption) = some expected := by
    decide +kernel
  obtain ⟨units, out, hunits, hout, hkept⟩ := reinsert_terminators hkag {} hsource hedits
  rw [hunits] at hwritten
  dsimp only [Except.toOption, Option.bind_some] at hwritten
  rw [hout] at hwritten
  obtain rfl : out = expected := Option.some.inj hwritten
  exact ⟨hkag, hsource, hedits, units, hunits, hout, hkept⟩

end Format

end GameText
