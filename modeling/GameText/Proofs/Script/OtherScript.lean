import GameText.Proofs.Script.Kag
import GameText.Proofs.Script.RenpyRoundTrip
import GameText.Proofs.Script.Tyrano

/-!
# Reinsertion into another script

The addresses of an extraction, with any edited texts, can be taken to any other script of the
format. An address whose line is not there changes nothing, and no edit writes a line feed, so the
script keeps its number of lines, and every line that no address names stays as it is
(`LinesKept`). An edit that ends a line with a carriage return changes the terminator of its own line
at most.
-/

namespace GameText

/-- A text has the lines of another, but for those with certain numbers. -/
structure LinesKept (before after : Text) (numbers : List Int) : Prop where
  count : after.lines.length = before.lines.length
  others : ∀ n : Nat, (n : Int) ∉ numbers → after.lines[n]? = before.lines[n]?

namespace Script

variable {β : Type} (line : β → Int) (f : β → Text → Text)

/-- The lines of a script whose edits write no line feed, cut again. -/
theorem lines_ofLines_foldr {rows : List β}
    (hf : ∀ r ∈ rows, ∀ body, '\n' ∉ body → '\n' ∉ f r body) (source : Text) :
    (Text.ofLines (rows.foldr (fun r ls => editLineAt (f r) (line r) ls) source.lines)).lines =
      (rows.foldr (fun r ls => editLineAt (f r) (line r) ls) source.lines).map Line.settled := by
  refine Text.lines_ofLines (wellCut_foldr_editLineAt line f (Text.wellCut_lines source) hf) ?_
  intro l hl
  have hmem := List.mem_map_of_mem (f := Line.ending) hl
  rw [map_ending_foldr_editLineAt] at hmem
  obtain ⟨l', hl', heq⟩ := List.mem_map.mp hmem
  rw [← heq]
  exact Text.terminator_lines source l' hl'

/-- **Edits that write no line feed leave the other lines alone.** -/
theorem linesKept_foldr {rows : List β} (hf : ∀ r ∈ rows, ∀ body, '\n' ∉ body → '\n' ∉ f r body)
    (source : Text) :
    LinesKept source
      (Text.ofLines (rows.foldr (fun r ls => editLineAt (f r) (line r) ls) source.lines))
      (rows.map line) := by
  have hlines := lines_ofLines_foldr line f hf source
  refine ⟨?_, ?_⟩
  · have hlength := congrArg List.length (map_ending_foldr_editLineAt line f rows source.lines)
    rw [List.length_map, List.length_map] at hlength
    rw [hlines, List.length_map, hlength]
  · intro n hn
    have hnone : rows.filter (fun r => line r = (n : Int)) = [] := by
      refine List.filter_eq_nil_iff.mpr ?_
      intro r hr heq
      exact hn (List.mem_map.mpr ⟨r, hr, of_decide_eq_true heq⟩)
    have hsettled := congrArg (·[n]?) (Text.map_settled_lines source)
    refine Eq.trans ?_ hsettled
    rw [hlines, List.getElem?_map, List.getElem?_map, foldr_editLineAt_getElem?, hnone]
    cases source.lines[n]? <;> rfl

/-- The addresses of units, with edited texts, leave the lines that they do not name alone. -/
theorem linesKept_rows {α : Type} (line : α → Int) (f : α → Text → Text → Text)
    {units : List (Text × α)}
    (hf : ∀ u ∈ units, ∀ text body, '\n' ∉ body → '\n' ∉ f u.2 text body) (edits : Edits)
    {rows : List (α × Text)} (hrows : ∀ row ∈ rows, row ∈ Edits.rows (units.map (·.2)) edits)
    (source : Text) :
    LinesKept source
      (Text.ofLines (rows.foldr (fun row ls => editLineAt (f row.1 row.2) (line row.1) ls)
        source.lines))
      (units.map fun u => line u.2) := by
  have hunit : ∀ row ∈ rows, ∃ u ∈ units, u.2 = row.1 := fun row hrow =>
    List.mem_map.mp (Edits.fst_mem_of_mem_rows (hrows row hrow))
  have hkept : LinesKept source
      (Text.ofLines (rows.foldr (fun row ls => editLineAt (f row.1 row.2) (line row.1) ls)
        source.lines))
      (rows.map fun row => line row.1) := by
    refine linesKept_foldr (fun row : α × Text => line row.1) (fun row => f row.1 row.2) ?_ source
    intro row hrow body hbody
    obtain ⟨u, hu, heq⟩ := hunit row hrow
    rw [← heq]
    exact hf u hu row.2 body hbody
  refine ⟨hkept.count, fun n hn => hkept.others n fun hmem => hn ?_⟩
  obtain ⟨row, hrow, hline⟩ := List.mem_map.mp hmem
  obtain ⟨u, hu, heq⟩ := hunit row hrow
  exact List.mem_map.mpr ⟨u, hu, by rw [heq, ← hline]⟩

end Script

/-! ## Ren'Py -/

namespace Renpy

/-- What is written at the address of a unit holds no character of a terminator. -/
theorem not_mem_writeLiteral {c : Char} (hc : Text.EndsLine c) {line : Text} {number : Nat}
    {unit : Text × LiteralAddress} (h : unit ∈ lineUnits line number) (text : Text) {body : Text}
    (hbody : c ∉ body) : c ∉ writeLiteral unit.2 text body := by
  obtain ⟨q, -, -, hq, hquote, -, -, -⟩ := exists_split_of_mem_lineUnits h
  rw [writeLiteral, Text.mapNthToken]
  split
  next => exact hbody
  next =>
    intro hmem
    rcases Piece.mem_mapNth hmem with hraw | ⟨value, own, -, hnew⟩
    · rw [flatMap_raw_pieces Quoted.literal?_cuts] at hraw
      exact hbody hraw
    · exact not_mem_written hc hq hquote text hnew

/-- **The addresses of one script taken to another** leave the other lines alone. -/
theorem reinsert_linesKept (first second : Text) (edits : Edits) :
    LinesKept second (reinsert second ((extract first).map (·.2)) edits)
      ((extract first).map (·.2.line)) := by
  have hf : ∀ u ∈ extract first, ∀ text body, '\n' ∉ body → '\n' ∉ writeLiteral u.2 text body := by
    intro u hu text body hbody
    obtain ⟨number, l, -, -, hunit⟩ := exists_line_of_mem_extract hu
    exact not_mem_writeLiteral (.inl rfl) hunit text hbody
  have hkept := Script.linesKept_rows LiteralAddress.line writeLiteral hf edits
    (fun _ hrow => List.mem_reverse.mp hrow) second
  rw [List.foldr_reverse, Edits.rows, List.foldl_map] at hkept
  exact hkept

end Renpy

/-! ## Tyrano -/

namespace Tyrano

/-- The runs in the address of a unit hold what their line holds. -/
theorem not_mem_rebuild {c : Char} {first : Text} {u : Text × ProseAddress} (h : u ∈ extract first)
    (hbreak : c ∉ breakTag) (hclean : ∀ l ∈ first.lines, c ∉ l.body) {text : Text}
    (hflat : Text.Flattens c text) : c ∉ rebuild u.2 text := by
  obtain ⟨number, l, hl, -, hparts⟩ := exists_line_of_mem_extract h
  have hbody := hclean l (List.mem_of_getElem? hl)
  rw [hparts, List.mem_append, List.mem_append, not_or, not_or] at hbody
  exact List.not_mem_append (List.not_mem_append hbody.1.1 (hflat breakTag hbreak)) hbody.2

/-- **The addresses of one scenario taken to another** leave the other lines alone. -/
theorem reinsert_linesKept (first second : Text) (edits : Edits) :
    LinesKept second (reinsert second ((extract first).map (·.2)) edits)
      ((extract first).map (·.2.line)) := by
  have hkept := Script.linesKept_rows ProseAddress.line (fun a text _ => rebuild a text)
    (fun u (hu : u ∈ extract first) text _ _ => not_mem_rebuild hu (by decide)
      (Text.wellCut_lines first).newline_not_mem (Text.flattens_newline text)) edits
    (fun _ hrow => List.mem_reverse.mp hrow) second
  rw [List.foldr_reverse, Edits.rows, List.foldl_map] at hkept
  exact hkept

end Tyrano

/-! ## KAG -/

namespace Kag

/-- **The addresses of one scenario taken to another** leave the other lines alone. -/
theorem reinsert_linesKept (macroTexts : Bool) (first second : Text) (edits : Edits) :
    LinesKept second (reinsert second ((extract macroTexts first).map (·.2)) edits)
      ((extract macroTexts first).map (·.2.line)) := by
  have hf : ∀ u ∈ extract macroTexts first, ∀ text body, '\n' ∉ body →
      '\n' ∉ rebuild u.2 text body := by
    intro u hu text body hbody
    obtain ⟨number, l, -, -, hunit⟩ := exists_line_of_mem_extract hu
    exact not_mem_rebuild (.inl rfl) hunit (Text.flattens_newline text) hbody
  have hkept := Script.linesKept_rows TagLineAddress.line rebuild hf edits (fun _ hrow => hrow) second
  rw [Edits.rows, List.foldr_map] at hkept
  exact hkept

end Kag

end GameText
