import GameText.Proofs.Script.Kag
import GameText.Proofs.Script.Renpy
import GameText.Proofs.Script.Tyrano

/-!
# How large the addresses of scripts are

A script has one line more than it has line feeds at most, and a line has no more tokens than
characters. So no number in an address is larger than the script is long. The kind of a scenario line
is told by its name.
-/

namespace GameText

/-- A numbered line is within its script. -/
theorem Script.le_of_mem_numbered {source line : Text} {number : Nat}
    (h : (line, number) ∈ numbered source) :
    number ≤ source.length ∧ line.length ≤ source.length := by
  have hget := List.mk_mem_zipIdx_iff_getElem?.mp h
  rw [List.getElem?_map] at hget
  obtain ⟨l, hl, rfl⟩ := Option.map_eq_some_iff.mp hget
  obtain ⟨hlt, -⟩ := List.getElem?_eq_some_iff.mp hl
  have hlines := Text.length_lines_le source
  exact ⟨by omega, Text.length_body_le (List.mem_of_getElem? hl)⟩

/-- **No number in the address of a literal** is larger than the script is long. -/
theorem Renpy.extract_sized {source : Text} : ∀ u ∈ extract source,
    u.2.line.natAbs ≤ source.length ∧ u.2.ordinal.natAbs ≤ source.length := by
  intro u hu
  obtain ⟨⟨line, number⟩, hline, hunit⟩ := List.mem_flatMap.mp hu
  obtain ⟨hnumber, hlength⟩ := Script.le_of_mem_numbered hline
  obtain ⟨n, start, stop, literal, hspan, rfl⟩ := exists_of_mem_lineUnits hunit
  obtain ⟨hn, -⟩ := List.getElem?_eq_some_iff.mp hspan
  have htokens := Text.length_tokens_le Quoted.literal? line
  rw [Text.spans, Piece.length_spansFrom] at hn
  have hordinal : n ≤ source.length :=
    Nat.le_trans (Nat.le_of_lt hn) (Nat.le_trans htokens hlength)
  exact ⟨hnumber, hordinal⟩

/-- **No number in the address of prose** is larger than the scenario is long. -/
theorem Tyrano.extract_sized {source : Text} : ∀ u ∈ extract source,
    u.2.line.natAbs ≤ source.length := by
  intro u hu
  obtain ⟨number, l, hl, hline, -⟩ := exists_line_of_mem_extract hu
  obtain ⟨hlt, -⟩ := List.getElem?_eq_some_iff.mp hl
  have hlines := Text.length_lines_le source
  omega

/-- **No number in the address of a scenario line's text** is larger than the scenario is long, and
its kind is told by its name. -/
theorem Kag.extract_sized {macroTexts : Bool} {source : Text} : ∀ u ∈ extract macroTexts source,
    u.2.line.natAbs ≤ source.length ∧ u.2.ordinal.natAbs ≤ source.length ∧
      .ofName u.2.kind.name = u.2.kind := by
  intro u hu
  obtain ⟨number, l, hl, hline, hunit⟩ := exists_line_of_mem_extract hu
  obtain ⟨hlt, -⟩ := List.getElem?_eq_some_iff.mp hl
  have hlines := Text.length_lines_le source
  refine ⟨by rw [hline]; omega, ?_⟩
  cases hunit with
  | evaluation => exact ⟨Nat.zero_le _, rfl⟩
  | attributed => exact ⟨Nat.zero_le _, rfl⟩
  | @quotation inside n found =>
    obtain ⟨hn, -⟩ := List.getElem?_eq_some_iff.mp found
    have htokens := Text.length_tokens_le quotation? l.body
    have hbody := Text.length_body_le (List.mem_of_getElem? hl)
    have hordinal : n ≤ source.length :=
      Nat.le_trans (Nat.le_of_lt hn) (Nat.le_trans htokens hbody)
    exact ⟨hordinal, rfl⟩
  | center shape =>
    rcases shape with rfl | rfl | rfl
    · exact ⟨Nat.zero_le _, rfl⟩
    · exact ⟨Nat.zero_le _, rfl⟩
    · exact ⟨Nat.zero_le _, rfl⟩

end GameText
