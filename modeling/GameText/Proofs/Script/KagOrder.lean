import GameText.Proofs.Script.KagQuotations
import GameText.Proofs.Script.KagRegions
import Mathlib.Data.List.Basic
import Mathlib.Data.List.Induction

/-!
# The order of a KAG scenario's units

The units of a macro block wait until the block ends, yet they come where their lines stand: while
units wait no others are taken, and no macro block ends without giving them out. So what a line
adds depends on its number, its text and the blocks that the reader takes to be open there
(`lineShare`), and the units of a scenario are the shares of its lines, one after another
(`extract_eq_shares`).

The two statements about whole scenarios follow line by line: units stand in the order of their
lines and ordinals, and without the texts of macros those are left whose lines stand in no macro
block (`extract_orderly`). The blocks are those of the reader (`Regions.led`), not those that the
tags of the scenario mean.
-/

namespace GameText

namespace Kag

/-- The blocks that the reader takes to be open behind lines. -/
def Regions.led (lines : List Text) : Regions :=
  lines.foldl (fun r line => r.after (leading? line.trim).toList) .closed

/-- The lines of a scenario without their terminators. -/
def bodies (source : Text) : List Text := source.lines.map Line.body

/-- What a line adds to the units of its scenario. -/
def lineShare (macroTexts : Bool) (r : Regions) (number : Nat) (line : Text) : List LineUnit :=
  if (leading? line.trim).isNone && r.readable macroTexts && !isAside line.trim then
    lineUnits number line
  else []

/-! ## Line by line -/

/-- The reader takes the same blocks to be open, whether or not the texts of macros are asked for. -/
theorem Reading.nexts_led (macroTexts : Bool) (rows : List (Text × Nat)) {r : Reading}
    (hsettled : r.Settled) :
    (r.nexts macroTexts rows).regions =
      (rows.map Prod.fst).foldl (fun r line => r.after (leading? line.trim).toList) r.regions := by
  induction rows generalizing r with
  | nil => rfl
  | cons row rows ih =>
    obtain ⟨line, number⟩ := row
    have hnext := (Reading.next_regions hsettled macroTexts number line).1
    have hrest := ih (Reading.next_gathered hsettled macroTexts number line).1
    rw [hnext] at hrest
    exact hrest

/-- **The units of a scenario are the shares of its lines**, each with the blocks that the reader
takes to be open behind the lines before it. -/
theorem extract_eq_shares (macroTexts : Bool) (source : Text) :
    extract macroTexts source = (Script.numbered source).flatMap fun row =>
      lineShare macroTexts (.led ((bodies source).take row.2)) row.2 row.1 := by
  let start : Reading := ⟨[], [], false, false⟩
  have hstart : start.Settled := fun _ => rfl
  -- A run over the first lines gives the shares of the first lines.
  have hrun : ∀ lines : List Text, (start.nexts macroTexts lines.zipIdx).gathered =
      lines.zipIdx.flatMap fun row =>
        lineShare macroTexts (.led (lines.take row.2)) row.2 row.1 := by
    intro lines
    induction lines using List.reverseRec with
    | nil => rfl
    | append_singleton lines line ih =>
      have hsettled := Reading.nexts_settled macroTexts lines.zipIdx hstart
      have hled : (start.nexts macroTexts lines.zipIdx).regions = .led lines := by
        have h := Reading.nexts_led macroTexts lines.zipIdx hstart
        rwa [List.zipIdx_map_fst] at h
      have hlast : (start.nexts macroTexts (lines ++ [line]).zipIdx).gathered =
          (start.nexts macroTexts lines.zipIdx).gathered ++
            lineShare macroTexts (.led lines) lines.length line := by
        rw [List.zipIdx_append, List.zipIdx_singleton, Nat.zero_add, Reading.nexts,
          List.foldl_append, lineShare, ← hled]
        exact (Reading.next_regions hsettled macroTexts lines.length line).2
      have hearlier : (lines.zipIdx.flatMap fun row =>
          lineShare macroTexts (.led (lines.take row.2)) row.2 row.1) =
            lines.zipIdx.flatMap fun row =>
              lineShare macroTexts (.led ((lines ++ [line]).take row.2)) row.2 row.1 := by
        refine List.flatMap_congr ?_
        rintro ⟨line', number⟩ hrow
        have hlt := List.snd_lt_add_of_mem_zipIdx hrow
        rw [List.take_append_of_le_length (by omega)]
      rw [hlast, ih, hearlier, List.zipIdx_append, List.zipIdx_singleton, List.flatMap_append,
        List.flatMap_singleton, Nat.zero_add, List.take_left]
  exact hrun (bodies source)

/-! ## The order -/

/-- A unit that stands on an earlier line, or earlier on its line. -/
def Earlier (u v : LineUnit) : Prop :=
  u.2.line < v.2.line ∨ u.2.line = v.2.line ∧ u.2.ordinal < v.2.ordinal

theorem mem_lineShare {macroTexts : Bool} {r : Regions} {number : Nat} {line : Text} {u : LineUnit}
    (h : u ∈ lineShare macroTexts r number line) : u ∈ lineUnits number line := by
  rw [lineShare] at h
  split at h
  next => exact h
  next => cases h

theorem lineShare_earlier (macroTexts : Bool) (r : Regions) (number : Nat) (line : Text) :
    (lineShare macroTexts r number line).Pairwise Earlier := by
  rw [lineShare]
  split
  next =>
    refine (lineUnits_ordered number line).imp_of_mem ?_
    intro u v hu hv hlt
    have hline := (unitOf_of_mem_lineUnits hu).line_eq
    exact Or.inr ⟨hline.trans (unitOf_of_mem_lineUnits hv).line_eq.symm, hlt⟩
  next => exact List.Pairwise.nil

/-- Without the texts of macros a line keeps all of its units or none. -/
theorem lineShare_false (r : Regions) (number : Nat) (line : Text) :
    lineShare false r number line = if r.inMacro then [] else lineShare true r number line := by
  obtain ⟨inScript, inMacro⟩ := r
  cases inMacro <;> simp [lineShare, Regions.readable]

/-- **The units of a scenario come in the order of the document, and leaving macros out only leaves
units out.** With either setting each unit stands on a later line than the one before it, or later
on the same line, so no place comes twice. Without the texts of macros the units are those with them
whose line is in no macro block, in the same order and with the same addresses. -/
theorem extract_orderly (source : Text) :
    (∀ macroTexts, (extract macroTexts source).Pairwise Earlier ∧
      ((extract macroTexts source).map fun u => (u.2.line, u.2.ordinal)).Nodup) ∧
    extract false source = (extract true source).filter fun u =>
      !(Regions.led ((bodies source).take u.2.line.toNat)).inMacro := by
  refine ⟨fun macroTexts => ?_, ?_⟩
  · have horder : (extract macroTexts source).Pairwise Earlier := by
      rw [extract_eq_shares, List.pairwise_flatMap]
      refine ⟨fun row _ => lineShare_earlier _ _ _ _, ?_⟩
      have hnumbers : (Script.numbered source).Pairwise fun a b => a.2 < b.2 := by
        rw [← List.pairwise_map (f := Prod.snd) (R := (· < ·)), Script.numbered, List.zipIdx_map_snd]
        exact List.pairwise_lt_range'
      refine hnumbers.imp fun {a b} hlt u hu v hv => Or.inl ?_
      rw [(unitOf_of_mem_lineUnits (mem_lineShare hu)).line_eq,
        (unitOf_of_mem_lineUnits (mem_lineShare hv)).line_eq]
      exact Int.ofNat_lt.mpr hlt
    refine ⟨horder, List.pairwise_map.mpr (horder.imp ?_)⟩
    rintro u v hearlier heq
    obtain ⟨hline, hordinal⟩ := Prod.mk.inj heq
    rcases hearlier with hlt | ⟨-, hlt⟩
    · omega
    · omega
  · rw [extract_eq_shares, extract_eq_shares, List.filter_flatMap]
    refine List.flatMap_congr ?_
    rintro ⟨line, number⟩ -
    dsimp only
    rw [lineShare_false]
    have hown : ∀ u ∈ lineShare true (.led ((bodies source).take number)) number line,
        u.2.line.toNat = number := by
      intro u hu
      rw [(unitOf_of_mem_lineUnits (mem_lineShare hu)).line_eq, Int.toNat_natCast]
    cases hmacro : (Regions.led ((bodies source).take number)).inMacro with
    | true =>
      refine (List.filter_eq_nil_iff.mpr fun u hu => ?_).symm
      rw [hown u hu, hmacro]
      decide
    | false =>
      refine (List.filter_eq_self.mpr fun u hu => ?_).symm
      rw [hown u hu, hmacro]
      rfl

end Kag

end GameText
