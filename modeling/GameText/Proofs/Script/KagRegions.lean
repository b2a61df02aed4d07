import GameText.Proofs.Script.Kag

/-!
# Script and macro blocks of KAG scenarios

A block is open from the tag that begins it to the next tag that ends it, wherever on a line these
stand (`lineMarks`). The reader looks only at the beginning of a line, and only at the beginning of
a name there (`leading?`). Where both see the same in the lines before (`Regions.heeded`), the units
of a line are taken exactly if no block is open that hides them (`extract_of_heeded`). They do not
see the same where a block ends on the line on which it began: the reader keeps it open, and the
rest of the scenario is lost (`block_closed_on_its_line_stays_open`).

**What it does not establish.** Which units a line holds: that is `lineUnits`, whatever it is.
-/

namespace GameText

namespace Kag

/-! ## The marks of a scenario -/

/-- The blocks of a scenario. -/
inductive Block where
  | script
  | macroBody
deriving DecidableEq, Repr

/-- A mark that begins or ends a block. -/
inductive Mark where
  | opens (b : Block)
  | ends (b : Block)
deriving DecidableEq, Repr

/-- The mark with a name, if the name is that of a mark. -/
def Mark.ofName? (name : Text) : Option Mark :=
  if name = "iscript".toList then some (.opens .script)
  else if name = "endscript".toList then some (.ends .script)
  else if name = "macro".toList then some (.opens .macroBody)
  else if name = "endmacro".toList then some (.ends .macroBody)
  else none

/-- The name that a tag or a directive begins with. -/
def nameOf (inside : Text) : Text := inside.trimStart.takeWhile fun c => !isBlank c

/-- The marks of a line, in order. A directive takes up its whole line. A comment or a label has no
marks, but within a script only the script itself tells what a comment is. -/
def lineMarks (inScript : Bool) (line : Text) : List Mark :=
  match line.trim with
  | '@' :: directive => (Mark.ofName? (nameOf directive)).toList
  | t =>
    if !inScript && (t.head? == some ';' || t.head? == some '*') then []
    else (t.tokens Tag.tag?).filterMap fun inside => Mark.ofName? (nameOf inside)

/-- The mark that the reader takes a trimmed line for. -/
def leading? (t : Text) : Option Mark :=
  if beginsBlock "iscript" t then some (.opens .script)
  else if beginsBlock "endscript" t then some (.ends .script)
  else if beginsBlock "macro" t then some (.opens .macroBody)
  else if beginsBlock "endmacro" t then some (.ends .macroBody)
  else none

/-! ## The blocks that are open -/

/-- Which blocks are open. -/
structure Regions where
  inScript : Bool
  inMacro : Bool
deriving DecidableEq, Repr

namespace Regions

/-- No block is open. -/
def closed : Regions := ⟨false, false⟩

/-- Goes past a mark. A script hides the marks of macros. -/
def pass (r : Regions) : Mark → Regions
  | .opens .script => { r with inScript := true }
  | .ends .script => { r with inScript := false }
  | .opens .macroBody => if r.inScript then r else { r with inMacro := true }
  | .ends .macroBody => if r.inScript then r else { r with inMacro := false }

/-- Goes past marks, in order. -/
def after (r : Regions) (marks : List Mark) : Regions := marks.foldl pass r

/-- Goes past all marks of lines. -/
def afterLines (r : Regions) (lines : List Text) : Regions :=
  lines.foldl (fun r line => r.after (lineMarks r.inScript line)) r

/-- On each of the lines, the mark that the reader sees leads to where the marks of the line do. -/
def heeded (r : Regions) : List Text → Bool
  | [] => true
  | line :: lines =>
    let next := r.after (lineMarks r.inScript line)
    next == r.after (leading? line.trim).toList && next.heeded lines

/-- The texts of lines here are to be taken. -/
def readable (macroTexts : Bool) (r : Regions) : Bool := !r.inScript && (macroTexts || !r.inMacro)

end Regions

/-- The line is blank, a comment or a label. -/
def isAside (t : Text) : Bool := t.isEmpty || t.head? == some ';' || t.head? == some '*'

/-! ## One line -/

/-- The blocks that the reader takes to be open. -/
def Reading.regions (r : Reading) : Regions := ⟨r.inScript, r.inMacro⟩

/-- **One line** opens and closes what the mark that it leads with does, and its units are taken
exactly if it leads with no mark, is no comment, label or blank, and no block hides it. -/
theorem Reading.next_regions {r : Reading} (hsettled : r.Settled) (macroTexts : Bool)
    (number : Nat) (line : Text) :
    (r.next macroTexts number line).regions = r.regions.after (leading? line.trim).toList ∧
      (r.next macroTexts number line).gathered = r.gathered ++
        if (leading? line.trim).isNone && r.regions.readable macroTexts && !isAside line.trim then
          lineUnits number line
        else [] := by
  have haside : (line.trim.isEmpty || line.trim.head? == some ';' || line.trim.head? == some '*') =
    isAside line.trim := rfl
  obtain ⟨units, pending, inScript, inMacro⟩ := r
  have hempty : inMacro = false → pending = [] := hsettled
  rw [Reading.next, leading?, haside]
  generalize isAside line.trim = aside
  generalize lineUnits number line = own
  split
  next => simp [Reading.regions, Reading.gathered, Regions.after, Regions.pass]
  split
  next => simp [Reading.regions, Reading.gathered, Regions.after, Regions.pass]
  cases inScript with
  | true =>
    rw [if_pos rfl]
    split
    next => simp [Reading.regions, Reading.gathered, Regions.after, Regions.pass]
    split
    next => simp [Reading.regions, Reading.gathered, Regions.after, Regions.pass]
    next => simp [Reading.regions, Reading.gathered, Regions.after, Regions.readable]
  | false =>
    rw [if_neg Bool.false_ne_true]
    split
    next => simp [Reading.regions, Reading.gathered, Regions.after, Regions.pass]
    split
    next => simp [Reading.regions, Reading.gathered, Regions.after, Regions.pass]
    next =>
      cases aside <;> cases inMacro <;> cases macroTexts <;>
        simp [Reading.regions, Reading.gathered, Regions.after, Regions.readable, hempty]

/-! ## The lines of a scenario -/

/-- Goes on with numbered lines. -/
def Reading.nexts (macroTexts : Bool) (r : Reading) (rows : List (Text × Nat)) : Reading :=
  rows.foldl (fun (r : Reading) (line, number) => r.next macroTexts number line) r

theorem Reading.nexts_settled (macroTexts : Bool) (rows : List (Text × Nat)) {r : Reading}
    (hsettled : r.Settled) : (r.nexts macroTexts rows).Settled := by
  induction rows generalizing r with
  | nil => exact hsettled
  | cons row rows ih => exact ih (Reading.next_gathered hsettled macroTexts row.2 row.1).1

/-- Where the reader sees what the marks of the lines say, it takes the same blocks to be open. -/
theorem Reading.nexts_regions (macroTexts : Bool) (rows : List (Text × Nat)) {r : Reading}
    (hsettled : r.Settled) (hheeded : r.regions.heeded (rows.map Prod.fst) = true) :
    (r.nexts macroTexts rows).regions = r.regions.afterLines (rows.map Prod.fst) := by
  induction rows generalizing r with
  | nil => rfl
  | cons row rows ih =>
    obtain ⟨line, number⟩ := row
    have hsame : r.regions.after (lineMarks r.regions.inScript line) =
        r.regions.after (leading? line.trim).toList := by
      simp only [List.map_cons, Regions.heeded, Bool.and_eq_true, beq_iff_eq] at hheeded
      exact hheeded.1
    have hnext : (r.next macroTexts number line).regions =
        r.regions.after (lineMarks r.regions.inScript line) := by
      rw [hsame]
      exact (Reading.next_regions hsettled macroTexts number line).1
    have hrest : (r.next macroTexts number line).regions.heeded (rows.map Prod.fst) = true := by
      simp only [List.map_cons, Regions.heeded, Bool.and_eq_true] at hheeded
      rw [hnext]
      exact hheeded.2
    have hlast := ih (Reading.next_gathered hsettled macroTexts number line).1 hrest
    rw [hnext] at hlast
    exact hlast

/-- **Blocks end where their marks are.** Let the reader see, in the lines before a line, what their
marks say, and let the line not lead with a mark. Then its units are taken if none of the blocks
that are open there hides it and it is no comment, label or blank, and else none are. -/
theorem extract_of_heeded (macroTexts : Bool) {source line : Text} {before after : List Text}
    (hlines : source.lines.map Line.body = before ++ line :: after)
    (hheeded : Regions.closed.heeded before = true) (hplain : leading? line.trim = none) :
    (extract macroTexts source).filter (fun u => u.2.line = (before.length : Int)) =
      if (Regions.closed.afterLines before).readable macroTexts && !isAside line.trim then
        lineUnits before.length line
      else [] := by
  have hrows : Script.numbered source =
      before.zipIdx ++ (line, before.length) :: after.zipIdx (before.length + 1) := by
    rw [Script.numbered, hlines, List.zipIdx_append, List.zipIdx_cons, Nat.zero_add]
  let start : Reading := ⟨[], [], false, false⟩
  have hstart : start.Settled := fun _ => rfl
  let there := start.nexts macroTexts before.zipIdx
  have hthere : there.Settled := Reading.nexts_settled macroTexts before.zipIdx hstart
  -- The units of the lines before, of the line itself, and of the lines after it.
  obtain ⟨earlier, hearlier, hbefore⟩ := foldl_next_gathered macroTexts before.zipIdx hstart
  have hregions : there.regions = Regions.closed.afterLines before := by
    have h := Reading.nexts_regions macroTexts before.zipIdx hstart
      (by rw [List.zipIdx_map_fst]; exact hheeded)
    rw [List.zipIdx_map_fst] at h
    exact h
  obtain ⟨-, hown⟩ := Reading.next_regions hthere macroTexts before.length line
  obtain ⟨hsettled, -⟩ := Reading.next_gathered hthere macroTexts before.length line
  obtain ⟨later, hlater, hafter⟩ :=
    foldl_next_gathered macroTexts (after.zipIdx (before.length + 1)) hsettled
  have hall : extract macroTexts source = there.gathered ++
      (if (leading? line.trim).isNone && there.regions.readable macroTexts && !isAside line.trim
        then lineUnits before.length line else []) ++
      later.flatMap fun (line, number) => lineUnits number line := by
    rw [← hown, ← hafter, extract, hrows, List.foldl_append, List.foldl_cons]
    rfl
  have hpast : there.gathered = earlier.flatMap fun (line, number) => lineUnits number line :=
    hbefore
  have hearlierRows : ∀ row ∈ earlier, row.2 ≠ before.length := by
    intro row hrow
    have hlt := List.snd_lt_add_of_mem_zipIdx (hearlier.subset hrow)
    omega
  have hlaterRows : ∀ row ∈ later, row.2 ≠ before.length := by
    intro row hrow
    have hle := List.le_snd_of_mem_zipIdx (hlater.subset hrow)
    omega
  rw [hall, List.filter_append, List.filter_append, hpast, filter_line_eq_nil hearlierRows,
    filter_line_eq_nil hlaterRows, hregions, hplain, List.nil_append, List.append_nil]
  simp only [Option.isNone_none, Bool.true_and]
  split
  · exact List.filter_eq_self.mpr fun u hu =>
      decide_eq_true (unitOf_of_mem_lineUnits hu).line_eq
  · rfl

/-- A macro block and a script behind it: with either setting, the text after both is taken. -/
theorem extract_after_blocks :
    let before : List Text := ["[macro name=greet]", "「ようこそ」", "[endmacro]", "@iscript",
      "f.x = '名前';", "@endscript"].map String.toList
    let line : Text := "「本文」".toList
    let source : Text :=
      ("[macro name=greet]\n「ようこそ」\n[endmacro]\n" ++
        "@iscript\nf.x = '名前';\n@endscript\n「本文」\n").toList
    Regions.closed.heeded before = true ∧ leading? line.trim = none ∧
      ∀ macroTexts, (extract macroTexts source).filter (fun u => u.2.line = (6 : Int)) =
        [("本文".toList, { line := 6, kind := .quotation, quote := ['「'] })] := by
  intro before line source
  have hlines : source.lines.map Line.body = before ++ line :: [[]] := by decide +kernel
  have hheeded : Regions.closed.heeded before = true := by decide +kernel
  have hplain : leading? line.trim = none := by decide +kernel
  refine ⟨hheeded, hplain, fun macroTexts => ?_⟩
  have hunits := extract_of_heeded macroTexts hlines hheeded hplain
  have hreadable : (Regions.closed.afterLines before).readable macroTexts = true := by
    cases macroTexts <;> decide +kernel
  have haside : isAside line.trim = false := by decide +kernel
  have hline : lineUnits before.length line =
      [("本文".toList, { line := 6, kind := .quotation, quote := ['「'] })] := by
    decide +kernel
  rw [hreadable, haside, hline] at hunits
  exact hunits

/-- A script that ends on the line on which it began: no block is open behind it, but the reader
takes it to be open, and the text behind it is lost. -/
theorem block_closed_on_its_line_stays_open :
    let before : List Text := ["[iscript]f.x=1;[endscript]".toList]
    let line : Text := "「本文」".toList
    let source : Text := "[iscript]f.x=1;[endscript]\n「本文」".toList
    source.lines.map Line.body = before ++ [line] ∧
      Regions.closed.afterLines before = Regions.closed ∧
      leading? line.trim = none ∧ isAside line.trim = false ∧
      lineUnits 1 line = [("本文".toList, { line := 1, kind := .quotation, quote := ['「'] })] ∧
      ∀ macroTexts, extract macroTexts source = [] := by
  intro before line source
  refine ⟨by decide +kernel, by decide +kernel, by decide +kernel, by decide +kernel,
    by decide +kernel, fun macroTexts => ?_⟩
  cases macroTexts <;> decide +kernel

end Kag

end GameText
