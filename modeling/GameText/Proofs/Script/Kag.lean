import GameText.Proofs.Edits
import GameText.Proofs.Script.KagRebuild
import GameText.Proofs.Script.LineEdit

/-!
# A KAG scenario written back with its own texts

Extraction gathers the units of a macro block apart from the others, but they join them before any
later line is read, so the units are those of some lines of the scenario, in order (`extract_eq`).
Writing a scenario's own texts back therefore edits each of those lines once, and the scenario is
left as it is exactly if every unit survives on its line.
-/

namespace GameText

namespace Kag

/-! ## The lines that are read -/

/-- Units wait only while a macro block is open. -/
def Reading.Settled (r : Reading) : Prop := r.inMacro = false → r.pending = []

/-- All units so far, in the order in which they will be given. -/
def Reading.gathered (r : Reading) : List LineUnit := r.units ++ r.pending

/-- One line adds its units behind those so far, or none. -/
theorem Reading.next_gathered {r : Reading} (hsettled : r.Settled) (macroTexts : Bool)
    (number : Nat) (line : Text) :
    (r.next macroTexts number line).Settled ∧
      ((r.next macroTexts number line).gathered = r.gathered ∨
        (r.next macroTexts number line).gathered = r.gathered ++ lineUnits number line) := by
  rw [Reading.next]
  split
  next => exact ⟨hsettled, Or.inl rfl⟩
  split
  next => exact ⟨hsettled, Or.inl rfl⟩
  split
  next => exact ⟨hsettled, Or.inl rfl⟩
  split
  next => exact ⟨fun h => (nomatch h), Or.inl rfl⟩
  split
  next => exact ⟨fun _ => rfl, Or.inl (List.append_nil _)⟩
  split
  next => exact ⟨hsettled, Or.inl rfl⟩
  split
  next => exact ⟨hsettled, Or.inl rfl⟩
  split
  next hopen =>
    refine ⟨fun h => absurd (hopen.symm.trans h) (by decide), Or.inr ?_⟩
    exact (List.append_assoc _ _ _).symm
  next hopen =>
    have hnone : r.pending = [] := hsettled (Bool.eq_false_iff.mpr hopen)
    refine ⟨fun _ => hnone, Or.inr ?_⟩
    rw [Reading.gathered, Reading.gathered, hnone, List.append_nil, List.append_nil]

theorem foldl_next_gathered (macroTexts : Bool) (rows : List (Text × Nat)) {r : Reading}
    (hsettled : r.Settled) :
    ∃ selected : List (Text × Nat), selected.Sublist rows ∧
      (rows.foldl (fun (r : Reading) (line, number) => r.next macroTexts number line) r).gathered =
        r.gathered ++ selected.flatMap fun (line, number) => lineUnits number line := by
  induction rows generalizing r with
  | nil => exact ⟨[], List.Sublist.refl _, (List.append_nil _).symm⟩
  | cons row rows ih =>
    obtain ⟨line, number⟩ := row
    obtain ⟨hnext, hgathered⟩ := Reading.next_gathered hsettled macroTexts number line
    obtain ⟨selected, hsub, hfold⟩ := ih hnext
    rcases hgathered with hsame | hadded
    · exact ⟨selected, hsub.cons _, by rw [List.foldl_cons, hfold, hsame]⟩
    · refine ⟨(line, number) :: selected, hsub.cons_cons _, ?_⟩
      rw [List.foldl_cons, hfold, hadded, List.flatMap_cons, List.append_assoc]

/-- **The units of a scenario are those of some of its lines, in order.** -/
theorem extract_eq (macroTexts : Bool) (source : Text) :
    ∃ selected : List (Text × Nat), selected.Sublist (Script.numbered source) ∧
      extract macroTexts source =
        selected.flatMap fun (line, number) => lineUnits number line := by
  obtain ⟨selected, hsub, hfold⟩ := foldl_next_gathered macroTexts (Script.numbered source)
    (r := ⟨[], [], false, false⟩) fun _ => rfl
  exact ⟨selected, hsub, hfold⟩

theorem UnitOf.line_eq {number : Int} {line : Text} {u : LineUnit} (h : UnitOf number line u) :
    u.2.line = number := by
  cases h <;> rfl

/-- A unit of a scenario is one of a line of the scenario. -/
theorem exists_line_of_mem_extract {macroTexts : Bool} {source : Text} {u : LineUnit}
    (h : u ∈ extract macroTexts source) :
    ∃ (number : Nat) (l : Line), source.lines[number]? = some l ∧ u.2.line = (number : Int) ∧
      UnitOf number l.body u := by
  obtain ⟨selected, hsub, hunits⟩ := extract_eq macroTexts source
  rw [hunits] at h
  obtain ⟨⟨line, number⟩, hline, hu⟩ := List.mem_flatMap.mp h
  have hget := List.mk_mem_zipIdx_iff_getElem?.mp (hsub.subset hline)
  rw [List.getElem?_map] at hget
  obtain ⟨l, hl, rfl⟩ := Option.map_eq_some_iff.mp hget
  have hunit := unitOf_of_mem_lineUnits hu
  exact ⟨number, l, hl, hunit.line_eq, hunit⟩

/-- The units of lines with other numbers are not at a number. -/
theorem filter_line_eq_nil {rows : List (Text × Nat)} {n : Nat} (hother : ∀ row ∈ rows, row.2 ≠ n) :
    (rows.flatMap fun (line, number) => lineUnits number line).filter
      (fun u : LineUnit => u.2.line = (n : Int)) = [] :=
  Script.filter_units_eq_nil TagLineAddress.line (fun number line => lineUnits number line)
    (fun _ _ _ hu => (unitOf_of_mem_lineUnits hu).line_eq) hother

/-- The units addressed to a line that is read are all the units of the line. -/
theorem filter_line_eq {selected : List (Text × Nat)} (hdistinct : (selected.map (·.2)).Nodup)
    {line : Text} {number : Nat} (hmem : (line, number) ∈ selected) :
    (selected.flatMap fun (line, number) => lineUnits number line).filter
      (fun u : LineUnit => u.2.line = (number : Int)) = lineUnits number line :=
  Script.filter_units_eq TagLineAddress.line (fun number line => lineUnits number line)
    (fun _ _ _ hu => (unitOf_of_mem_lineUnits hu).line_eq) hdistinct hmem

/-! ## Writing a scenario's own texts -/

/-- A unit that does not survive on some line is the only one of its line. -/
theorem UnitOf.alone_or_survives {number : Int} {line : Text} {u : LineUnit}
    (h : UnitOf number line u) : lineUnits number line = [u] ∨ Survives line u := by
  cases h with
  | evaluation _ alone => exact Or.inl alone
  | attributed _ alone => exact Or.inl alone
  | quotation _ => exact Or.inr trivial
  | center shape => rcases shape with rfl | rfl | rfl <;> exact Or.inr trivial

/-- Writing the own texts is one edit for each unit. -/
theorem reinsert_own (source : Text) (units : List LineUnit) :
    reinsert source (units.map (·.2)) (Edits.own units) =
      Text.ofLines (units.foldr (fun u ls => Script.editLineAt (rebuild u.2 u.1) u.2.line ls)
        source.lines) := by
  have hrows := congrArg (List.foldr
    (fun (row : TagLineAddress × Text) ls => Script.editLineAt (rebuild row.1 row.2) row.1.line ls)
    source.lines) (Edits.rows_own units)
  rw [Edits.rows, List.foldr_map, List.foldr_map] at hrows
  exact congrArg Text.ofLines hrows

theorem foldr_eq_self {α β : Type} {f : α → β → β} {b : β} {rows : List α}
    (h : ∀ r ∈ rows, f r b = b) : rows.foldr f b = b := by
  induction rows with
  | nil => rfl
  | cons r rows ih =>
    rw [List.foldr_cons, ih fun r hr => h r (List.mem_cons_of_mem _ hr), h r List.mem_cons_self]

/-- The units addressed to the line of a unit are all the units of that line. -/
theorem filter_extract_eq {macroTexts : Bool} {source : Text} {u : LineUnit}
    (hu : u ∈ extract macroTexts source) {number : Nat} (hnumber : u.2.line = (number : Int))
    {l : Line} (hl : source.lines[number]? = some l) :
    (extract macroTexts source).filter (fun u : LineUnit => u.2.line = (number : Int)) =
      lineUnits number l.body := by
  obtain ⟨selected, hsub, hunits⟩ := extract_eq macroTexts source
  have hdistinct : (selected.map (·.2)).Nodup := by
    refine (hsub.map _).nodup ?_
    rw [Script.numbered, List.zipIdx_map_snd]
    exact List.nodup_range'
  rw [hunits] at hu ⊢
  obtain ⟨⟨line, number'⟩, hrow, hmem⟩ := List.mem_flatMap.mp hu
  have hline := (unitOf_of_mem_lineUnits hmem).line_eq
  rw [hnumber, Int.natCast_inj] at hline
  subst hline
  have hget := List.mk_mem_zipIdx_iff_getElem?.mp (hsub.subset hrow)
  rw [List.getElem?_map, hl] at hget
  cases hget
  exact filter_line_eq hdistinct hrow

/-- If writing the own texts leaves the text as it is, it leaves every line as it is. -/
theorem lines_eq_of_same {macroTexts : Bool} {source : Text}
    (h : Text.ofLines ((extract macroTexts source).foldr
      (fun u ls => Script.editLineAt (rebuild u.2 u.1) u.2.line ls) source.lines) = source) :
    (extract macroTexts source).foldr
      (fun u ls => Script.editLineAt (rebuild u.2 u.1) u.2.line ls) source.lines =
        source.lines := by
  have hcut := Text.wellCut_lines source
  refine Text.WellCut.eq_of_ofLines_eq ?_ hcut ?_ (h.trans (Text.ofLines_lines source).symm)
  · refine Script.wellCut_foldr_editLineAt (fun u : LineUnit => u.2.line) (fun u => rebuild u.2 u.1)
      hcut ?_
    intro u hu body hbody
    obtain ⟨number, l, -, -, hunit⟩ := exists_line_of_mem_extract hu
    exact not_mem_rebuild (.inl rfl) hunit (Text.flattens_newline u.1) hbody
  · exact Script.map_ending_foldr_editLineAt (fun u : LineUnit => u.2.line)
      (fun u => rebuild u.2 u.1) _ _

/-- **A scenario written back with its own texts** is the scenario exactly if every unit survives
on its line. -/
theorem reinsert_own_texts_iff (macroTexts : Bool) (source : Text) :
    reinsert source ((extract macroTexts source).map (·.2)) (Edits.own (extract macroTexts source)) =
        source ↔
      ∀ u ∈ extract macroTexts source, ∀ l, source.lines[u.2.line.toNat]? = some l →
        Survives l.body u := by
  have hclean := (Text.wellCut_lines source).newline_not_mem
  rw [reinsert_own]
  constructor
  · intro hsame u hu l hl
    obtain ⟨number, l', hl', hnumber, hunit⟩ := exists_line_of_mem_extract hu
    rw [hnumber, Int.toNat_natCast, hl'] at hl
    cases hl
    have hunchanged := lines_eq_of_same hsame
    have hbody := congrArg (fun ls => ls[number]?) hunchanged
    rw [Script.foldr_editLineAt_getElem? (fun u : LineUnit => u.2.line) (fun u => rebuild u.2 u.1),
      hl', Option.map_some, Option.some_inj] at hbody
    rcases hunit.alone_or_survives with halone | hsurvives
    · rw [filter_extract_eq hu hnumber hl', halone] at hbody
      exact (rebuild_eq_self_iff hunit (hclean l (List.mem_of_getElem? hl'))).mp
        (congrArg Line.body hbody)
    · exact hsurvives
  · intro hsurvive
    have hlines : (extract macroTexts source).foldr
        (fun u ls => Script.editLineAt (rebuild u.2 u.1) u.2.line ls) source.lines = source.lines := by
      refine List.ext_getElem? ?_
      intro n
      rw [Script.foldr_editLineAt_getElem? (fun u : LineUnit => u.2.line) (fun u => rebuild u.2 u.1)]
      cases hl : source.lines[n]? with
      | none => rfl
      | some l =>
        have hbody : ∀ u ∈ (extract macroTexts source).filter fun u => u.2.line = (n : Int),
            rebuild u.2 u.1 l.body = l.body := by
          intro u hu
          obtain ⟨hmem, hline⟩ := List.mem_filter.mp hu
          obtain ⟨number, l', hl', hnumber, hunit⟩ := exists_line_of_mem_extract hmem
          rw [decide_eq_true_eq, hnumber, Int.natCast_inj] at hline
          subst hline
          rw [hl] at hl'
          cases hl'
          refine (rebuild_eq_self_iff hunit (hclean l (List.mem_of_getElem? hl))).mpr ?_
          exact hsurvive u hmem l (by rw [hnumber, Int.toNat_natCast, hl])
        rw [Option.map_some, foldr_eq_self hbody]
    rw [hlines, Text.ofLines_lines]

/-- A name with an apostrophe, as reinsertion itself writes it: the reader ends the value at the
protected quote, and writing what was read protects the backslash. -/
theorem saved_apostrophe_not_restored :
    let first := "@eval exp=\"f.name='Bob'\"".toList
    let saved := "@eval exp=\"f.name='it\\'s'\"".toList
    reinsert first ((extract true first).map (·.2)) [some "it's".toList] = saved ∧
      (extract true saved).map (·.1) = ["it\\".toList] ∧
      reinsert saved ((extract true saved).map (·.2)) (Edits.own (extract true saved)) =
        "@eval exp=\"f.name='it\\\\'s'\"".toList ∧
      reinsert saved ((extract true saved).map (·.2)) (Edits.own (extract true saved)) ≠ saved := by
  intro first saved
  have hfirst : extract true first = [("Bob".toList,
      { line := 0, kind := .evalVariable, quote := ['\''], variablePath := "f.name".toList })] := by
    decide +kernel
  have hsaved : extract true saved = [("it\\".toList,
      { line := 0, kind := .evalVariable, quote := ['\''], variablePath := "f.name".toList })] := by
    decide +kernel
  rw [hfirst, hsaved]
  decide +kernel

end Kag

end GameText
