import GameText.Proofs.Desktop.TableActs

/-!
# The panes beside the table

The panes are filled when a row is selected, and what is typed goes to the unit that is in that row
then. Nothing follows if other rows are listed: the number of the selected row stays while the row has
another unit. Nor does the pane of the target text follow if the unit's text is changed in its cell
or emptied from the menu. So the panes stay with the unit that is written exactly if listing again
leaves, in the selected row, a unit with the two texts of the panes, and if cells and menu give the
selected unit no other text than the pane has (`after_inStep_iff`). Texts that come in and texts that
are typed do no harm, nor does any selection.

Not established: that two units with the same two texts are told apart. The panes are compared with
the texts of the unit, not with its number, which is shown nowhere beside the table.
-/

namespace GameText

/-- The source text of a unit, if the unit is there. -/
def sourceAt (ds : List SessionDocument) (k u : Nat) : Option Json :=
  (ds[k]?).bind fun d => d.sources[u]?

/-- Texts that are put in are no source texts. -/
theorem sourceAt_putAll (ws : List Write) (ds : List SessionDocument) (k u : Nat) :
    sourceAt (putAll ws ds) k u = sourceAt ds k u := by
  have hsources := congrArg (·[k]?)
    (map_putAll (f := SessionDocument.sources) (fun _ _ _ => rfl) ws ds)
  rw [List.getElem?_map, List.getElem?_map] at hsources
  have hbind := congrArg (·.bind fun sources : List Json => sources[u]?) hsources
  rw [Option.bind_map, Option.bind_map] at hbind
  exact hbind

namespace Workbench

/-! ## Panes and units -/

/-- If the table had these rows, the row with the number would be a unit of the document that is
shown, and the panes would have its two texts. -/
def PanesMatch (b : Workbench) (rows : List Nat) (row : Nat) : Prop :=
  ∃ k unit, b.table.shown = some k ∧ rows[row]? = some unit ∧
    sourceAt b.session.documents k unit = some b.table.sourcePane ∧
    targetAt b.session.documents k unit = some b.table.targetPane

/-- **If a row is selected**, the unit in that row is the one whose source text is in the one pane,
and the other pane has its target text. -/
def InStep (b : Workbench) : Prop :=
  ∀ row, b.table.selectedRow = some row → b.PanesMatch b.table.rows row

/-- The unit in the selected row. -/
def selectedUnit? (b : Workbench) : Option Nat := b.table.selectedRow.bind (b.table.rows[·]?)

/-- What happens to the table gives the selected unit no text that the pane does not have, and lists
no unit with other texts in the selected row. -/
def Harmless (b : Workbench) : TableAct → Prop
  | .filterTimeout => b.table.filterDue = true →
      ∀ row, b.table.selectedRow = some row → b.PanesMatch (b.listing b.table.filter) row
  | .status name => ∀ filter, StatusFilter.ofName? name = some filter → filter ≠ b.table.filter →
      ∀ row, b.table.selectedRow = some row → b.PanesMatch (b.listing filter) row
  | .edit cell role text => role = .edit → Table.isEditable cell → ∀ unit,
      b.selectedUnit? = some unit → b.table.unitAt cell.row = some unit →
        b.table.targetPane = .str text
  | .menu entry => entry = some clearEntry → ∀ unit, b.selectedUnit? = some unit →
      unit ∈ b.table.highlightedUnits → b.table.targetPane = .str []
  | _ => True

/-- What is typed goes to the unit that the panes show. -/
theorem InStep.typed {b : Workbench} (h : b.InStep) {row : Nat}
    (hrow : b.table.selectedRow = some row) (text : Text) :
    ∃ k unit, b.typeWrites text = [⟨k, unit, text⟩] ∧
      sourceAt b.session.documents k unit = some b.table.sourcePane ∧
      targetAt b.session.documents k unit = some b.table.targetPane := by
  obtain ⟨k, unit, hk, hunit, hsource, htarget⟩ := h row hrow
  refine ⟨k, unit, ?_, hsource, htarget⟩
  simp [typeWrites, writesTo, hrow, hunit, hk]

theorem inStep_of_none {b : Workbench} (h : b.table.selectedRow = none) : b.InStep := by
  intro row hrow
  rw [h] at hrow
  cases hrow

/-! ## Acts that put texts in -/

/-- The panes when texts were put in: they are compared with the texts that the unit has then. -/
theorem Wrote.inStep_iff {b b' : Workbench} {ws : List Write} (h : b.Wrote ws b') :
    b'.InStep ↔ ∀ row, b.table.selectedRow = some row → ∃ k unit, b.table.shown = some k ∧
      b.table.rows[row]? = some unit ∧
      sourceAt b.session.documents k unit = some b.table.sourcePane ∧
      (targetAt b.session.documents k unit).map (settled · (textsFor k unit ws)) =
        some b.table.targetPane := by
  unfold InStep PanesMatch
  simp only [h.shown, h.rows, h.selectedRow, h.sourcePane, h.targetPane, h.documents,
    sourceAt_putAll, targetAt_putAll]

/-- If the panes were in step, they are so still if what the selected unit has then is in the
pane. -/
theorem InStep.wrote_iff {b b' : Workbench} {ws : List Write} {pane : Json} (hstep : b.InStep)
    (h : (b.withPane pane).Wrote ws b') :
    b'.InStep ↔ ∀ k unit, b.table.shown = some k → b.selectedUnit? = some unit →
      settled b.table.targetPane (textsFor k unit ws) = pane := by
  rw [h.inStep_iff]
  constructor
  · intro hthen k unit hk hselected
    obtain ⟨row, hrow, hunit⟩ := Option.bind_eq_some_iff.mp hselected
    obtain ⟨k', unit', hk', hunit', -, htarget'⟩ := hthen row hrow
    obtain ⟨k'', unit'', hk'', hunit'', -, htarget⟩ := hstep row hrow
    cases hk.symm.trans hk'
    cases hk.symm.trans hk''
    cases hunit.symm.trans hunit'
    cases hunit.symm.trans hunit''
    have hold : targetAt (b.withPane pane).session.documents k unit = some b.table.targetPane :=
      htarget
    rw [hold] at htarget'
    exact Option.some.inj htarget'
  · intro hpane row hrow
    obtain ⟨k, unit, hk, hunit, hsource, htarget⟩ := hstep row hrow
    refine ⟨k, unit, hk, hunit, hsource, ?_⟩
    have hold : targetAt (b.withPane pane).session.documents k unit = some b.table.targetPane :=
      htarget
    rw [hold, Option.map_some, hpane k unit hk (Option.bind_eq_some_iff.mpr ⟨row, hrow, hunit⟩)]
    rfl

/-- The selected unit is one of the document that is shown. -/
theorem InStep.exists_shown {b : Workbench} (h : b.InStep) {unit : Nat}
    (hselected : b.selectedUnit? = some unit) : ∃ k, b.table.shown = some k := by
  obtain ⟨row, hrow, -⟩ := Option.bind_eq_some_iff.mp hselected
  obtain ⟨k, -, hk, -⟩ := h row hrow
  exact ⟨k, hk⟩

/-- The texts that go to one unit if a text is put into a unit of the document that is shown. -/
theorem textsFor_writesTo {b : Workbench} {k : Nat} (hk : b.table.shown = some k)
    (unit unit' : Nat) (text : Text) :
    textsFor k unit (b.writesTo unit' text) = if unit' = unit then [text] else [] := by
  unfold writesTo textsFor
  rw [hk]
  by_cases hunit : unit' = unit <;> simp [hunit]

theorem settled_replicate (old : Json) (units : List Nat) {b : Workbench} {k : Nat}
    (hk : b.table.shown = some k) (unit : Nat) :
    settled old (textsFor k unit (units.flatMap fun unit' => b.writesTo unit' [])) =
      if unit ∈ units then .str [] else old := by
  induction units generalizing old with
  | nil => rfl
  | cons unit' units ih =>
    have hsplit : textsFor k unit ((unit' :: units).flatMap fun u => b.writesTo u []) =
        textsFor k unit (b.writesTo unit' []) ++
          textsFor k unit (units.flatMap fun u => b.writesTo u []) := by
      simp only [textsFor, List.flatMap_cons, List.filter_append, List.map_append]
    rw [hsplit, settled_append, ih, textsFor_writesTo hk]
    by_cases hmem : unit ∈ units
    · simp [hmem]
    · by_cases hunit : unit' = unit
      · simp [hunit, settled]
      · simp [hmem, hunit, Ne.symm hunit, settled]

/-- A cell that is edited does no harm exactly if it is not the selected unit's, or gets the text of
the pane. -/
theorem InStep.edit_iff {b : Workbench} (h : b.InStep) (cell : CellIndex) (role : CellRole)
    (text : Text) :
    (b.act (.edit cell role text)).InStep ↔ b.Harmless (.edit cell role text) := by
  have hwrote : (b.withPane b.table.targetPane).Wrote (b.cellWrites cell role text)
      (b.act (.edit cell role text)) := wrote_editCell b cell role text
  rw [h.wrote_iff hwrote]
  constructor
  · intro hall hrole hedit unit hselected hcell
    obtain ⟨k, hk⟩ := h.exists_shown hselected
    have hpane := hall k unit hk hselected
    rw [cellWrites, if_pos ⟨hrole, hedit⟩, hcell, Option.toList_some, List.flatMap_singleton,
      textsFor_writesTo hk, if_pos rfl] at hpane
    exact hpane.symm
  · intro hharmless k unit hk hselected
    rw [cellWrites]
    split
    next hedit =>
      cases hcell : b.table.unitAt cell.row with
      | none => rfl
      | some unit' =>
        rw [Option.toList_some, List.flatMap_singleton, textsFor_writesTo hk]
        split
        next hsame =>
          subst hsame
          exact (hharmless hedit.1 hedit.2 unit' hselected hcell).symm
        next => rfl
    next => rfl

/-- The menu does no harm exactly if it does not empty the selected unit, or the pane is empty. -/
theorem InStep.menu_iff {b : Workbench} (h : b.InStep) (entry : Option Text) :
    (b.act (.menu entry)).InStep ↔ b.Harmless (.menu entry) := by
  have hwrote : (b.withPane b.table.targetPane).Wrote (b.entryWrites entry)
      (b.act (.menu entry)) := wrote_chooseEntry b entry
  rw [h.wrote_iff hwrote]
  constructor
  · intro hall hentry unit hselected hmem
    obtain ⟨k, hk⟩ := h.exists_shown hselected
    have hpane := hall k unit hk hselected
    rw [entryWrites, if_pos hentry, settled_replicate _ _ hk, if_pos hmem] at hpane
    exact hpane.symm
  · intro hharmless k unit hk hselected
    rw [entryWrites]
    split
    next hentry =>
      rw [settled_replicate _ _ hk]
      split
      next hmem => exact (hharmless hentry unit hselected hmem).symm
      next => rfl
    next => rfl

/-- What is typed is in the pane and in the unit. -/
theorem InStep.type {b : Workbench} (h : b.InStep) (text : Text) : (b.type text).InStep := by
  refine (h.wrote_iff (wrote_type b text)).mpr ?_
  intro k unit hk hselected
  have hwrites : b.typeWrites text = b.writesTo unit text := by
    rw [selectedUnit?] at hselected
    rw [typeWrites, hselected, Option.toList_some, List.flatMap_singleton]
  rw [hwrites, textsFor_writesTo hk, if_pos rfl]
  rfl

/-- A text that comes in for the selected unit comes into the pane too, and into no other pane. -/
theorem InStep.receive {b : Workbench} (h : b.InStep) (hsound : b.Sound) (document unit : Nat)
    (text : Text) : (b.act (.receive document unit text)).InStep := by
  rcases receive_cases b document unit text with hsame | ⟨pane, hwrote, hpane⟩
  · rw [hsame]
    exact h
  refine (h.wrote_iff hwrote).mpr ?_
  intro k unit' hk hselected
  obtain ⟨row, hrow, hunit⟩ := Option.bind_eq_some_iff.mp hselected
  rw [hpane, hk, hrow]
  by_cases hhere : k = document ∧ unit' = unit
  · obtain ⟨rfl, rfl⟩ := hhere
    have hrowOf := (rowOf_eq_some_iff hsound.nodup).mpr hunit
    rw [if_pos ⟨rfl, by rw [hrowOf]; rfl, hrowOf⟩]
    simp [textsFor, settled]
  · have hnone : textsFor k unit' [⟨document, unit, text⟩] = [] := by
      have hother : ¬(document = k ∧ unit = unit') := fun hsame => hhere ⟨hsame.1.symm, hsame.2.symm⟩
      simp [textsFor, hother]
    have hstay : ¬(some k = some document ∧ (b.table.rowOf unit).isSome ∧
        b.table.rowOf unit = some row) := by
      rintro ⟨hdocument, -, hrowOf⟩
      have hunit' := (rowOf_eq_some_iff hsound.nodup).mp hrowOf
      exact hhere ⟨Option.some.inj hdocument, Option.some.inj (hunit.symm.trans hunit')⟩
    rw [hnone, if_neg hstay]
    rfl

/-! ## Acts that choose what is shown -/

theorem getElem?_eq_some_getD {α : Type} {xs : List α} {i : Nat} (other : α) (h : i < xs.length) :
    xs[i]? = some (xs.getD i other) := by
  rw [List.getD_eq_getElem?_getD, List.getElem?_eq_getElem h]
  rfl

/-- **A row that is selected** has its texts in the panes. -/
theorem Sound.fillPanes_inStep {b : Workbench} (h : b.Sound) (row : Option Nat) :
    (b.fillPanes row).InStep := by
  unfold fillPanes
  split
  next unit d hunit hd =>
    intro row' hrow'
    obtain rfl : row = some row' := hrow'
    have hunit' : b.table.rows[row']? = some unit := hunit
    obtain ⟨d', hd', htotal⟩ := h.units unit (List.mem_of_getElem? hunit')
    obtain rfl : d' = d := Option.some.inj (hd'.symm.trans hd)
    obtain ⟨k, hk, hdocument⟩ := Option.bind_eq_some_iff.mp hd
    have hfilled := (h.textual d' (List.mem_of_getElem? hdocument)).filled
    have hsource : d'.sources[unit]? = some (d'.source unit) :=
      getElem?_eq_some_getD _ htotal
    have htarget : d'.targets[unit]? = some (d'.target unit) :=
      getElem?_eq_some_getD _ (Nat.lt_of_lt_of_le htotal hfilled)
    refine ⟨k, unit, hk, hunit', ?_, ?_⟩
    · show (b.session.documents[k]?).bind (fun d => d.sources[unit]?) = some (d'.source unit)
      rw [hdocument, Option.bind_some, hsource]
    · show (b.session.documents[k]?).bind (fun d => d.targets[unit]?) = some (d'.target unit)
      rw [hdocument, Option.bind_some, htarget]
  next => exact inStep_of_none rfl

/-- Another document is shown with no row selected. -/
theorem Sound.showDocument_inStep {b : Workbench} (h : b.Sound) (document : Option Nat) :
    (b.showDocument document).InStep := by
  refine inStep_of_none ?_
  rw [showDocument, applyFilter_textual]
  · rfl
  · exact h.textual

/-- When units are listed again, the panes are compared with the unit that the selected row has
then. -/
theorem applyFilter_inStep_iff {b : Workbench} (h : ∀ d ∈ b.session.documents, d.Textual) :
    b.applyFilter.InStep ↔ ∀ row, b.table.selectedRow = some row →
      b.PanesMatch (b.listing b.table.filter) row := by
  rw [applyFilter_textual h]
  exact Iff.rfl

/-- A search that is typed selects and lists nothing yet. -/
theorem InStep.search {b : Workbench} (h : b.InStep) (query : Text) : (b.search query).InStep := by
  unfold Workbench.search
  split <;> exact h

/-- The colours are not the panes' concern. -/
theorem InStep.setDark {b : Workbench} (h : b.InStep) (dark : Bool) : (b.setDark dark).InStep := by
  simp only [Workbench.setDark]
  split <;> exact h

/-- Any selection leaves the panes in step. -/
theorem InStep.select {b : Workbench} (h : b.InStep) (hsound : b.Sound) (rows : List Int)
    (cursor : Int) : (b.select rows cursor).InStep := by
  simp only [Workbench.select]
  split
  · exact h
  · refine Sound.fillPanes_inStep ?_ _
    exact ⟨hsound.textual, hsound.nodup, hsound.units⟩

/-- The timer of a search does no harm exactly if it finds nothing due, or lists the selected unit
where it was. -/
theorem InStep.filterTimeout_iff {b : Workbench} (h : b.InStep) (hsound : b.Sound) :
    (b.act .filterTimeout).InStep ↔ b.Harmless .filterTimeout := by
  show b.filterTimeout.InStep ↔ _
  unfold filterTimeout
  split
  next hdue =>
    refine (applyFilter_inStep_iff ?_).trans ?_
    · exact hsound.textual
    · exact ⟨fun hmatch _ => hmatch, fun hmatch => hmatch hdue⟩
  next hdue => exact iff_of_true h fun hyes => absurd hyes hdue

/-- A status that is chosen does no harm exactly if it is no other than before, or lists the selected
unit where it was. -/
theorem InStep.status_iff {b : Workbench} (h : b.InStep) (hsound : b.Sound) (name : Text) :
    (b.act (.status name)).InStep ↔ b.Harmless (.status name) := by
  show (b.chooseStatus name).InStep ↔ _
  unfold chooseStatus
  split
  next hname => exact iff_of_true h fun filter hother => by rw [hname] at hother; cases hother
  next filter hname =>
    split
    next hsame =>
      refine iff_of_true h fun filter' hother hne => ?_
      cases hname.symm.trans hother
      exact absurd hsame hne
    next hne =>
      refine (applyFilter_inStep_iff ?_).trans ⟨?_, ?_⟩
      · exact hsound.textual
      · intro hmatch filter' hother _
        cases hname.symm.trans hother
        exact hmatch
      · exact fun hmatch => hmatch filter hname hne

/-! ## Every act -/

/-- **One thing that happens** leaves the panes in step exactly if it does no harm. -/
theorem Sound.act_inStep_iff {b : Workbench} (hsound : b.Sound) (hstep : b.InStep) (a : TableAct) :
    (b.act a).InStep ↔ b.Harmless a := by
  cases a with
  | document document => exact iff_of_true (hsound.showDocument_inStep document) trivial
  | dark dark => exact iff_of_true (hstep.setDark dark) trivial
  | receive document unit text => exact iff_of_true (hstep.receive hsound document unit text) trivial
  | search query => exact iff_of_true (hstep.search query) trivial
  | filterTimeout => exact hstep.filterTimeout_iff hsound
  | status name => exact hstep.status_iff hsound name
  | select rows cursor => exact iff_of_true (hstep.select hsound rows cursor) trivial
  | type text => exact iff_of_true (hstep.type text) trivial
  | edit cell role text => exact hstep.edit_iff cell role text
  | menu entry => exact hstep.menu_iff entry

/-- **The panes show the unit that is written**, all along a row of things that happen to the table
of a session, exactly if nothing that happens on the way does harm. -/
theorem after_inStep_iff {ds : List SessionDocument} (h : ∀ d ∈ ds, d.Textual)
    (acts : List TableAct) :
    (∀ done, done <+: acts → (after { session := ⟨ds⟩ } done).InStep) ↔
      ∀ done a, done ++ [a] <+: acts → (after { session := ⟨ds⟩ } done).Harmless a := by
  have hsound := fun done => (sound_start h).after done
  constructor
  · intro hall done a hprefix
    have hnext := hall (done ++ [a]) hprefix
    rw [after_concat] at hnext
    have hbefore := hall done ((List.prefix_append ..).trans hprefix)
    exact ((hsound done).act_inStep_iff hbefore a).mp hnext
  · intro hharmless
    have hfirst : ∀ n, (after { session := ⟨ds⟩ } (acts.take n)).InStep := by
      intro n
      induction n with
      | zero => exact inStep_of_none rfl
      | succ n ih =>
        by_cases hn : n < acts.length
        · have htake := List.take_succ_eq_append_getElem hn
          rw [htake, after_concat]
          exact ((hsound _).act_inStep_iff ih acts[n]).mpr
            (hharmless _ _ (htake ▸ List.take_prefix (n + 1) acts))
        · rw [List.take_of_length_le (by omega)] at ih
          rwa [List.take_of_length_le (by omega)]
    intro done hprefix
    rw [List.prefix_iff_eq_take.mp hprefix]
    exact hfirst done.length

/-! ## A script of two lines -/

/-- A script of two lines, with its two units. -/
def twoLines : SessionDocument :=
  .new ⟨"a.rpy".toList, Utf8.encode "e \"Hello\"\ne \"World\"".toList, .renpy⟩
    { format := .renpy
      units := [("Hello".toList, .literal { line := 0, ordinal := 0 }),
        ("World".toList, .literal { line := 1, ordinal := 0 })] } []

theorem textual_twoLines : ∀ d ∈ [twoLines], d.Textual := by
  intro d hd
  obtain rfl := List.mem_singleton.mp hd
  exact SessionDocument.textual_new _ _ fun v hv => (nomatch hv)

/-- The second line is selected and typed, and a result comes in for it. -/
def typedActs : List TableAct :=
  [.document (some 0), .select [1] 1, .type "Monde".toList, .receive 0 1 "Terre".toList]

/-- The panes follow what is typed and what comes in. -/
theorem typed_in_step : (∀ d ∈ [twoLines], d.Textual) ∧
    ∀ done, done <+: typedActs → (after { session := ⟨[twoLines]⟩ } done).InStep := by
  refine ⟨textual_twoLines, (after_inStep_iff textual_twoLines typedActs).mpr ?_⟩
  intro done a hprefix
  have hmem : a ∈ typedActs := hprefix.subset (List.mem_append_right _ List.mem_cons_self)
  simp only [typedActs, List.mem_cons, List.not_mem_nil, or_false] at hmem
  rcases hmem with rfl | rfl | rfl | rfl <;> trivial

/-- A text that the selected unit is given in its cell is not in the pane; and when a query leaves
one row, the first line is still in the panes while a typed text goes to the second. -/
theorem edited_cell_out_of_step :
    (¬∀ (ds : List SessionDocument) (acts : List TableAct), (∀ d ∈ ds, d.Textual) →
      (after { session := ⟨ds⟩ } acts).InStep) ∧
    let b := after { session := ⟨[twoLines]⟩ }
      [.document (some 0), .select [0] 0, .search "World".toList, .filterTimeout]
    b.table.selectedRow = some 0 ∧ b.table.sourcePane.text? = some "Hello".toList ∧
      b.typeWrites "Bonjour".toList = [⟨0, 1, "Bonjour".toList⟩] := by
  refine ⟨fun hclaim => ?_, by decide +kernel, by decide +kernel, by decide +kernel⟩
  let b := after { session := ⟨[twoLines]⟩ }
    [.document (some 0), .select [0] 0, .edit ⟨0, Table.targetColumn⟩ .edit "Salut".toList]
  have hunit : b.table.selectedRow = some 0 ∧ b.table.shown = some 0 ∧ b.table.rows = [0, 1] := by
    decide +kernel
  have htexts : (targetAt b.session.documents 0 0).bind Json.text? = some "Salut".toList ∧
      b.table.targetPane.text? = some [] := by decide +kernel
  obtain ⟨k, unit, hk, hrow, -, htarget⟩ := hclaim [twoLines]
    [.document (some 0), .select [0] 0, .edit ⟨0, Table.targetColumn⟩ .edit "Salut".toList]
    textual_twoLines 0 hunit.1
  cases hunit.2.1.symm.trans hk
  have hrow' : b.table.rows[0]? = some unit := hrow
  rw [hunit.2.2] at hrow'
  obtain rfl : 0 = unit := Option.some.inj hrow'
  have hpane : targetAt b.session.documents 0 0 = some b.table.targetPane := htarget
  rw [hpane, Option.bind_some, htexts.2] at htexts
  cases htexts.1

end Workbench

end GameText
