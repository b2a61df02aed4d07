import GameText.Proofs.Desktop.LastWrite

/-!
# What happens to the table

The user, the timer and the run act on the table in a few ways (`TableAct`). Some put texts into the
document that is shown and leave the rows as they are (`Workbench.Wrote`); the others list units again.
Where documents hold texts throughout, each row is a unit of the document that is shown, and no unit
has two rows, whatever has happened (`Workbench.Sound.act`).
-/

namespace GameText

/-- Something that happens to the table. -/
inductive TableAct where
  /-- Another document is shown, or none. -/
  | document (document : Option Nat)
  | dark (dark : Bool)
  /-- A translated text comes in for a unit of some document. -/
  | receive (document unit : Nat) (text : Text)
  | search (query : Text)
  | filterTimeout
  | status (name : Text)
  | select (rows : List Int) (cursor : Int)
  | type (text : Text)
  | edit (cell : CellIndex) (role : CellRole) (text : Text)
  | menu (entry : Option Text)

namespace Workbench

/-- The workbench when something has happened to the table. -/
def act (b : Workbench) : TableAct → Workbench
  | .document document => b.showDocument document
  | .dark dark => b.setDark dark
  | .receive document unit text => (b.receive document unit text).toOption.getD b
  | .search query => b.search query
  | .filterTimeout => b.filterTimeout
  | .status name => b.chooseStatus name
  | .select rows cursor => b.select rows cursor
  | .type text => b.type text
  | .edit cell role text => (b.editCell cell role text).2
  | .menu entry => b.chooseEntry entry

/-- The workbench when things have happened one after the other. -/
def after (b : Workbench) (acts : List TableAct) : Workbench := acts.foldl act b

theorem after_concat (b : Workbench) (acts : List TableAct) (a : TableAct) :
    b.after (acts ++ [a]) = (b.after acts).act a := List.foldl_concat ..

end Workbench

/-! ## Documents that hold texts -/

/-- A document holds texts throughout, and a target text for each unit. -/
structure SessionDocument.Textual (d : SessionDocument) : Prop where
  filled : d.Filled
  sources : ∀ v ∈ d.sources, ∃ s, v = .str s
  targets : ∀ v ∈ d.targets, ∃ s, v = .str s

namespace SessionDocument

/-- A document that was opened holds texts, if its target texts are some. -/
theorem textual_new (document : Document) (extraction : Extraction) {targets : List Json}
    (h : ∀ v ∈ targets, ∃ s, v = .str s) : (new document extraction targets).Textual where
  filled := filled_new document extraction targets
  sources := by
    intro v hv
    obtain ⟨s, -, rfl⟩ := List.mem_map.mp hv
    exact ⟨s, rfl⟩
  targets := by
    intro v hv
    rcases List.mem_append.mp hv with hgiven | hadded
    · exact h v hgiven
    · exact ⟨[], List.eq_of_mem_replicate hadded⟩

theorem Textual.setTarget {d : SessionDocument} (h : d.Textual) (unit : Nat) (text : Text) :
    (d.setTarget unit (.str text)).Textual where
  filled := h.filled.setTarget _ _
  sources := h.sources
  targets := by
    intro v hv
    rcases List.mem_or_eq_of_mem_set hv with hold | hnew
    · exact h.targets v hold
    · exact ⟨text, hnew⟩

theorem Textual.source {d : SessionDocument} (h : d.Textual) {v : Json} {unit : Nat}
    (hv : d.sources[unit]? = some v) : ∃ s, v = .str s := h.sources v (List.mem_of_getElem? hv)

theorem Textual.target {d : SessionDocument} (h : d.Textual) (unit : Nat) :
    ∃ s, d.target unit = .str s := by
  rw [SessionDocument.target, List.getD_eq_getElem?_getD]
  cases hv : d.targets[unit]? with
  | none => exact ⟨[], rfl⟩
  | some v => exact h.targets v (List.mem_of_getElem? hv)

end SessionDocument

theorem textual_putAll {ds : List SessionDocument} (h : ∀ d ∈ ds, d.Textual) (ws : List Write) :
    ∀ d ∈ putAll ws ds, d.Textual := by
  induction ws generalizing ds with
  | nil => exact h
  | cons x ws ih =>
    refine @ih (x.put ds) fun d hd => ?_
    obtain ⟨k, hk⟩ := List.mem_iff_getElem?.mp hd
    rw [Write.getElem?_put] at hk
    obtain ⟨d', hd', rfl⟩ := Option.map_eq_some_iff.mp hk
    have htextual := h d' (List.mem_of_getElem? hd')
    split
    · exact htextual.setTarget _ _
    · exact htextual

/-! ## The units that are listed -/

theorem filterAuxM_ok {ε α : Type} {f : α → Except ε Bool} {p : α → Bool} {xs : List α}
    (h : ∀ x ∈ xs, f x = .ok (p x)) (acc : List α) :
    xs.filterAuxM f acc = .ok ((xs.filter p).reverse ++ acc) := by
  induction xs generalizing acc with
  | nil => rfl
  | cons x xs ih =>
    have hx := h x List.mem_cons_self
    have hrest := fun acc => ih (fun y hy => h y (List.mem_cons_of_mem _ hy)) acc
    simp only [List.filterAuxM, hx]
    show List.filterAuxM f xs (bif p x then x :: acc else acc) = _
    rw [hrest]
    cases hp : p x with
    | false => rw [List.filter_cons_of_neg (by simp [hp]), cond_false]
    | true =>
      rw [List.filter_cons_of_pos hp, List.reverse_cons, List.append_assoc, cond_true]
      rfl

/-- A filter that fails nowhere is a filter. -/
theorem filterM_ok {ε α : Type} {f : α → Except ε Bool} {p : α → Bool} {xs : List α}
    (h : ∀ x ∈ xs, f x = .ok (p x)) : xs.filterM f = .ok (xs.filter p) := by
  rw [List.filterM, filterAuxM_ok h, List.append_nil]
  show Except.ok (xs.filter p).reverse.reverse = _
  rw [List.reverse_reverse]

namespace Table

/-- Texts can be searched. -/
theorem found_str (query s t : Text) : ∃ answer, found query (.str s) (.str t) = .ok answer := by
  unfold found
  by_cases hquery : query.isEmpty
  · exact ⟨true, by rw [if_pos hquery]; rfl⟩
  · rw [if_neg hquery]
    cases hsource : Text.occursIn query.lower (Markup.strip s).lower with
    | true => exact ⟨true, by simp only [holds, hsource]; rfl⟩
    | false => exact ⟨_, by simp only [holds, hsource]; rfl⟩

/-- **A document of texts can be listed**: each of its units has a row at most. -/
theorem listed_textual (filter : StatusFilter) (query : Text) {d : SessionDocument}
    (h : d.Textual) : ∃ units, listed filter query d = .ok units ∧ units.Nodup ∧
      ∀ unit ∈ units, unit < d.total := by
  let admitted := d.sources.zipIdx.filter fun row => filter.admits (d.isTranslated row.2)
  have hsearch : ∀ row ∈ admitted, found query row.1 (d.target row.2) =
      .ok ((found query row.1 (d.target row.2)).toOption.getD false) := by
    intro row hrow
    have hget := List.mk_mem_zipIdx_iff_getElem?.mp (List.mem_filter.mp hrow).1
    obtain ⟨s, hs⟩ := h.source hget
    obtain ⟨t, ht⟩ := h.target row.2
    obtain ⟨answer, hanswer⟩ := found_str query s t
    rw [hs, ht, hanswer]
    rfl
  have hlisted : listed filter query d = .ok ((admitted.filter fun row =>
      (found query row.1 (d.target row.2)).toOption.getD false).map (·.2)) := by
    show (admitted.filterM (fun row => found query row.1 (d.target row.2)) >>=
      fun units => pure (units.map (·.2))) = _
    rw [filterM_ok hsearch]
    rfl
  refine ⟨_, hlisted, ?_, ?_⟩
  · have hsub : (admitted.filter fun row =>
        (found query row.1 (d.target row.2)).toOption.getD false).Sublist d.sources.zipIdx :=
      List.filter_sublist.trans List.filter_sublist
    refine (hsub.map (·.2)).nodup ?_
    rw [List.zipIdx_map_snd]
    exact List.nodup_range'
  · intro unit hunit
    obtain ⟨row, hrow, rfl⟩ := List.mem_map.mp hunit
    have hget := List.mk_mem_zipIdx_iff_getElem?.mp
      (List.mem_filter.mp (List.mem_filter.mp hrow).1).1
    exact (List.getElem?_eq_some_iff.mp hget).1

end Table

namespace Workbench

/-! ## Acts that put texts in -/

/-- Texts were put into documents, and the table is as it was, but for its statistics. -/
structure Wrote (b : Workbench) (ws : List Write) (b' : Workbench) : Prop where
  documents : b'.session.documents = putAll ws b.session.documents
  table : ∃ stats, b'.table = { b.table with stats }

namespace Wrote

variable {b b' : Workbench} {ws : List Write} (h : b.Wrote ws b')

include h

theorem shown : b'.table.shown = b.table.shown := by
  obtain ⟨stats, htable⟩ := h.table
  rw [htable]

theorem rows : b'.table.rows = b.table.rows := by
  obtain ⟨stats, htable⟩ := h.table
  rw [htable]

theorem selectedRow : b'.table.selectedRow = b.table.selectedRow := by
  obtain ⟨stats, htable⟩ := h.table
  rw [htable]

theorem sourcePane : b'.table.sourcePane = b.table.sourcePane := by
  obtain ⟨stats, htable⟩ := h.table
  rw [htable]

theorem targetPane : b'.table.targetPane = b.table.targetPane := by
  obtain ⟨stats, htable⟩ := h.table
  rw [htable]

end Wrote

theorem refreshRow_table (b : Workbench) (row : Option Nat) :
    ∃ stats, (b.refreshRow row).table = { b.table with stats } := by
  unfold refreshRow
  split
  · exact ⟨_, rfl⟩
  · exact ⟨b.table.stats, rfl⟩

theorem write_table (b : Workbench) (unit : Nat) (text : Text) :
    (b.write unit text).table = b.table := by
  unfold write
  split <;> rfl

/-- A text is put into a unit, and the row is refreshed. -/
theorem wrote_write (b : Workbench) (unit : Nat) (text : Text) (row : Option Nat) :
    b.Wrote (b.writesTo unit text) ((b.write unit text).refreshRow row) := by
  obtain ⟨stats, hstats⟩ := refreshRow_table (b.write unit text) row
  refine ⟨?_, stats, ?_⟩
  · rw [refreshRow_session, write_documents]
  · rw [hstats, write_table]

theorem Wrote.refl (b : Workbench) : b.Wrote [] b := ⟨rfl, b.table.stats, rfl⟩

theorem wrote_editCell (b : Workbench) (cell : CellIndex) (role : CellRole) (text : Text) :
    b.Wrote (b.cellWrites cell role text) (b.editCell cell role text).2 := by
  refine ⟨editCell_documents b cell role text, ?_⟩
  unfold editCell
  split
  · split
    · exact (wrote_write b _ text _).table
    · exact (Wrote.refl b).table
  · exact (Wrote.refl b).table

theorem foldl_clear_table (units : List Nat) (b : Workbench) :
    ∃ stats, (units.foldl clear b).table = { b.table with stats } := by
  induction units generalizing b with
  | nil => exact ⟨b.table.stats, rfl⟩
  | cons unit units ih =>
    obtain ⟨first, hfirst⟩ := (wrote_write b unit [] (b.table.rowOf unit)).table
    obtain ⟨stats, hstats⟩ := ih (b.clear unit)
    refine ⟨stats, ?_⟩
    rw [List.foldl_cons, hstats]
    exact congrArg (fun t : Table => { t with stats }) hfirst

theorem wrote_chooseEntry (b : Workbench) (entry : Option Text) :
    b.Wrote (b.entryWrites entry) (b.chooseEntry entry) := by
  refine ⟨chooseEntry_documents b entry, ?_⟩
  simp only [chooseEntry]
  split
  · exact (Wrote.refl b).table
  · split
    · exact ⟨b.table.stats, rfl⟩
    · split
      · exact foldl_clear_table _ b
      · exact (Wrote.refl b).table

/-- The workbench with another text in the pane of the target text. -/
def withPane (b : Workbench) (pane : Json) : Workbench :=
  { b with table := { b.table with targetPane := pane } }

theorem wrote_type (b : Workbench) (text : Text) :
    (b.withPane (.str text)).Wrote (b.typeWrites text) (b.type text) := by
  refine ⟨type_documents b text, ?_⟩
  simp only [type]
  split
  · exact (Wrote.refl (b.withPane (.str text))).table
  · exact (wrote_write (b.withPane (.str text)) _ text _).table

/-- The row of a unit in a table without double rows. -/
theorem rowOf_eq_some_iff {t : Table} (h : t.rows.Nodup) {unit row : Nat} :
    t.rowOf unit = some row ↔ t.rows[row]? = some unit := by
  unfold Table.rowOf
  rw [List.findIdx?_eq_some_iff_getElem]
  constructor
  · rintro ⟨hlt, hfound, -⟩
    rw [List.getElem?_eq_getElem hlt]
    exact congrArg some (Int.ofNat.inj (eq_of_beq hfound))
  · intro hrow
    obtain ⟨hlt, hget⟩ := List.getElem?_eq_some_iff.mp hrow
    refine ⟨hlt, by rw [hget]; exact beq_self_eq_true _, fun j hj => ?_⟩
    rw [Bool.not_eq_true, beq_eq_false_iff_ne]
    intro hsame
    have hunit : t.rows[j] = t.rows[row] := by rw [hget]; exact Int.ofNat.inj hsame
    exact absurd (h.getElem_inj_iff.mp hunit) (Nat.ne_of_lt hj)

/-- **A text that comes in** is refused, or it is put into its unit; then the pane of the target text
follows if the unit is the selected one. -/
theorem receive_cases (b : Workbench) (document unit : Nat) (text : Text) :
    b.act (.receive document unit text) = b ∨
      ∃ pane, (b.withPane pane).Wrote [⟨document, unit, text⟩] (b.act (.receive document unit text)) ∧
        pane = if b.table.shown = some document ∧ (b.table.rowOf unit).isSome ∧
          b.table.rowOf unit = b.table.selectedRow then .str text else b.table.targetPane := by
  show (b.receive document unit text).toOption.getD b = b ∨ _
  cases htranslate : (b.session.documents[document]?).bind (·.translate? unit (.str text)) with
  | none =>
    refine .inl ?_
    simp only [receive, htranslate]
    rfl
  | some d' =>
    obtain ⟨d, hd, hset⟩ := Option.bind_eq_some_iff.mp htranslate
    obtain ⟨u, hu, rfl⟩ := Option.map_eq_some_iff.mp hset
    have hunit : u = unit := by
      simp only [index?] at hu
      split at hu <;> simp_all
    subst hunit
    have hdocuments := (Write.put_eq_set hd u text).symm
    let stored : Workbench :=
      { b with session := b.session.setDocument document (d.setTarget u (.str text)) }
    obtain ⟨stats, hstats⟩ := refreshRow_table stored (b.table.rowOf u)
    have hsession := refreshRow_session stored (b.table.rowOf u)
    have hselected : (stored.refreshRow (b.table.rowOf u)).table.selectedRow =
        b.table.selectedRow := by rw [hstats]
    have hreceive : b.act (.receive document u text) =
        if b.table.shown ≠ some document then stored
        else if (b.table.rowOf u).isSome ∧ b.table.rowOf u = b.table.selectedRow then
          (stored.refreshRow (b.table.rowOf u)).withPane (.str text)
        else stored.refreshRow (b.table.rowOf u) := by
      show (b.receive document u text).toOption.getD b = _
      rw [← hselected]
      simp only [receive, htranslate]
      split
      · rfl
      · rfl
    refine .inr ⟨_, ?_, rfl⟩
    rw [hreceive]
    by_cases hshown : b.table.shown = some document
    · by_cases hrow : (b.table.rowOf u).isSome = true ∧ b.table.rowOf u = b.table.selectedRow
      · rw [if_neg (not_not_intro hshown), if_pos hrow, if_pos ⟨hshown, hrow⟩]
        refine ⟨?_, stats, ?_⟩
        · exact (congrArg Session.documents hsession).trans hdocuments
        · exact congrArg (fun t : Table => { t with targetPane := .str text }) hstats
      · rw [if_neg (not_not_intro hshown), if_neg hrow, if_neg (fun h => hrow h.2)]
        exact ⟨(congrArg Session.documents hsession).trans hdocuments, stats, hstats⟩
    · rw [if_pos hshown, if_neg (fun h => hshown h.1)]
      exact ⟨hdocuments, b.table.stats, rfl⟩

/-! ## Acts that list units again -/

/-- The units that a filter lists of the document that is shown. -/
def listing (b : Workbench) (filter : StatusFilter) : List Nat :=
  (b.shown?.bind fun d => (Table.listed filter b.table.query d).toOption).getD []

theorem applyFilter_textual {b : Workbench} (h : ∀ d ∈ b.session.documents, d.Textual) :
    b.applyFilter = b.list (b.listing b.table.filter) := by
  unfold applyFilter listing
  cases hshown : b.shown? with
  | none => rfl
  | some d =>
    obtain ⟨k, -, hd⟩ := Option.bind_eq_some_iff.mp hshown
    obtain ⟨units, hunits, -⟩ := Table.listed_textual b.table.filter b.table.query
      (h d (List.mem_of_getElem? hd))
    simp only [Option.bind_some, hunits]
    rfl

/-- What is listed are units of the document that is shown, each of them once. -/
theorem listing_textual {b : Workbench} (h : ∀ d ∈ b.session.documents, d.Textual)
    (filter : StatusFilter) : (b.listing filter).Nodup ∧
      ∀ unit ∈ b.listing filter, ∃ d, b.shown? = some d ∧ unit < d.total := by
  unfold listing
  cases hshown : b.shown? with
  | none => exact ⟨List.nodup_nil, fun _ hunit => (nomatch hunit)⟩
  | some d =>
    obtain ⟨k, -, hd⟩ := Option.bind_eq_some_iff.mp hshown
    obtain ⟨units, hunits, hnodup, htotal⟩ := Table.listed_textual filter b.table.query
      (h d (List.mem_of_getElem? hd))
    rw [Option.bind_some, hunits]
    exact ⟨hnodup, fun unit hunit => ⟨d, rfl, htotal unit hunit⟩⟩

/-! ## The rows -/

/-- The documents hold texts; each row is a unit of the document that is shown, and no unit has two
rows. -/
structure Sound (b : Workbench) : Prop where
  textual : ∀ d ∈ b.session.documents, d.Textual
  nodup : b.table.rows.Nodup
  units : ∀ unit ∈ b.table.rows, ∃ d, b.shown? = some d ∧ unit < d.total

/-- A table that was not used yet is sound. -/
theorem sound_start {ds : List SessionDocument} (h : ∀ d ∈ ds, d.Textual) :
    Sound { session := ⟨ds⟩ } := ⟨h, List.nodup_nil, fun _ hunit => (nomatch hunit)⟩

theorem sound_applyFilter {b : Workbench} (h : ∀ d ∈ b.session.documents, d.Textual) :
    b.applyFilter.Sound := by
  obtain ⟨hnodup, hunits⟩ := listing_textual h b.table.filter
  rw [applyFilter_textual h]
  exact ⟨h, hnodup, hunits⟩

theorem Sound.wrote {b b' : Workbench} {ws : List Write} (h : b.Sound) (hwrote : b.Wrote ws b') :
    b'.Sound := by
  refine ⟨?_, hwrote.rows ▸ h.nodup, ?_⟩
  · rw [hwrote.documents]
    exact textual_putAll h.textual ws
  · intro unit hunit
    rw [hwrote.rows] at hunit
    obtain ⟨d, hd, htotal⟩ := h.units unit hunit
    obtain ⟨k, hk, hd⟩ := Option.bind_eq_some_iff.mp hd
    have htotals := congrArg (·[k]?)
      (map_putAll (f := SessionDocument.total) (fun _ _ _ => rfl) ws b.session.documents)
    rw [List.getElem?_map, List.getElem?_map, hd, ← hwrote.documents] at htotals
    obtain ⟨d', hd', hsame⟩ := Option.map_eq_some_iff.mp htotals
    refine ⟨d', ?_, hsame ▸ htotal⟩
    rw [shown?, hwrote.shown, hk]
    exact hd'

theorem Sound.withPane {b : Workbench} (h : b.Sound) (pane : Json) : (b.withPane pane).Sound :=
  ⟨h.textual, h.nodup, h.units⟩

/-- **Whatever happens to the table**, its rows stay units of the document that is shown. -/
theorem Sound.act {b : Workbench} (h : b.Sound) (a : TableAct) : (b.act a).Sound := by
  cases a with
  | document document => exact sound_applyFilter h.textual
  | dark dark =>
    show (b.setDark dark).Sound
    simp only [setDark]
    split
    · exact ⟨h.textual, h.nodup, h.units⟩
    · exact ⟨h.textual, h.nodup, h.units⟩
  | receive document unit text =>
    rcases receive_cases b document unit text with hsame | ⟨pane, hwrote, -⟩
    · rw [hsame]
      exact h
    · exact (h.withPane pane).wrote hwrote
  | search query =>
    show (b.search query).Sound
    unfold search
    split
    · exact h
    · exact ⟨h.textual, h.nodup, h.units⟩
  | filterTimeout =>
    show b.filterTimeout.Sound
    unfold filterTimeout
    split
    · exact sound_applyFilter h.textual
    · exact h
  | status name =>
    show (b.chooseStatus name).Sound
    unfold chooseStatus
    split
    · exact h
    · split
      · exact h
      · exact sound_applyFilter h.textual
  | select rows cursor =>
    show (b.select rows cursor).Sound
    simp only [select]
    split
    · exact ⟨h.textual, h.nodup, h.units⟩
    · unfold fillPanes
      split <;> exact ⟨h.textual, h.nodup, h.units⟩
  | type text => exact (h.withPane _).wrote (wrote_type b text)
  | edit cell role text => exact h.wrote (wrote_editCell b cell role text)
  | menu entry => exact h.wrote (wrote_chooseEntry b entry)

theorem Sound.after {b : Workbench} (h : b.Sound) (acts : List TableAct) : (b.after acts).Sound := by
  induction acts generalizing b with
  | nil => exact h
  | cons a acts ih => exact ih (h.act a)

end Workbench

end GameText
