import GameText.Proofs.Edits
import GameText.Proofs.EventData.Collect
import GameText.Proofs.EventData.Extraction

/-!
# Reinsertion changes exactly the addressed values

`Reinserted` says what a text is after edited texts were written back at their addresses: its value
is that of the source with the addressed strings replaced, each by what `leafText` says of it, and
its characters are those of the source outside the string tokens of the strings that changed.
`reinsert_extracted` proves it of every source that the extraction reads and of every list of edits;
with the extracted texts for edits the source comes back as it was.

Not established: that the words of a literal as a script call has it mean the edited text; what is
proved is that they stand in place of the recorded spans.
-/

namespace GameText

namespace EventData

open Json (Path Step valueAt? mapStrings changedTexts putText)

/-! ## Rows of an extraction -/

section Addressed

variable {shape : Shape} {root : Json} {rows : List Row}

/-- The script call that a row for one of its values leads to. -/
theorem Addressed.script (h : Addressed shape root rows) {row : Row} (hrow : row ∈ rows)
    (hkind : row.1.kind = .embedded) : ∃ path old u, target? shape row.1 = some path ∧
      root.stringAt? path = some old ∧ u ∈ ScriptCall.units old ∧
      row.1.value = u.text ∧ row.1.written = u.written ∧
      row.1.spans = u.spans.map fun span => ((span.start : Int), (span.stop : Int)) := by
  obtain ⟨text, hplaced⟩ := h.placed row hrow
  obtain ⟨a, new⟩ := row
  cases hplaced with
  | plain hplain => exact absurd hkind (kind_ne_embedded hplain)
  | unreached hplain => exact absurd hkind (kind_ne_embedded hplain)
  | @embedded b base parameters i old u place hbase hcommand hparameter hvalue =>
    have htarget : target? shape (embeddedAddress b u) = some (base ++ [.index i]) :=
      target?_of_single hbase place
    refine ⟨_, old, u, htarget, ?_, hvalue, rfl, rfl, rfl⟩
    rw [Json.stringAt?_eq_some_iff, Json.valueAt?_append, hcommand]
    exact hparameter

/-! ## The edits of one script call -/

theorem Addressed.callEdits_fit (h : Addressed shape root rows) {path : Path} {old : Text}
    (hold : root.stringAt? path = some old) : ∀ e ∈ callEdits shape rows path, e.Fits old := by
  intro e he
  obtain ⟨row, hrow, hkind, htarget, -, he⟩ := mem_callEdits.mp he
  obtain ⟨path', old', u, htarget', hold', hu, -, hwritten, hspans⟩ := h.script hrow hkind
  obtain rfl : path = path' := Option.some.inj (htarget.symm.trans htarget')
  obtain rfl : old = old' := Option.some.inj (hold.symm.trans hold')
  simp only [replacements, hspans, List.map_map, List.mem_map, hwritten] at he
  obtain ⟨span, hspan, rfl⟩ := he
  exact (ScriptCall.units_sound old).fits hu hspan _

theorem Addressed.callEdits_apart (h : Addressed shape root rows) (path : Path) :
    (callEdits shape rows path).Pairwise fun a b => a.asReplacement.Apart b.asReplacement := by
  rw [callEdits, List.pairwise_flatMap]
  refine ⟨?_, h.independent.imp fun {r s} hind e he e' he' => ?_⟩
  · intro row hrow
    -- the spans of one value
    split
    next hchosen =>
      obtain ⟨path', old, u, -, -, hu, -, -, hspans⟩ := h.script hrow hchosen.1
      have hapart := (List.pairwise_flatMap.mp (ScriptCall.units_sound old).apart).1 u hu
      simp only [replacements, hspans, List.map_map, List.pairwise_map]
      exact hapart.imp fun h => h
    next => exact List.Pairwise.nil
  · -- the spans of two values
    split at he
    next hr =>
      split at he'
      next hs =>
        obtain ⟨x, hx, rfl⟩ := List.mem_map.mp he
        obtain ⟨y, hy, rfl⟩ := List.mem_map.mp he'
        have hapart := (hind path hr.2.1 hs.2.1).apart x hx y hy
        simp only [Replacement.Apart, ScriptCall.Edit.asReplacement]
        omega
      next => cases he'
    next => cases he

end Addressed

/-! ## The script calls at the end -/

theorem finishCall_eq {root : Json} {f : Path → Text → Text} {p : Progress PendingCall}
    (h : p.Shows root f) {call : PendingCall} {old : Text}
    (hold : root.stringAt? call.path = some old) (untouched : f call.path old = old) :
    finishCall p call = p.put call.path (ScriptCall.applyEdits old call.edits) := by
  refine finishCall_of_at? ?_
  have hvalue := h.at? (Json.stringAt?_eq_some_iff.mp hold)
  rw [Json.mapStrings, List.append_nil, untouched] at hvalue
  exact hvalue

/-- Finishing calls of different paths, none of them touched before, gives each of them all its edits
and leaves the other strings alone. -/
theorem finish_run {root : Json} (keyed : root.WellKeyed) {calls : List PendingCall}
    {f : Path → Text → Text} {p : Progress PendingCall} (h : p.Shows root f)
    (distinct : calls.Pairwise fun c c' => c.path ≠ c'.path)
    (untouched : ∀ call ∈ calls, ∃ old, root.stringAt? call.path = some old ∧
      f call.path old = old) :
    ∃ g, (calls.foldl finishCall p).Shows root g ∧
      (∀ path, (∀ call ∈ calls, call.path ≠ path) → g path = f path) ∧
      ∀ call ∈ calls, ∀ old, root.stringAt? call.path = some old →
        g call.path old = ScriptCall.applyEdits old call.edits := by
  induction calls generalizing f p with
  | nil => exact ⟨f, h, fun _ _ => rfl, fun _ hcall => (nomatch hcall)⟩
  | cons c calls ih =>
    obtain ⟨hfirst, hrest⟩ := List.pairwise_cons.mp distinct
    obtain ⟨old, hold, hfree⟩ := untouched c List.mem_cons_self
    have hput := h.put keyed hold hfree (ScriptCall.applyEdits old c.edits)
    rw [← finishCall_eq h hold hfree] at hput
    have hothers : ∀ path, path ≠ c.path →
        putText f c.path (ScriptCall.applyEdits old c.edits) path = f path := by
      intro path hne
      funext s
      rw [putText, if_neg hne]
    obtain ⟨g, hshows, hkept, hgiven⟩ := ih hput hrest fun call hcall => by
      obtain ⟨s, hs, hfree⟩ := untouched call (List.mem_cons_of_mem _ hcall)
      exact ⟨s, hs, by rw [hothers _ (hfirst call hcall).symm, hfree]⟩
    refine ⟨g, hshows, ?_, ?_⟩
    · intro path hpath
      rw [hkept path fun call hcall => hpath call (List.mem_cons_of_mem _ hcall)]
      exact hothers path (hpath c List.mem_cons_self).symm
    · intro call hcall s hs
      rcases List.mem_cons.mp hcall with rfl | hcall
      · rw [hkept call.path fun c' hc' => (hfirst c' hc').symm, putText, if_pos rfl]
        rw [hold] at hs
        cases hs
        rfl
      · exact hgiven call hcall s hs

section Finished

variable {shape : Shape} {root : Json} {rows : List Row} {p : Progress PendingCall}

theorem Collected.paths_distinct (h : Collected shape root rows p)
    (addressed : Addressed shape root rows) :
    p.pending.Pairwise fun c c' => c.path ≠ c'.path := by
  refine (List.pairwise_map.mp h.nodup).imp_of_mem ?_
  intro c c' hc hc' hsite hpath
  obtain ⟨r, hr, -, place, hcontainer, hcommand, htarget⟩ := (h.waiting c hc).target
  have hsite' : c'.site = ⟨r.1.container, r.1.command, c.site.parameter⟩ := by
    refine (h.waiting c' hc').site_eq ?_ place
    intro r' hr' htarget'
    by_cases heq : r' = r
    · exact Or.inl (congrArg Prod.fst heq)
    · exact Or.inr (independent_of_ne addressed.independent hr' hr heq _ htarget' (hpath ▸ htarget))
  rw [hcontainer, hcommand] at hsite'
  exact hsite hsite'.symm

/-- **Once the script calls are finished** every string has become what the rows say. -/
theorem Collected.finished (h : Collected shape root rows p) (keyed : root.WellKeyed)
    (addressed : Addressed shape root rows) :
    (p.pending.foldl finishCall p).Shows root (leafText shape rows) := by
  have hcall : ∀ call ∈ p.pending, ∃ old, root.stringAt? call.path = some old ∧
      plainText? shape rows call.path = none := by
    intro call hcall
    obtain ⟨r, hr, hkind, -, -, -, hpath⟩ := (h.waiting call hcall).target
    obtain ⟨path, old, u, htarget, hold, -⟩ := addressed.script hr hkind
    obtain rfl : path = call.path := Option.some.inj (htarget.symm.trans hpath)
    exact ⟨old, hold, plainText?_of_embedded addressed.independent hr hkind hpath⟩
  obtain ⟨g, hshows, hkept, hgiven⟩ := finish_run keyed h.shows (h.paths_distinct addressed)
    fun call hmem => by
      obtain ⟨old, hold, hnone⟩ := hcall call hmem
      refine ⟨old, hold, ?_⟩
      rw [plainText, hnone]
      rfl
  refine hshows.congr keyed ?_
  intro path old hold
  obtain ⟨-, hreplaced⟩ := ScriptCall.applyEdits_eq_replaceSpans (addressed.callEdits_fit hold)
    (addressed.callEdits_apart path)
  by_cases hwaits : ∃ call ∈ p.pending, call.path = path
  · obtain ⟨call, hmem, rfl⟩ := hwaits
    obtain ⟨-, -, hnone⟩ := hcall call hmem
    rw [hgiven call hmem old hold, (h.waiting call hmem).edits, hreplaced, leafText, hnone]
    rfl
  · have hnoEdits : callEdits shape rows path = [] := by
      by_contra hne
      exact hwaits (h.complete path hne)
    rw [hkept path fun call hmem heq => hwaits ⟨call, hmem, heq⟩, plainText, leafText, hnoEdits]
    rw [List.map_nil, Text.replaceSpans_nil]

end Finished

/-! ## What a reinsertion gives -/

/-- What edited texts make of a value: exactly the addressed strings are replaced. -/
structure Replaced (shape : Shape) (rows : List Row) (before after : Json) : Prop where
  /-- Only strings are replaced, each by what becomes of it. -/
  strings : after = before.mapStrings (leafText shape rows)
  /-- A plain text stands behind its speaker's name, if the command has an array of parameters. -/
  plain : ∀ row ∈ rows, row.1.kind = .plain → ∀ base parameters,
    parametersPath? shape row.1.container (.index row.1.command) = some base →
    before.at? base = some (.arr parameters) →
    after.stringAt? (base ++ steps row.1.parameter) = some (row.1.speaker ++ row.2)
  /-- A script call has the new literals in place of all spans of the values that changed. -/
  embedded : ∀ row ∈ rows, row.1.kind = .embedded → ∃ path old, target? shape row.1 = some path ∧
    before.stringAt? path = some old ∧
    after.stringAt? path =
      some (old.replaceSpans ((callEdits shape rows path).map ScriptCall.Edit.asReplacement))
  /-- Every other string is as it was. -/
  others : ∀ path old, before.stringAt? path = some old →
    (∀ row ∈ rows, target? shape row.1 ≠ some path) → after.stringAt? path = some old

/-- What a text is after edited texts were written back into a document: its value has the addressed
strings replaced, and every character outside the tokens of strings that changed is kept. -/
structure Reinserted (shape : Shape) (document : Json.Document) (rows : List Row) (out : Text) :
    Prop where
  value : ∃ after, Json.read out = .ok after ∧ Replaced shape rows document.value after
  characters : ∃ rs : List Replacement, out = document.text.replaceSpans rs ∧
    (rs.Pairwise fun a b => a.stop ≤ b.start) ∧
    ∀ r, r ∈ rs ↔ ∃ path old, document.value.stringAt? path = some old ∧
      leafText shape rows path old ≠ old ∧ document.locate path = some (r.start, r.stop) ∧
      Json.TokenAt document.text (r.start, r.stop) old ∧
      r.text = Json.quote (leafText shape rows path old)

section Result

variable {shape : Shape} {document : Json.Document} {rows : List Row}

/-- The strings that the rows address are replaced by what they say. -/
theorem Addressed.replaced {root : Json} (h : Addressed shape root rows) :
    Replaced shape rows root (root.mapStrings (leafText shape rows)) where
  strings := rfl
  plain := by
    intro row hrow hkind base parameters hbase hcommand
    obtain ⟨text, hplaced⟩ := h.placed row hrow
    have htarget : target? shape row.1 = some (base ++ steps row.1.parameter) := by
      rw [target?, hbase]
      rfl
    have hnew := plainText?_of_plain h.independent hrow hkind htarget
    obtain ⟨a, new⟩ := row
    cases hplaced with
    | plain _ hbase' hcommand' hparameter =>
      obtain rfl := Option.some.inj (hbase.symm.trans hbase')
      have hold : root.stringAt? (base ++ steps a.parameter) = some (a.speaker ++ text) := by
        rw [Json.stringAt?_eq_some_iff, Json.valueAt?_append, hcommand']
        exact hparameter
      rw [Json.stringAt?_mapStrings, hold, Option.map_some, leafText, hnew]
      rfl
    | embedded => cases hkind
    | unreached _ hbase' hcommand' =>
      obtain rfl := Option.some.inj (hbase.symm.trans hbase')
      rw [Json.at?_of_valueAt? hcommand'] at hcommand
      cases hcommand
  embedded := by
    intro row hrow hkind
    obtain ⟨path, old, u, htarget, hold, -⟩ := h.script hrow hkind
    refine ⟨path, old, htarget, hold, ?_⟩
    rw [Json.stringAt?_mapStrings, hold, Option.map_some, leafText,
      plainText?_of_embedded h.independent hrow hkind htarget]
    rfl
  others := by
    intro path old hold hnone
    have hplain : plainText? shape rows path = none :=
      plainText?_eq_none_iff.mpr fun row hrow _ => hnone row hrow
    have hedits : callEdits shape rows path = [] := by
      refine List.eq_nil_iff_forall_not_mem.mpr ?_
      intro e he
      obtain ⟨row, hrow, -, htarget, -⟩ := mem_callEdits.mp he
      exact hnone row hrow htarget
    rw [Json.stringAt?_mapStrings, hold, Option.map_some, leafText, hplain, hedits, List.map_nil,
      Text.replaceSpans_nil]
    rfl

theorem reinserted_splice (readable : document.Readable)
    (addressed : Addressed shape document.value rows) : Reinserted shape document rows
      (document.splice (changedTexts (leafText shape rows) document.value).changes).text where
  value := by
    refine ⟨_, Json.Document.read_splice readable _, ?_⟩
    rw [Json.mapStrings_changedTexts readable.wellKeyed]
    exact addressed.replaced
  characters := by
    refine ⟨_, Json.Document.splice_text readable _,
      Json.Document.replacements_pairwise readable _, ?_⟩
    intro r
    rw [Json.Document.mem_replacements]
    constructor
    · rintro ⟨path, text, ⟨start, stop⟩, hnew, hspan, rfl⟩
      obtain ⟨old, hold, hne, rfl⟩ := Json.changedTexts_eq_some_iff.mp hnew
      obtain ⟨span, hspan', htoken⟩ := readable.token_of_stringAt? hold
      obtain rfl := Option.some.inj (hspan.symm.trans hspan')
      exact ⟨path, old, hold, hne, hspan, htoken, rfl⟩
    · rintro ⟨path, old, hold, hne, hspan, -, htext⟩
      refine ⟨path, _, _, Json.changedTexts_eq_some_iff.mpr ⟨old, hold, hne, rfl⟩, hspan, ?_⟩
      rw [← htext]

end Result

/-- The texts of an extraction in the order of their rows: each address with some text. -/
theorem addressed_rows {shape : Shape} {root : Json} {units : List EventUnit}
    (placed : ∀ u ∈ units, Placed shape root u)
    (independent : units.Pairwise fun u v => Independent shape u.2 v.2) (edits : Edits) :
    Addressed shape root (Edits.rows (units.map (·.2)) edits) where
  placed := by
    intro row hrow
    obtain ⟨u, hu, heq⟩ := List.mem_map.mp (Edits.fst_mem_of_mem_rows hrow)
    refine ⟨u.1, ?_⟩
    rw [← heq]
    exact placed u hu
  independent := Edits.pairwise_rows (List.pairwise_map.mpr independent) edits

theorem reinsert_addressed {source : Text} {shape : Shape} {document : Json.Document}
    (hread : read source = .ok (shape, document)) {mapping : List EventAddress} {edits : Edits}
    (addressed : Addressed shape document.value (Edits.rows mapping edits)) :
    reinsert source mapping edits = .ok (document.splice
      (changedTexts (leafText shape (Edits.rows mapping edits)) document.value).changes).text := by
  obtain ⟨readable, htext⟩ := document_of_read hread
  have hall : ∃ p, (Edits.rows mapping edits).foldlM
      (fun p row => writeUnit shape p row.1 row.2) { root := document.value } = .ok p ∧
      Collected shape document.value (Edits.rows mapping edits) p :=
    collected_run (collected_start readable.wellKeyed) readable.wellKeyed addressed
  obtain ⟨p, hrun, hcollected⟩ := hall
  have hwritten := (hcollected.finished readable.wellKeyed addressed).written readable
  rw [htext] at hwritten
  rw [Edits.rows, List.foldlM_map] at hrun
  unfold reinsert
  rw [hread, ← hwritten]
  simp only [Except.mapError, bind, Except.bind]
  rw [hrun]
  rfl

/-- With its own texts nothing changes. -/
theorem leafText_own {shape : Shape} {root : Json} {units : List EventUnit}
    (placed : ∀ u ∈ units, Placed shape root u) {path : Path} {old : Text}
    (hold : root.stringAt? path = some old) :
    leafText shape (units.map fun u => (u.2, u.1)) path old = old := by
  have hedits : callEdits shape (units.map fun u => (u.2, u.1)) path = [] := by
    refine List.eq_nil_iff_forall_not_mem.mpr ?_
    intro e he
    obtain ⟨row, hrow, hkind, -, hchanged, -⟩ := mem_callEdits.mp he
    obtain ⟨u, hu, rfl⟩ := List.mem_map.mp hrow
    rcases (placed u hu).kind with hplain | ⟨-, hvalue⟩
    · exact kind_ne_embedded hplain hkind
    · exact hchanged hvalue.symm
  have hplain : plainText? shape (units.map fun u => (u.2, u.1)) path = none ∨
      plainText? shape (units.map fun u => (u.2, u.1)) path = some old := by
    cases hnew : plainText? shape (units.map fun u => (u.2, u.1)) path with
    | none => exact Or.inl rfl
    | some new =>
      obtain ⟨row, hrow, hkind, htarget, rfl⟩ := exists_of_plainText? hnew
      obtain ⟨u, hu, rfl⟩ := List.mem_map.mp hrow
      refine Or.inr (congrArg some ?_)
      cases placed u hu with
      | plain _ hbase hcommand hparameter =>
        rw [target?, hbase] at htarget
        cases htarget
        rw [Json.stringAt?_eq_some_iff, Json.valueAt?_append, hcommand, Option.bind_some,
          hparameter] at hold
        cases hold
        rfl
      | embedded => exact absurd rfl hkind
      | unreached _ hbase hcommand =>
        rw [target?, hbase] at htarget
        cases htarget
        rw [stringAt?_steps_of_str hcommand] at hold
        cases hold
  rw [leafText, hedits, List.map_nil, Text.replaceSpans_nil]
  rcases hplain with h | h
  · rw [h]
    rfl
  · rw [h]
    rfl

/-- **Reinsertion changes exactly the addressed values.** For every source that the extraction reads:
whatever list of edits is written back at the extracted addresses, no address fails, and the outcome
is the source with these values replaced and every other character kept. The extracted texts give the
source back. -/
theorem reinsert_extracted {scripts : Bool} {source : Text} {units : List EventUnit}
    (h : extract scripts source = .ok units) : ∃ shape document,
      read source = .ok (shape, document) ∧ document.text = source ∧
      Json.read source = .ok document.value ∧
      (∀ u ∈ units, u.2.kind = .plain ∨ u.2.kind = .embedded ∧ u.2.value = u.1) ∧
      (∀ edits : Edits, ∃ out, reinsert source (units.map (·.2)) edits = .ok out ∧
        Reinserted shape document (Edits.rows (units.map (·.2)) edits) out) ∧
      reinsert source (units.map (·.2)) (Edits.own units) = .ok source := by
  obtain ⟨shape, document, hread, placed, independent⟩ := extract_sound h
  obtain ⟨readable, htext⟩ := document_of_read hread
  have haddressed := addressed_rows placed independent
  refine ⟨shape, document, hread, htext, ?_, fun u hu => (placed u hu).kind, ?_, ?_⟩
  · rw [← htext, Json.read, readable.read]
    rfl
  · intro edits
    exact ⟨_, reinsert_addressed hread (haddressed edits),
      reinserted_splice readable (haddressed edits)⟩
  · rw [reinsert_addressed hread (haddressed _), Edits.rows_own]
    have hsame : changedTexts (leafText shape (units.map fun u => (u.2, u.1))) document.value =
        fun _ => none := by
      funext path
      cases hold : document.value.stringAt? path with
      | none => rw [changedTexts, hold, Option.bind_none]
      | some old => rw [changedTexts, hold, Option.bind_some, if_pos (leafText_own placed hold)]
    rw [hsame, Json.Document.splice_text readable, Json.Document.replacements_none, htext,
      Text.replaceSpans_nil]

/-- The label of a choice, among parameters whose key stands twice. -/
theorem label_behind_twofold_key_written :
    let source :=
      "[\x7b\"list\":[\x7b\"code\":402,\"parameters\":7,\"parameters\":[0,\"\\u004eo\"]\x7d]\x7d]".toList
    let expected :=
      "[\x7b\"list\":[\x7b\"code\":402,\"parameters\":7,\"parameters\":[0,\"Ann\"]\x7d]\x7d]".toList
    ∃ units shape document, extract false source = .ok units ∧ units.map (·.1) = ["No".toList] ∧
      read source = .ok (shape, document) ∧
      Reinserted shape document (Edits.rows (units.map (·.2)) [some "Ann".toList]) expected ∧
      reinsert source (units.map (·.2)) (Edits.own units) = .ok source := by
  intro source expected
  have htexts : (extract false source).toOption.map (·.map (·.1)) = some ["No".toList] := by
    decide +kernel
  have hwritten : ((extract false source).toOption.bind fun units =>
      (reinsert source (units.map (·.2)) [some "Ann".toList]).toOption) =
        some expected := by
    decide +kernel
  cases h : extract false source with
  | error cause =>
    rw [h] at htexts
    cases htexts
  | ok units =>
    obtain ⟨shape, document, hread, -, -, -, hall, hown⟩ := reinsert_extracted h
    obtain ⟨out, hout, hreinserted⟩ := hall [some "Ann".toList]
    rw [h] at htexts hwritten
    simp only [Except.toOption, Option.bind_some, hout, Option.some_inj] at hwritten
    rw [hwritten] at hreinserted
    exact ⟨units, shape, document, rfl, Option.some.inj htexts, hread, hreinserted, hown⟩

end EventData

end GameText
