import GameText.Proofs.Desktop.TableActs
import GameText.Proofs.StoreHistory
import GameText.Proofs.Upload

/-!
# The lists of the window

The window keeps three rows side by side: the documents of the session, their identifiers in the
store, and the labels of the list of documents; the table shows the document at the current row.
After whatever has happened in the window, also what ended in a failure, the rows belong to one
another (`lists_aligned`).

An action is judged by what it does to these lists (`Arrangement`). Most actions leave them alone,
work on the table announces what a label depends on, and the actions that add or remove documents
end with making the list anew, which needs nothing of the list that was there
(`Arrangement.Ready`).

Opened documents are taken out of the store at once. By the same reading of its clock either all of
them are found or none is, so an upload that is cut short has added no document.
-/

namespace GameText

/-- What the lists of a window are made of. -/
structure Arrangement where
  bench : Workbench
  documentIds : List (Option Text)
  labels : List Text
  row : Option Nat
  store : Store

/-- The arrangement of a window. -/
def Window.arrangement (w : Window) : Arrangement :=
  ⟨w.bench, w.documentIds, w.labels, w.row, w.store⟩

namespace Arrangement

/-- The documents. -/
def documents (a : Arrangement) : List SessionDocument := a.bench.session.documents

/-- What must hold before the list of documents is made anew. -/
structure Ready (a : Arrangement) : Prop where
  ids : a.documentIds.length = a.documents.length
  quiet : a.bench.events = []
  store : a.store.Sound

/-- The lists belong to one another. If only rows of the list are ever chosen, a row is current
whenever there is a document. -/
structure Aligned (chosen : Prop) (a : Arrangement) : Prop extends Ready a where
  labels : a.labels = a.documents.map Window.label
  shown : a.bench.table.shown = a.row
  inside : ∀ i, a.row = some i → i < a.documents.length
  current : chosen → a.row = none → a.documents = []

end Arrangement

/-! ## Uploads and the store -/

namespace Store

variable {s t : Store} {now : Number} {options : ExtractionOptions}

/-- Each document that an upload tells of is in the store, put there just now with its texts. -/
def Brought (s : Store) (now : Number) (results : List UploadResult) : Prop :=
  ∀ result ∈ results, ∀ id, result.id? = some id → ∃ document extraction,
    lookup? id s.entries = some ⟨document, some extraction, now⟩

theorem upload_eq_ok {file : Text × Bytes} {result : UploadResult}
    (h : s.upload now options file.1 file.2 = .ok (result, t)) :
    (t = s ∧ result.id? = none) ∨
      ∃ d e, t = (s.put now d (some e)).2 ∧ result.id? = some (idOf s.issued) := by
  cases hextract : Document.extract options file.1 file.2 with
  | ok extracted =>
    obtain ⟨d, e⟩ := extracted
    rw [upload_of_extract s hextract] at h
    cases h
    exact .inr ⟨d, e, rfl, UploadResult.id?_ofStored ..⟩
  | error cause =>
    unfold upload at h
    rw [hextract] at h
    cases cause with
    | source cause =>
      cases h
      exact .inl ⟨rfl, rfl⟩
    | _ => cases h

theorem Sound.uploadAll (h : Sound s) (files : List (Text × Bytes)) :
    Sound (s.uploadAll now options files).2 := by
  induction files generalizing s with
  | nil => exact h
  | cons file files ih =>
    cases hupload : s.upload now options file.1 file.2 with
    | error cause =>
      rw [uploadAll_of_upload_error s hupload]
      exact h
    | ok uploaded =>
      obtain ⟨result, t⟩ := uploaded
      rw [uploadAll_of_upload s hupload]
      rcases upload_eq_ok hupload with ⟨rfl, -⟩ | ⟨d, e, rfl, -⟩
      · exact ih h
      · exact ih (h.put now d (some e))

/-- A complete upload has brought its documents, and what was there before is still there. -/
theorem Sound.brought_uploadAll (h : Sound s) {files : List (Text × Bytes)}
    {results : List UploadResult} (hupload : s.uploadAll now options files = (.ok results, t)) :
    t.Brought now results ∧
      ∀ id item, lookup? id s.entries = some item → lookup? id t.entries = some item := by
  induction files generalizing s results with
  | nil =>
    cases hupload
    exact ⟨nofun, fun _ _ hitem => hitem⟩
  | cons file files ih =>
    cases hfirst : s.upload now options file.1 file.2 with
    | error cause =>
      rw [uploadAll_of_upload_error s hfirst] at hupload
      cases hupload
    | ok uploaded =>
      obtain ⟨result, u⟩ := uploaded
      rw [uploadAll_of_upload s hfirst] at hupload
      obtain ⟨hresults, ht⟩ := Prod.mk.inj hupload
      cases hrest : (u.uploadAll now options files).1 with
      | error cause =>
        rw [hrest] at hresults
        cases hresults
      | ok rest =>
        rw [hrest] at hresults
        cases hresults
        have hu : u.uploadAll now options files = (.ok rest, t) := Prod.ext hrest ht
        rcases upload_eq_ok hfirst with ⟨rfl, hid⟩ | ⟨d, e, rfl, hid⟩
        · obtain ⟨hbrought, hkept⟩ := ih h hu
          refine ⟨List.forall_mem_cons.mpr ⟨fun id hsome => ?_, hbrought⟩, hkept⟩
          rw [hid] at hsome
          cases hsome
        · obtain ⟨hbrought, hkept⟩ := ih (h.put now d (some e)) hu
          refine ⟨List.forall_mem_cons.mpr ⟨fun id hsome => ?_, hbrought⟩, fun id item hitem => ?_⟩
          · obtain rfl := Option.some.inj (hid.symm.trans hsome)
            refine ⟨d, e, hkept _ _ ?_⟩
            rw [lookup?_put h, if_pos rfl]
          · refine hkept id item ?_
            have hne : idOf s.issued ≠ id := fun heq =>
              h.not_mem (List.mem_map.mpr ⟨_, mem_of_lookup? hitem, heq.symm⟩)
            rw [lookup?_put h, if_neg hne, hitem]

end Store

/-! ## Work on the table -/

namespace Workbench

/-- The same document is shown, none was added or closed, and what labels depend on is announced. -/
structure Tells (b b' : Workbench) : Prop where
  shown : b'.table.shown = b.table.shown
  length : b'.session.documents.length = b.session.documents.length
  told : .changed ∈ b'.events ∨
    b'.session.documents.map Window.label = b.session.documents.map Window.label

theorem Tells.of_session {b b' : Workbench} (hshown : b'.table.shown = b.table.shown)
    (hsession : b'.session = b.session) : b.Tells b' :=
  ⟨hshown, by rw [hsession], .inr (by rw [hsession])⟩

theorem Tells.refl (b : Workbench) : b.Tells b := .of_session rfl rfl

theorem applyFilter_shown (b : Workbench) : b.applyFilter.table.shown = b.table.shown := by
  unfold applyFilter
  split
  · rfl
  · split <;> rfl

theorem tells_search (b : Workbench) (text : Text) : b.Tells (b.search text) := by
  unfold search
  split
  · exact .refl b
  · exact .of_session rfl rfl

theorem tells_filterTimeout (b : Workbench) : b.Tells b.filterTimeout := by
  unfold filterTimeout
  split
  · exact .of_session (applyFilter_shown _) (applyFilter_session _)
  · exact .refl b

theorem tells_chooseStatus (b : Workbench) (name : Text) : b.Tells (b.chooseStatus name) := by
  unfold chooseStatus
  split
  · exact .refl b
  · split
    · exact .refl b
    · exact .of_session (applyFilter_shown _) (applyFilter_session _)

theorem fillPanes_shown (b : Workbench) (row : Option Nat) :
    (b.fillPanes row).table.shown = b.table.shown := by
  unfold fillPanes
  split <;> rfl

theorem tells_select (b : Workbench) (rows : List Int) (cursor : Int) :
    b.Tells (b.select rows cursor) := by
  simp only [select]
  split
  · exact .of_session rfl rfl
  · exact .of_session (fillPanes_shown _ _) (fillPanes_session _ _)

theorem tells_setDark (b : Workbench) (dark : Bool) : b.Tells (b.setDark dark) := by
  simp only [setDark]
  split
  · exact .of_session rfl rfl
  · exact .of_session rfl rfl

theorem changed_of_refreshRow {b : Workbench} {row : Nat} (h : row < b.table.rows.length) :
    .changed ∈ (b.refreshRow (some row)).events := by
  rw [refreshRow, if_pos (by simpa using h)]
  exact List.mem_append_right _ (List.mem_singleton.mpr rfl)

/-- Texts that were put in where a row of the table was refreshed. -/
theorem Wrote.tells {b b' : Workbench} {ws : List Write} (h : b.Wrote ws b')
    (htold : ws = [] ∨ .changed ∈ b'.events) : b.Tells b' where
  shown := h.shown
  length := by
    rw [h.documents]
    have hmap := congrArg List.length
      (map_putAll (f := fun _ => ()) (fun _ _ _ => rfl) ws b.session.documents)
    simpa using hmap
  told := by
    rcases htold with rfl | hchanged
    · exact .inr (by rw [h.documents]; rfl)
    · exact .inl hchanged

theorem unitAt_eq_some {t : Table} {row : Int} {unit : Nat} (h : t.unitAt row = some unit) :
    ∃ r, t.row? row = some r ∧ r < t.rows.length ∧ t.rows[r]? = some unit := by
  obtain ⟨r, hr, hunit⟩ := Option.bind_eq_some_iff.mp h
  exact ⟨r, hr, (List.getElem?_eq_some_iff.mp hunit).1, hunit⟩

theorem tells_editCell (b : Workbench) (cell : CellIndex) (role : CellRole) (text : Text) :
    b.Tells (b.editCell cell role text).2 := by
  refine (wrote_editCell b cell role text).tells ?_
  unfold editCell cellWrites
  by_cases hedit : role = .edit ∧ Table.isEditable cell
  · cases hunit : b.table.unitAt cell.row with
    | none => exact .inl (by simp)
    | some unit =>
      obtain ⟨r, hr, hlt, -⟩ := unitAt_eq_some hunit
      refine .inr ?_
      simp only [hedit, and_self, if_true, hr]
      exact changed_of_refreshRow (by rwa [write_table])
  · exact .inl (if_neg hedit)

theorem tells_type (b : Workbench) (text : Text) : b.Tells (b.type text) := by
  have hwrote := (wrote_type b text).tells ?_
  · exact ⟨hwrote.shown, hwrote.length, hwrote.told⟩
  simp only [type, typeWrites]
  cases hunit : b.table.selectedRow.bind (b.table.rows[·]?) with
  | none => exact .inl rfl
  | some unit =>
    obtain ⟨r, hr, hget⟩ := Option.bind_eq_some_iff.mp hunit
    have hlt := (List.getElem?_eq_some_iff.mp hget).1
    refine .inr ?_
    rw [hr]
    exact changed_of_refreshRow (by rwa [write_table])

theorem changed_of_clear {b : Workbench} {unit : Nat} (h : unit ∈ b.table.rows) :
    .changed ∈ (b.clear unit).events := by
  have hfound : (b.table.rowOf unit).isSome := by
    rw [Table.rowOf, List.findIdx?_isSome, List.any_eq_true]
    exact ⟨unit, h, beq_self_eq_true _⟩
  obtain ⟨row, hrow⟩ := Option.isSome_iff_exists.mp hfound
  have hlt := (List.findIdx?_eq_some_iff_getElem.mp hrow).1
  rw [clear, hrow]
  exact changed_of_refreshRow (by rwa [write_table])

theorem events_foldl_clear (units : List Nat) {b : Workbench} (h : .changed ∈ b.events) :
    .changed ∈ (units.foldl clear b).events := by
  induction units generalizing b with
  | nil => exact h
  | cons unit units ih =>
    refine ih ?_
    have hwrite : .changed ∈ (b.write unit []).events := by
      unfold write
      split
      · exact h
      · exact h
    unfold clear refreshRow
    split
    · exact List.mem_append_left _ hwrite
    · exact hwrite

theorem tells_chooseEntry (b : Workbench) (entry : Option Text) :
    b.Tells (b.chooseEntry entry) := by
  refine (wrote_chooseEntry b entry).tells ?_
  simp only [entryWrites, chooseEntry]
  by_cases hclear : entry = some clearEntry
  · cases hunits : b.table.highlightedUnits with
    | nil => exact .inl (by simp)
    | cons unit units =>
      have hmem : unit ∈ b.table.rows := by
        have hhead : unit ∈ b.table.highlightedUnits := hunits ▸ List.mem_cons_self
        obtain ⟨row, hrow, rfl⟩ := List.mem_map.mp hhead
        exact List.fst_mem_of_mem_zipIdx (List.mem_filter.mp hrow).1
      have hother : some clearEntry ≠ some (translateEntry (unit :: units)) := fun heq =>
        translateEntry_ne_clearEntry _ (Option.some.inj heq).symm
      refine .inr ?_
      rw [hclear, List.isEmpty_cons, if_neg Bool.false_ne_true, if_neg hother, if_pos rfl]
      exact events_foldl_clear units (changed_of_clear hmem)
  · exact .inl (if_neg hclear)

end Workbench

namespace Window

open Arrangement (Aligned Ready)

/-! ## Actions -/

/-- The action leaves aligned lists aligned, also where it fails. -/
def Maintains {α : Type} (chosen : Prop) (a : Act α) : Prop :=
  ∀ w : Window, w.arrangement.Aligned chosen → (a w).2.arrangement.Aligned chosen

instance : Apart arrangement := ⟨fun _ _ => rfl, fun _ _ => rfl, fun _ _ => rfl⟩

section Maintains

variable {α β : Type} {chosen : Prop}

theorem Keeps.maintains {a : Act α} (h : Keeps arrangement a) : Maintains chosen a := by
  intro w hw
  rwa [h w]

theorem maintains_bind {a : Act α} {k : α → Act β} (ha : Maintains chosen a)
    (hk : ∀ x, Maintains chosen (k x)) : Maintains chosen (a >>= k) := by
  intro w hw
  have hfirst := ha w hw
  rw [bind_run]
  generalize a w = outcome at hfirst ⊢
  obtain ⟨x | x, w'⟩ := outcome
  · exact hfirst
  · exact hk x w' hfirst

/-- Where the lists are made anew of the labels that are there, they are all of them. -/
theorem relabelled {ds : List SessionDocument} {labels : List Text}
    (h : labels.length = ds.length) :
    (ds.map label).take labels.length ++ labels.drop ds.length = ds.map label := by
  rw [h, ← List.length_map label, List.take_length, List.length_map, ← h, List.drop_length,
    List.append_nil]

/-- What work on the table does to the lists. -/
theorem work_arrangement (f : Workbench → Workbench) (w : Window) :
    (work f w).2.arrangement =
      { w.arrangement with
        bench := { f w.bench with events := [] }
        labels := if TableEvent.changed ∈ (f w.bench).events then
            ((f w.bench).session.documents.map label).take w.labels.length ++
              w.labels.drop (f w.bench).session.documents.length
          else w.labels } := by
  simp only [work, run_get, run_change]
  by_cases hchanged : TableEvent.changed ∈ (f w.bench).events
  · rw [if_pos (List.contains_iff_mem.mpr hchanged)]
    refine (bind_keeps (f := arrangement) (fun _ => keeps_answer _) _).trans ?_
    rw [if_pos hchanged]
    rfl
  · rw [if_neg (fun h => hchanged (List.contains_iff_mem.mp h))]
    refine (keeps_answer (f := arrangement) _ _).trans ?_
    rw [if_neg hchanged]
    rfl

/-- The labels after work on the table, if they were those of as many documents before. -/
theorem work_labels {b : Workbench} {labels : List Text} {ds : List SessionDocument}
    (hlabels : labels = ds.map label) (hlength : b.session.documents.length = ds.length)
    (htold : .changed ∈ b.events ∨ b.session.documents.map label = ds.map label) :
    (if TableEvent.changed ∈ b.events then
        (b.session.documents.map label).take labels.length ++
          labels.drop b.session.documents.length
      else labels) = b.session.documents.map label := by
  split
  case isTrue => exact relabelled (by rw [hlabels, List.length_map, hlength])
  case isFalse hquiet => exact hlabels.trans (htold.resolve_left hquiet).symm

/-- Work that tells of its changes keeps the lists aligned. -/
theorem aligned_work {f : Workbench → Workbench} {w : Window} (hw : w.arrangement.Aligned chosen)
    (htells : w.bench.Tells (f w.bench)) : (work f w).2.arrangement.Aligned chosen := by
  have hlength : (f w.bench).session.documents.length = w.documents.length := htells.length
  rw [work_arrangement]
  refine ⟨⟨?_, rfl, hw.store⟩, ?_, ?_, ?_, ?_⟩
  · exact hw.ids.trans hlength.symm
  · exact work_labels hw.labels hlength htells.told
  · exact htells.shown.trans hw.shown
  · intro i hi
    exact (hw.inside i hi).trans_eq hlength.symm
  · intro hchosen hnone
    have hempty : w.documents = [] := hw.current hchosen hnone
    exact List.eq_nil_of_length_eq_zero (hlength.trans (by rw [hempty]; rfl))

theorem maintains_work {f : Workbench → Workbench} (h : ∀ b : Workbench, b.Tells (f b)) :
    Maintains chosen (work f) := fun w hw => aligned_work hw (h w.bench)

/-- What follows an action that keeps the lists aligned may show something. -/
theorem aligned_bind {a : Act α} {k : α → Act β} {w : Window}
    (ha : (a w).2.arrangement.Aligned chosen) (hk : ∀ x, Keeps arrangement (k x)) :
    ((a >>= k) w).2.arrangement.Aligned chosen := by
  rwa [bind_keeps hk]

/-! ## The list of documents -/

/-- Showing the document of the current row aligns the table with the list. -/
theorem aligned_show {w : Window} (hready : w.arrangement.Ready)
    (hlabels : w.labels = w.documents.map label) {document : Option Nat} (hrow : w.row = document)
    (hinside : ∀ i, document = some i → i < w.documents.length)
    (hcurrent : chosen → document = none → w.documents = []) :
    (work (·.showDocument document) w).2.arrangement.Aligned chosen := by
  have hsession : (w.bench.showDocument document).session = w.bench.session :=
    Workbench.applyFilter_session _
  rw [work_arrangement]
  refine ⟨⟨?_, rfl, hready.store⟩, ?_, ?_, ?_, ?_⟩
  · show _ = (w.bench.showDocument document).session.documents.length
    rw [hsession]
    exact hready.ids
  · exact work_labels hlabels (by rw [hsession]; rfl) (.inr (by rw [hsession]; rfl))
  · exact (Workbench.applyFilter_shown _).trans hrow.symm
  · intro i hi
    show i < (w.bench.showDocument document).session.documents.length
    rw [hsession]
    exact hinside i (hrow.symm.trans hi)
  · intro hchosen hnone
    show (w.bench.showDocument document).session.documents = []
    rw [hsession]
    exact hcurrent hchosen (hrow.symm.trans hnone)

/-- Making another row of the list current shows its document. -/
theorem setRow_eq {w : Window} {row : Option Nat} (hnew : row ≠ w.row)
    (hinside : ∀ i, row = some i → i < w.documents.length) :
    setRow row w = (work (·.showDocument row) >>= fun _ => pure ()) { w with row } := by
  have hfilter : row.filter (· < w.documents.length) = row := by
    cases row with
    | none => rfl
    | some i => exact Option.filter_some_pos (by simpa using hinside i rfl)
  simp only [setRow, run_get]
  rw [if_neg hnew, hfilter]
  rfl

/-- Making another row current aligns the table with the list. -/
theorem aligned_setRow {w : Window} (hready : w.arrangement.Ready)
    (hlabels : w.labels = w.documents.map label) {row : Option Nat} (hnew : row ≠ w.row)
    (hinside : ∀ i, row = some i → i < w.documents.length)
    (hcurrent : chosen → row = none → w.documents = []) :
    (setRow row w).2.arrangement.Aligned chosen := by
  rw [setRow_eq hnew hinside]
  refine aligned_bind ?_ fun _ => keeps_pure _
  refine aligned_show (w := { w with row }) ?_ hlabels rfl hinside hcurrent
  exact ⟨hready.ids, hready.quiet, hready.store⟩

/-- **Made anew, the lists are aligned**, also where the document that is to be shown cannot be
listed. -/
theorem aligned_listDocuments {w : Window} (hready : w.arrangement.Ready) (near : Nat) :
    (listDocuments near w).2.arrangement.Aligned chosen := by
  simp only [listDocuments, run_change, run_get]
  split
  case isTrue hisEmpty =>
    have hempty : w.documents = [] := List.isEmpty_iff.mp hisEmpty
    refine aligned_bind ?_ fun _ => keeps_change fun _ => by rfl
    refine aligned_show ?_ rfl rfl nofun fun _ _ => hempty
    exact ⟨hready.ids, hready.quiet, hready.store⟩
  case isFalse hisEmpty =>
    have hne : w.documents ≠ [] := fun hempty => hisEmpty (List.isEmpty_iff.mpr hempty)
    have hpos := List.length_pos_iff.mpr hne
    refine aligned_bind ?_ fun _ => keeps_change fun _ => by rfl
    refine aligned_setRow ?_ rfl ?_ ?_ ?_
    · exact ⟨hready.ids, hready.quiet, hready.store⟩
    · exact nofun
    · rintro i hi
      obtain rfl := Option.some.inj hi
      show min near (w.documents.length - 1) < w.documents.length
      omega
    · exact fun _ hnone => absurd hnone nofun

/-! ## Opening, closing and loading -/

theorem maintains_closeDocument : Maintains chosen closeDocument := by
  intro w hw
  simp only [closeDocument, run_get]
  cases hcurrent : w.current? with
  | none => exact hw
  | some current =>
    obtain ⟨i, d⟩ := current
    simp only
    split
    · exact hw
    · simp only [run_change]
      refine aligned_listDocuments ?_ i
      refine ⟨?_, hw.quiet, ?_⟩
      · show (w.documentIds.eraseIdx i).length = (w.documents.eraseIdx i).length
        rw [List.length_eraseIdx, List.length_eraseIdx,
          show w.documentIds.length = w.documents.length from hw.ids]
      · dsimp only [arrangement]
        split
        · split
          · exact hw.store
          · exact hw.store.filter _
        · exact hw.store

theorem aligned_install {w : Window} (hw : w.arrangement.Aligned chosen) (path : Text)
    (session : Session) : (install path session w).2.arrangement.Aligned chosen := by
  simp only [install, run_change]
  refine aligned_bind (aligned_listDocuments ?_ 0) fun _ => ?_
  · exact ⟨List.length_replicate, hw.quiet, hw.store⟩
  · exact keeps_bind (keeps_say _ _) fun _ => keeps_change fun _ => rfl

theorem maintains_loadSession (path : Text) : Maintains chosen (loadSession path) := by
  intro w hw
  simp only [loadSession, run_get]
  refine maintains_bind (keeps_show _).maintains (fun _ => ?_) w hw
  split
  · exact (keeps_pure _).maintains
  · split
    · exact (keeps_throw _).maintains
    · exact (keeps_warn _ _ _).maintains
    · exact fun w' hw' => aligned_install hw' path _

/-! ## Opening -/

theorem adopt_stale {w : Window} {id : Text} {item : StoredDocument}
    (hitem : lookup? id w.store.entries = some item)
    (hstale : w.store.isStale w.storeClock item = true) :
    adopt id w = (.error (.error (.misfit .noSuchPart)),
      { w with store := w.store.without id }) := by
  simp only [adopt, run_get, Store.get, hitem, hstale, if_true]
  rfl

theorem adopt_found {w : Window} {id : Text} {d : Document} {e : Extraction} {touched : Number}
    (hitem : lookup? id w.store.entries = some ⟨d, some e, touched⟩)
    (hstale : w.store.isStale w.storeClock ⟨d, some e, touched⟩ = false) :
    adopt id w = (.ok (),
      { w with
        store := { w.store with
          entries := assign id ⟨d, some e, w.storeClock⟩ w.store.entries }
        bench := { w.bench with
          session := ⟨w.documents ++ [SessionDocument.new d e []]⟩ }
        documentIds := w.documentIds ++ [some id]
        identities := w.identities ++ [w.nextIdentity]
        nextIdentity := w.nextIdentity + 1 }) := by
  simp only [adopt, run_get, Store.get, hitem, hstale, Bool.false_eq_true, if_false]
  rfl

/-- A document that was put into the store just now is as old as any other. -/
theorem isStale_new (s : Store) (now : Number) (d : Document) (e : Extraction) :
    s.isStale now ⟨d, some e, now⟩ = (!s.lifetime.isZero && s.lifetime.lt (now.sub now)) := rfl

/-- Documents that do not grow stale at once are all added. -/
theorem adoptAll_found {results : List UploadResult} {w : Window} (hready : w.arrangement.Ready)
    (hbrought : w.store.Brought w.storeClock results)
    (hlasts : (!w.store.lifetime.isZero &&
      w.store.lifetime.lt (w.storeClock.sub w.storeClock)) = false) :
    ∃ w', adoptAll results w = (.ok (), w') ∧ w'.arrangement.Ready := by
  induction results generalizing w with
  | nil => exact ⟨w, rfl, hready⟩
  | cons result results ih =>
    obtain ⟨hfirst, hrest⟩ := List.forall_mem_cons.mp hbrought
    cases result with
    | unsupported => exact ih hready hrest hlasts
    | invalid => exact ih hready hrest hlasts
    | extracted id format filename texts =>
      obtain ⟨d, e, hitem⟩ := hfirst id rfl
      have hstale := (isStale_new w.store w.storeClock d e).trans hlasts
      rw [adoptAll, bind_run, adopt_found hitem hstale]
      refine ih ⟨?_, hready.quiet, ?_⟩ ?_ hlasts
      · show (w.documentIds ++ [_]).length = (w.documents ++ [_]).length
        rw [List.length_append, List.length_append,
          show w.documentIds.length = w.documents.length from hready.ids]
        rfl
      · have hget := hready.store.get w.storeClock id
        simp only [Store.get, show w.arrangement.store = w.store from rfl, hitem, hstale,
          Bool.false_eq_true, if_false] at hget
        exact hget
      · intro later hlater k hk
        obtain ⟨d', e', hlookup⟩ := hrest later hlater k hk
        show ∃ document extraction, lookup? k (assign id _ w.store.entries) = _
        rw [lookup?_assign]
        split
        · exact ⟨d, e, rfl⟩
        · exact ⟨d', e', hlookup⟩

/-- Documents that grow stale at once are not added. -/
theorem adoptAll_stale {results : List UploadResult} {w : Window} (hready : w.arrangement.Ready)
    (hbrought : w.store.Brought w.storeClock results)
    (hstale : (!w.store.lifetime.isZero &&
      w.store.lifetime.lt (w.storeClock.sub w.storeClock)) = true) :
    adoptAll results w = (.ok (), w) ∨
      ∃ fault store, adoptAll results w = (.error fault, { w with store }) ∧ store.Sound := by
  induction results with
  | nil => exact .inl rfl
  | cons result results ih =>
    obtain ⟨hfirst, hrest⟩ := List.forall_mem_cons.mp hbrought
    cases result with
    | unsupported => exact ih hrest
    | invalid => exact ih hrest
    | extracted id format filename texts =>
      obtain ⟨d, e, hitem⟩ := hfirst id rfl
      have hadopt := adopt_stale hitem ((isStale_new ..).trans hstale)
      refine .inr ⟨.error (.misfit .noSuchPart), w.store.without id, ?_, hready.store.filter _⟩
      rw [adoptAll, bind_run, hadopt]

theorem aligned_withStore {w : Window} (hw : w.arrangement.Aligned chosen) {store : Store}
    (hstore : store.Sound) : Aligned chosen { w with store }.arrangement :=
  ⟨⟨hw.ids, hw.quiet, hstore⟩, hw.labels, hw.shown, hw.inside, hw.current⟩

theorem takeIn_eq (files : List (Text × Bytes)) (w : Window) :
    takeIn files w =
      let outcome := w.store.uploadAll w.storeClock { macroTexts := w.settings.macroTexts } files
      (outcome.1.mapError .error, { w with store := outcome.2 }) := by
  simp only [takeIn, run_get]
  generalize w.store.uploadAll w.storeClock _ files = outcome
  obtain ⟨cause | results, store⟩ := outcome <;> rfl

/-- Files are taken in and the list is made anew, or no document was added. -/
theorem maintains_bring (files : List (Text × Bytes)) (near : Nat)
    {k : List UploadResult → Act Unit} (hk : ∀ results, Keeps arrangement (k results)) :
    Maintains chosen (do
      let results ← takeIn files
      adoptAll results
      listDocuments near
      k results) := by
  intro w hw
  have hstore : w.store.Sound := hw.store
  let options : ExtractionOptions := { macroTexts := w.settings.macroTexts }
  have hsound : (w.store.uploadAll w.storeClock options files).2.Sound := hstore.uploadAll files
  have hbring {results : List UploadResult} {store : Store}
      (h : w.store.uploadAll w.storeClock options files = (.ok results, store)) :
      store.Brought w.storeClock results := (hstore.brought_uploadAll h).1
  rw [bind_run, takeIn_eq]
  generalize w.store.uploadAll w.storeClock _ files = outcome at hsound hbring ⊢
  obtain ⟨cause | results, store⟩ := outcome
  · exact aligned_withStore hw hsound
  · have hbrought := hbring rfl
    have hbefore := aligned_withStore hw hsound
    show Aligned chosen ((adoptAll results >>= fun _ => listDocuments near >>= fun _ => k results)
      { w with store }).2.arrangement
    rw [bind_run]
    cases hlasts :
        (!store.lifetime.isZero && store.lifetime.lt (w.storeClock.sub w.storeClock)) with
    | false =>
      obtain ⟨w', hadopt, hready⟩ :=
        adoptAll_found (w := { w with store }) hbefore.toReady hbrought hlasts
      rw [hadopt]
      exact aligned_bind (aligned_listDocuments hready near) fun _ => hk results
    | true =>
      rcases adoptAll_stale (w := { w with store }) hbefore.toReady hbrought hlasts with
        hadopt | ⟨fault, store', hadopt, hstore'⟩
      · rw [hadopt]
        exact aligned_bind (aligned_listDocuments hbefore.toReady near) fun _ => hk results
      · rw [hadopt]
        exact aligned_withStore hbefore hstore'

theorem maintains_openDocuments (paths : List Text) : Maintains chosen (openDocuments paths) := by
  refine maintains_bind keeps_get.maintains fun w => ?_
  refine maintains_bind (keeps_show _).maintains fun _ => ?_
  split
  · exact (keeps_pure _).maintains
  · refine maintains_bind (keeps_change fun _ => by rfl).maintains fun _ => ?_
    refine maintains_bind keeps_keepSettings.maintains fun _ => ?_
    refine maintains_bind keeps_get.maintains fun _ => ?_
    refine maintains_bring _ _ fun results => ?_
    refine keeps_bind keeps_get fun _ => ?_
    refine keeps_bind (keeps_say _ _) fun _ => ?_
    dsimp only
    split
    · exact keeps_pure _
    · exact keeps_warn _ _ _

/-! ## Settings -/

theorem maintains_visitSettings (visit : FormVisit) : Maintains chosen (visitSettings visit) := by
  refine maintains_bind keeps_get.maintains fun w => ?_
  dsimp only
  refine maintains_bind (keeps_change fun _ => by rfl).maintains fun _ => ?_
  split
  · exact (keeps_throw _).maintains
  · refine maintains_bind (keeps_show _).maintains fun _ => ?_
    split
    · refine maintains_bind ?_ fun _ => maintains_bind keeps_keepSettings.maintains fun _ =>
        maintains_bind (maintains_work fun b => Workbench.tells_setDark b _) fun _ =>
          (keeps_pure _).maintains
      exact fun w hw => aligned_withStore hw ⟨hw.store.distinct, hw.store.issued⟩
    · exact (keeps_pure _).maintains

/-! ## Runs -/

theorem keeps_deal (jobs : List Job) : Keeps arrangement (deal jobs) := fun _ => rfl

theorem keeps_startRun (jobs : List Job) : Keeps arrangement (startRun deal jobs) := by
  intro w
  simp only [startRun, run_get]
  split
  · rfl
  · split
    · rfl
    · refine keeps_bind (keeps_change fun _ => by rfl) (fun _ => ?_) w
      split
      · exact keeps_warn _ _ _
      · exact keeps_bind (keeps_change fun _ => by rfl) fun _ => keeps_deal jobs

theorem keeps_translateAll : Keeps arrangement (translateAll deal) := by
  refine keeps_bind keeps_get fun w => ?_
  split
  · exact keeps_startRun _
  · exact keeps_throw _

theorem keeps_translateUnits (units : List Nat) :
    Keeps arrangement (translateUnits deal units) := by
  refine keeps_bind keeps_get fun w => ?_
  split
  · exact keeps_pure _
  · split
    · exact keeps_startRun _
    · exact keeps_throw _

theorem keeps_translateDocument : Keeps arrangement (translateDocument deal) := by
  refine keeps_bind keeps_get fun w => ?_
  split
  · exact keeps_pure _
  · exact keeps_translateUnits _

theorem keeps_requests (requests : List (List Nat)) :
    Keeps arrangement (forIn requests PUnit.unit fun units _ => do
      translateUnits deal units
      return ForInStep.yield PUnit.unit : Act PUnit) := by
  induction requests with
  | nil => exact keeps_pure _
  | cons units requests ih =>
    rw [List.forIn_cons]
    refine keeps_bind ?_ fun step => ?_
    · exact keeps_bind (keeps_translateUnits units) fun _ => keeps_pure _
    · cases step with
      | done => exact keeps_pure _
      | yield => exact ih

theorem maintains_chooseEntry (entry : Option Text) :
    Maintains chosen (chooseEntry deal entry) := by
  refine maintains_bind keeps_get.maintains fun w => ?_
  have hwork : Maintains chosen (do
      for units in ← work (·.chooseEntry entry) do
        translateUnits deal units : Act Unit) :=
    maintains_bind (maintains_work fun b => Workbench.tells_chooseEntry b entry) fun requests =>
      (keeps_bind (keeps_requests requests) fun _ => keeps_pure _).maintains
  dsimp only
  split
  · exact hwork
  · exact maintains_bind (keeps_show _).maintains fun _ => hwork

/-! ## What the window hears -/

/-- A text that comes in goes into one document, and all that the table tells is that there was a
change. -/
theorem receive_eq_ok {b b' : Workbench} {document : Nat} {unit : Int} {text : Text}
    (hquiet : b.events = []) (h : b.receive document unit text = .ok b') :
    b'.table.shown = b.table.shown ∧
      (∃ d, b'.session.documents = b.session.documents.set document d) ∧
      ∀ e ∈ b'.events, e = .changed := by
  unfold Workbench.receive at h
  split at h
  · cases h
  next d hd =>
    let stored : Workbench := { b with session := b.session.setDocument document d }
    have hrefresh (row : Option Nat) : ∀ e ∈ (stored.refreshRow row).events, e = .changed := by
      unfold Workbench.refreshRow
      split
      · intro e he
        have hmem : e ∈ b.events ++ [.changed] := he
        rw [hquiet] at hmem
        exact List.mem_singleton.mp hmem
      · intro e he
        have hmem : e ∈ b.events := he
        rw [hquiet] at hmem
        cases hmem
    have hsession (row : Option Nat) :
        (stored.refreshRow row).session.documents = b.session.documents.set document d :=
      congrArg Session.documents (Workbench.refreshRow_session stored row)
    have hshown (row : Option Nat) : (stored.refreshRow row).table.shown = b.table.shown :=
      Workbench.refreshRow_shown stored row
    simp only at h
    split at h
    · cases h
      exact ⟨rfl, ⟨d, rfl⟩, hrefresh none⟩
    · split at h
      · cases h
        exact ⟨hshown _, ⟨d, hsession _⟩, hrefresh _⟩
      · cases h
        exact ⟨hshown _, ⟨d, hsession _⟩, hrefresh _⟩

/-- Work that only tells of changes does not fail. -/
theorem work_ok {f : Workbench → Workbench} {w : Window}
    (h : ∀ e ∈ (f w.bench).events, e = .changed) : ∃ requests, (work f w).1 = .ok requests := by
  have hnone : (f w.bench).events.findSome? failure? = none := by
    rw [List.findSome?_eq_none_iff]
    intro e he
    rw [h e he]
    rfl
  simp only [work, run_get, run_change, hnone]
  split
  · exact ⟨_, rfl⟩
  · exact ⟨_, rfl⟩

/-- The label of one document, made anew. -/
theorem labels_of_set {labels : List Text} {ds : List SessionDocument} {k : Nat}
    {d : SessionDocument} (h : labels = ds.map label ∨ labels = (ds.set k d).map label) :
    (match (ds.set k d)[k]? with
      | some d => labels.set k (label d)
      | none => labels) = (ds.set k d).map label := by
  by_cases hk : k < ds.length
  · rw [List.getElem?_set_self hk]
    rcases h with rfl | rfl
    · exact List.map_set.symm
    · exact List.map_set.symm.trans (congrArg _ (List.set_set ..))
  · have hset : ds.set k d = ds := List.set_eq_of_length_le (by omega)
    rw [hset] at h ⊢
    rw [List.getElem?_eq_none (by omega)]
    exact h.elim id id

/-- The document that a text came into has its label made anew, whatever the table told. -/
theorem maintains_receiveTarget (document unit : Int) (text : Text) :
    Maintains chosen (receiveTarget document unit text) := by
  intro w hw
  simp only [receiveTarget, run_get]
  split
  · exact hw
  cases hreceive : w.bench.receive document.toNat unit text with
  | error cause => exact hw
  | ok b' =>
    obtain ⟨hshown, ⟨d, hdocuments⟩, hevents⟩ := receive_eq_ok hw.quiet hreceive
    obtain ⟨requests, hok⟩ := work_ok (f := fun _ => b') (w := w) hevents
    have harrangement := work_arrangement (fun _ => b') w
    simp only
    rw [bind_run]
    generalize work (fun _ => b') w = outcome at hok harrangement ⊢
    obtain ⟨answer, w'⟩ := outcome
    obtain rfl : answer = .ok requests := hok
    obtain ⟨hbench, hids, hlabels, hrow, hstore⟩ := Arrangement.mk.inj harrangement
    have hdocuments' : w'.documents = w.documents.set document.toNat d := by
      rw [Window.documents, hbench]
      exact hdocuments
    have hlength : w'.documents.length = w.documents.length := by
      rw [hdocuments', List.length_set]
    refine ⟨⟨?_, ?_, ?_⟩, ?_, ?_, ?_, ?_⟩
    · exact (congrArg List.length hids).trans (hw.ids.trans hlength.symm)
    · exact congrArg Workbench.events hbench
    · show w'.store.Sound
      rw [show w'.store = w.store from hstore]
      exact hw.store
    · show (match w'.documents[document.toNat]? with
        | some d => w'.labels.set document.toNat (label d)
        | none => w'.labels) = w'.documents.map label
      rw [hdocuments', hlabels]
      refine labels_of_set ?_
      have hbefore : w.labels = w.documents.map label := hw.labels
      split
      · refine .inr ?_
        rw [hdocuments]
        exact relabelled (by rw [hbefore, List.length_map, List.length_set]; rfl)
      · exact .inl hbefore
    · show w'.bench.table.shown = w'.row
      rw [hbench, hrow]
      exact hshown.trans hw.shown
    · intro i hi
      exact (hw.inside i (hrow.symm.trans hi)).trans_eq hlength.symm
    · intro hchosen hnone
      have hempty : w.documents = [] := hw.current hchosen (hrow.symm.trans hnone)
      exact List.eq_nil_of_length_eq_zero (hlength.trans (by rw [hempty]; rfl))

theorem maintains_relabel : Maintains chosen relabel := by
  intro w hw
  have hlabels : w.labels = w.documents.map label := hw.labels
  refine ⟨⟨hw.ids, hw.quiet, hw.store⟩, ?_, hw.shown, hw.inside, hw.current⟩
  exact relabelled (by rw [hlabels, List.length_map])

theorem maintains_finishRun : Maintains chosen finishRun :=
  maintains_bind (keeps_change fun _ => by rfl).maintains fun _ =>
    maintains_bind maintains_relabel fun _ => maintains_bind keeps_get.maintains fun _ =>
      (keeps_say _ _).maintains

theorem maintains_follow (announcement : Announcement) :
    Maintains chosen (follow (pure ()) announcement) := by
  cases announcement with
  | progress done total preview =>
    exact (keeps_bind (fun _ => rfl) fun _ =>
      keeps_bind (fun _ => rfl) fun _ => keeps_pure _).maintains
  | done document unit text => exact maintains_receiveTarget document unit text
  | failed => exact (keeps_say _ _).maintains
  | finished => exact maintains_finishRun

theorem maintains_report (signal : Signal) : Maintains chosen (report (pure ()) signal) := by
  refine maintains_bind keeps_get.maintains fun w => ?_
  dsimp only
  refine maintains_bind (keeps_change fun _ => by rfl).maintains fun _ => ?_
  split
  · exact maintains_follow _
  · exact (keeps_pure _).maintains

/-! ## Gestures -/

/-- A row that is chosen is one of the list. -/
def Listed (w : Window) : Gesture → Prop
  | .document row => 0 ≤ row ∧ row < w.labels.length
  | _ => True

theorem maintains_close : Maintains chosen close :=
  maintains_bind (keeps_change fun _ => by rfl).maintains fun _ => keeps_keepSettings.maintains

theorem maintains_carry (reply : DialogReply) (action : MenuAction) :
    Maintains chosen (carry deal reply action) := by
  cases action with
  | openDocuments => exact maintains_openDocuments reply.paths
  | saveDocument => exact (keeps_saveDocument reply.path).maintains
  | exportDocuments => exact (keeps_exportDocuments reply.path).maintains
  | closeDocument => exact maintains_closeDocument
  | saveSession => exact (keeps_saveSession reply.path).maintains
  | saveSessionAs => exact (keeps_saveSessionAs reply.path).maintains
  | loadSession => exact maintains_loadSession reply.path
  | quit => exact maintains_close
  | translateAll => exact keeps_translateAll.maintains
  | translateDocument => exact keeps_translateDocument.maintains
  | stop => exact (keeps_bind (keeps_change fun _ => by rfl) fun _ => keeps_say _ _).maintains
  | settings => exact maintains_visitSettings reply.visit

/-- A row is made current from the list. -/
theorem aligned_choose {w : Window} (hw : w.arrangement.Aligned chosen) {row : Int}
    (hrow : chosen → w.Listed (.document row)) :
    (setRow (if 0 ≤ row ∧ row < w.labels.length then some row.toNat else none)
      w).2.arrangement.Aligned chosen := by
  have hlabels : w.labels = w.documents.map label := hw.labels
  have hlength : w.labels.length = w.documents.length := by rw [hlabels, List.length_map]
  generalize hnew : (if 0 ≤ row ∧ row < w.labels.length then some row.toNat else none) = new
  by_cases hsame : new = w.row
  · simp only [setRow, run_get]
    rw [if_pos hsame]
    exact hw
  refine aligned_setRow hw.toReady hlabels hsame ?_ ?_
  · intro i hi
    rw [hi] at hnew
    split at hnew
    next hinside =>
      obtain rfl := Option.some.inj hnew
      omega
    next => cases hnew
  · intro hchosen hnone
    have hinside : 0 ≤ row ∧ row < w.labels.length := hrow hchosen
    rw [if_pos hinside, hnone] at hnew
    cases hnew

theorem aligned_perform {w : Window} (hw : w.arrangement.Aligned chosen) {g : Gesture}
    (hg : chosen → w.Listed g) :
    (perform (pure ()) deal g w).2.arrangement.Aligned chosen := by
  cases g with
  | choose action reply =>
    refine maintains_bind keeps_get.maintains (fun w => ?_) w hw
    split
    · exact maintains_bind (maintains_carry reply action) fun _ => (keeps_pure _).maintains
    · exact (keeps_pure true).maintains
  | document row =>
    simp only [perform, run_get]
    exact aligned_bind (aligned_choose hw hg) fun _ => keeps_pure _
  | purge now => exact aligned_withStore hw (hw.store.filter _)
  | clock now => exact hw
  | progress done total preview => exact hw
  | target document unit text =>
    exact maintains_bind (maintains_receiveTarget document unit text)
      (fun _ => (keeps_pure _).maintains) w hw
  | close => exact maintains_bind maintains_close (fun _ => (keeps_pure _).maintains) w hw
  | search text =>
    exact aligned_bind (aligned_work hw (Workbench.tells_search _ text)) fun _ => keeps_pure _
  | filterTimeout =>
    exact aligned_bind (aligned_work hw (Workbench.tells_filterTimeout _)) fun _ => keeps_pure _
  | status name =>
    exact aligned_bind (aligned_work hw (Workbench.tells_chooseStatus _ name)) fun _ => keeps_pure _
  | select rows cursor =>
    exact aligned_bind (aligned_work hw (Workbench.tells_select _ rows cursor)) fun _ =>
      keeps_pure _
  | type text =>
    exact aligned_bind (aligned_work hw (Workbench.tells_type _ text)) fun _ => keeps_pure _
  | edit cell role text =>
    have hwork := aligned_work (f := fun _ => (w.bench.editCell cell role text).2) hw
      (Workbench.tells_editCell _ cell role text)
    exact aligned_bind (k := fun _ => pure (w.bench.editCell cell role text).1) hwork fun _ =>
      keeps_pure _
  | menu entry =>
    exact maintains_bind (maintains_chooseEntry entry) (fun _ => (keeps_pure _).maintains) w hw
  | none => exact hw

/-! ## Whatever happens -/

/-- What happens in the window: a gesture with the server's turns, a report of a worker that is
heard, or an announcement of the engine by itself. -/
inductive Event where
  | gesture (g : Gesture) (turns : List ScriptedTurn)
  | report (signal : Signal)
  | announcement (announcement : Announcement)

/-- The window when something has happened. -/
def happen (w : Window) : Event → Window
  | .gesture g turns => w.handle g turns
  | .report signal => (Window.report (pure ()) signal w).2
  | .announcement announcement => (follow (pure ()) announcement w).2

/-- The window when several things have happened one after the other. -/
def after (w : Window) (events : List Event) : Window := events.foldl happen w

/-- Whenever a row was chosen, it was one of the list. -/
def ChoseListed (w : Window) (events : List Event) : Prop :=
  ∀ past g turns rest, events = past ++ .gesture g turns :: rest → (w.after past).Listed g

theorem aligned_happen {w : Window} (hw : w.arrangement.Aligned chosen) {e : Event}
    (he : ∀ g turns, e = .gesture g turns → chosen → w.Listed g) :
    (w.happen e).arrangement.Aligned chosen := by
  cases e with
  | gesture g turns =>
    exact aligned_perform (w := w.ready turns) hw fun hchosen => he g turns rfl hchosen
  | report signal => exact maintains_report signal w hw
  | announcement announcement => exact maintains_follow announcement w hw

theorem aligned_start {disk : Disk} {w : Window} (h : ofDisk disk = .ok w) :
    w.arrangement.Aligned chosen := by
  obtain ⟨settings, -, h⟩ := bind_eq_ok h
  cases h
  exact ⟨⟨rfl, rfl, Store.sound_empty _⟩, rfl, rfl, nofun, fun _ _ => rfl⟩

theorem aligned_after {disk : Disk} {start : Window} (hstart : ofDisk disk = .ok start)
    (events : List Event) (hlisted : chosen → start.ChoseListed events) :
    (start.after events).arrangement.Aligned chosen := by
  induction events using List.reverseRecOn with
  | nil => exact aligned_start hstart
  | append_singleton events e ih =>
    have hbefore := ih fun hchosen past g turns rest hsplit => by
      refine hlisted hchosen past g turns (rest ++ [e]) ?_
      rw [hsplit, List.append_assoc, List.cons_append]
    rw [after, List.foldl_append]
    refine aligned_happen hbefore ?_
    rintro g turns rfl hchosen
    exact hlisted hchosen events g turns [] rfl

end Maintains

end Window

end GameText
