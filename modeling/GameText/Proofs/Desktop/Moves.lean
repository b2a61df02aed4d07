import GameText.Proofs.Desktop.Frames
import GameText.Proofs.Localization.Jobs

/-!
# What can happen to the documents of a window

Whatever is done in the window, its core goes through a few kinds of moves: a text is put into a
unit, a document is added, the run is asked to stop, and while no run is going on a document is
closed or another session takes the place of the one that is open (`Core.Leads`). A gesture leads to
a new core by such moves, with the texts that it writes (`Window.writes`), or it starts a run and
does nothing else to the core (`perform_goes`).

Left aside are gestures that close the window, and announcements that do not come from a worker
(`Gesture.isOrdinary`).
-/

namespace GameText

/-- A text that is put into a unit. -/
structure Write where
  document : Nat
  unit : Nat
  text : Text
deriving DecidableEq, Repr

/-- The documents with the text in its unit. -/
def Write.put (x : Write) (ds : List SessionDocument) : List SessionDocument :=
  ds.modify x.document (·.setTarget x.unit (.str x.text))

/-- The documents with texts put in one after the other. -/
def putAll (ws : List Write) (ds : List SessionDocument) : List SessionDocument :=
  ws.foldl (fun ds x => x.put ds) ds

/-- A document that is there takes the text. -/
theorem Write.put_eq_set {ds : List SessionDocument} {i : Nat} {d : SessionDocument}
    (h : ds[i]? = some d) (unit : Nat) (text : Text) :
    Write.put ⟨i, unit, text⟩ ds = ds.set i (d.setTarget unit (.str text)) := by
  rw [put, List.modify_eq_set_getElem?, h]
  rfl

namespace SessionDocument

/-- A document has a target text, perhaps an empty one, for each of its units. -/
def Filled (d : SessionDocument) : Prop := d.total ≤ d.targets.length

theorem le_length_fillTargets (total : Nat) (targets : List Json) :
    total ≤ (fillTargets total targets).length := by
  rw [fillTargets, List.length_append, List.length_replicate]
  omega

theorem filled_new (document : Document) (extraction : Extraction) (targets : List Json) :
    (new document extraction targets).Filled := by
  have htotal : (new document extraction targets).total = extraction.total := by
    show ((ExtractionRecord.ofExtraction extraction).texts).length = extraction.units.length
    simp only [ExtractionRecord.ofExtraction, Extraction.texts, List.length_map]
  rw [Filled, htotal]
  exact le_length_fillTargets _ _

theorem Filled.setTarget {d : SessionDocument} (h : d.Filled) (unit : Nat) (target : Json) :
    (d.setTarget unit target).Filled := by
  show d.total ≤ (d.targets.set unit target).length
  rw [List.length_set]
  exact h

end SessionDocument

/-- A session file gives documents with a target text for each unit. -/
theorem Session.filled_of_loadBytes {content : Bytes} {s : Session}
    (h : Session.loadBytes content = .ok s) : ∀ d ∈ s.documents, d.Filled := by
  obtain ⟨text, -, h⟩ := bind_eq_ok h
  obtain ⟨value, -, h⟩ := bind_eq_ok h
  unfold Session.ofJson at h
  split at h
  next members =>
    obtain ⟨listed, -, h⟩ := bind_eq_ok h
    obtain ⟨documents, hdocuments, h⟩ := bind_eq_ok h
    cases h
    intro d hd
    obtain ⟨v, -, hv⟩ := exists_of_forall₂ (mapM_eq_ok hdocuments) hd
    unfold Session.documentOfJson at hv
    split at hv
    next fields =>
      obtain ⟨encoded, -, hv⟩ := bind_eq_ok hv
      obtain ⟨bytes, -, hv⟩ := bind_eq_ok hv
      obtain ⟨extraction, -, hv⟩ := bind_eq_ok hv
      obtain ⟨targets, -, hv⟩ := bind_eq_ok hv
      cases hv
      exact SessionDocument.le_length_fillTargets _ _
    next => cases hv
  next => cases h

namespace Window

namespace Core

/-! ## Moves -/

/-- A text is put into a unit. -/
def write (c : Core) (x : Write) : Core := { c with documents := x.put c.documents }

/-- A document is added. -/
def adopt (c : Core) (d : SessionDocument) : Core :=
  { c with
    documents := c.documents ++ [d]
    identities := c.identities ++ [c.nextIdentity]
    nextIdentity := c.nextIdentity + 1 }

/-- A document is closed. -/
def close (c : Core) (i : Nat) : Core :=
  { c with documents := c.documents.eraseIdx i, identities := c.identities.eraseIdx i }

/-- Other documents take the place of those that are open. -/
def install (c : Core) (ds : List SessionDocument) : Core :=
  { c with
    documents := ds
    identities := List.range' c.nextIdentity ds.length
    nextIdentity := c.nextIdentity + ds.length }

/-- The moves from one core to another, with the texts that are written on the way. -/
inductive Leads (c : Core) : List Write → Core → Prop where
  | refl : Leads c [] c
  | write {ws : List Write} {c' : Core} (h : Leads c ws c') (x : Write) :
    Leads c (ws ++ [x]) (c'.write x)
  | adopt {ws : List Write} {c' : Core} (h : Leads c ws c') {d : SessionDocument} (hd : d.Filled) :
    Leads c ws (c'.adopt d)
  | cancel {ws : List Write} {c' : Core} (h : Leads c ws c') :
    Leads c ws { c' with engine := c'.engine.cancel }
  | close {ws : List Write} {c' : Core} (h : Leads c ws c') (hidle : c'.engine.running = false)
      (i : Nat) : Leads c ws (c'.close i)
  | install {ws : List Write} {c' : Core} (h : Leads c ws c') (hidle : c'.engine.running = false)
      {ds : List SessionDocument} (hds : ∀ d ∈ ds, d.Filled) : Leads c ws (c'.install ds)

theorem Leads.trans {c c' c'' : Core} {ws ws' : List Write} (h : Leads c ws c')
    (h' : Leads c' ws' c'') : Leads c (ws ++ ws') c'' := by
  induction h' with
  | refl => rwa [List.append_nil]
  | write _ x ih =>
    rw [← List.append_assoc]
    exact ih.write x
  | adopt _ hd ih => exact ih.adopt hd
  | cancel _ ih => exact ih.cancel
  | close _ hidle i ih => exact ih.close hidle i
  | install _ hidle hds ih => exact ih.install hidle hds

/-- Texts that are written one after the other. -/
theorem leads_putAll (c : Core) (ws : List Write) :
    Leads c ws { c with documents := putAll ws c.documents } := by
  induction ws generalizing c with
  | nil => exact .refl
  | cons x ws ih => exact (Leads.refl.write x).trans (ih (c.write x))

/-- A run begins over jobs for units of the documents. -/
structure Begins (c : Core) (jobs : List Job) (c' : Core) : Prop where
  idle : c.engine.running = false
  ne_nil : jobs ≠ []
  placed : ∀ job ∈ jobs, ∃ (k unit : Nat) (d : SessionDocument), job.address = (↑k, ↑unit) ∧
    c.documents[k]? = some d ∧ unit < d.total
  started : c' = { c with
    engine := .start jobs.length (Engine.chunks jobs (min workerCount jobs.length)).length, jobs }

end Core

end Window

/-! ## What is written on the workbench -/

namespace Workbench

/-- What is written if a text is put into a unit of the document whose units are listed. -/
def writesTo (b : Workbench) (unit : Nat) (text : Text) : List Write :=
  b.table.shown.toList.map fun i => ⟨i, unit, text⟩

/-- What is written by typing a text into the pane. -/
def typeWrites (b : Workbench) (text : Text) : List Write :=
  (b.table.selectedRow.bind (b.table.rows[·]?)).toList.flatMap fun unit => b.writesTo unit text

/-- What is written by editing a cell. -/
def cellWrites (b : Workbench) (i : CellIndex) (role : CellRole) (text : Text) : List Write :=
  if role = .edit ∧ Table.isEditable i then
    (b.table.unitAt i.row).toList.flatMap fun unit => b.writesTo unit text
  else []

/-- What is written by choosing an entry of the menu. -/
def entryWrites (b : Workbench) (entry : Option Text) : List Write :=
  if entry = some clearEntry then b.table.highlightedUnits.flatMap fun unit => b.writesTo unit []
  else []

theorem refreshRow_shown (b : Workbench) (row : Option Nat) :
    (b.refreshRow row).table.shown = b.table.shown := by
  unfold refreshRow
  split <;> rfl

theorem write_documents (b : Workbench) (unit : Nat) (text : Text) :
    (b.write unit text).session.documents = putAll (b.writesTo unit text) b.session.documents := by
  unfold write writesTo shown?
  cases hshown : b.table.shown with
  | none => rfl
  | some i =>
    cases hd : b.session.documents[i]? with
    | none =>
      have hlength : b.session.documents.length ≤ i := List.getElem?_eq_none_iff.mp hd
      simp only [Option.bind_some, hd]
      exact (List.modify_eq_self hlength).symm
    | some d =>
      simp only [Option.bind_some, hd]
      exact (Write.put_eq_set hd unit text).symm

theorem write_shown (b : Workbench) (unit : Nat) (text : Text) :
    (b.write unit text).table.shown = b.table.shown := by
  unfold write
  split <;> rfl

theorem type_documents (b : Workbench) (text : Text) :
    (b.type text).session.documents = putAll (b.typeWrites text) b.session.documents := by
  simp only [type, typeWrites]
  cases b.table.selectedRow.bind (b.table.rows[·]?) with
  | none => rfl
  | some unit =>
    simp only [refreshRow_session, write_documents, Option.toList_some, List.flatMap_singleton]
    rfl

theorem editCell_documents (b : Workbench) (i : CellIndex) (role : CellRole) (text : Text) :
    (b.editCell i role text).2.session.documents =
      putAll (b.cellWrites i role text) b.session.documents := by
  unfold editCell cellWrites
  by_cases hedit : role = .edit ∧ Table.isEditable i
  · simp only [hedit, and_self, if_true]
    cases b.table.unitAt i.row with
    | none => rfl
    | some unit =>
      simp only [refreshRow_session, write_documents, Option.toList_some, List.flatMap_singleton]
  · simp only [hedit, if_false]
    cases b.table.unitAt i.row <;> rfl

/-- Units that are emptied one after the other. -/
theorem foldl_clear_documents (units : List Nat) (b : Workbench) :
    (units.foldl clear b).session.documents =
      putAll (units.flatMap fun unit => b.writesTo unit []) b.session.documents := by
  induction units generalizing b with
  | nil => rfl
  | cons unit units ih =>
    have hsame : ∀ unit', (b.clear unit).writesTo unit' [] = b.writesTo unit' [] := by
      intro unit'
      simp only [writesTo, clear, refreshRow_shown, write_shown]
    rw [List.foldl_cons, ih, List.flatMap_cons]
    simp only [hsame]
    rw [clear, refreshRow_session, write_documents, putAll, putAll, putAll, List.foldl_append]

theorem translateEntry_ne_clearEntry (units : List Nat) : translateEntry units ≠ clearEntry := by
  intro h
  cases h

theorem chooseEntry_documents (b : Workbench) (entry : Option Text) :
    (b.chooseEntry entry).session.documents = putAll (b.entryWrites entry) b.session.documents := by
  simp only [chooseEntry, entryWrites]
  by_cases hunits : b.table.highlightedUnits = []
  · simp only [hunits, List.isEmpty_nil, if_true, List.flatMap_nil, ite_self]
    rfl
  · have hany : b.table.highlightedUnits.isEmpty = false := by simpa using hunits
    simp only [hany, Bool.false_eq_true, if_false]
    by_cases htranslate : entry = some (translateEntry b.table.highlightedUnits)
    · have hclear : entry ≠ some clearEntry := by
        rw [htranslate]
        exact fun h => translateEntry_ne_clearEntry _ (Option.some.inj h)
      simp only [htranslate, if_true] at hclear ⊢
      rw [if_neg hclear]
      rfl
    · simp only [htranslate, if_false]
      split
      · exact foldl_clear_documents _ b
      · rfl

end Workbench

/-! ## What gestures do -/

/-- The gesture neither closes the window nor stands for an announcement of the engine. -/
def Gesture.isOrdinary : Gesture → Bool
  | .choose .quit _ => false
  | .close => false
  | .progress .. => false
  | .target .. => false
  | _ => true

namespace Window

/-- What a gesture writes. -/
def writes (w : Window) : Gesture → List Write
  | .type text => w.bench.typeWrites text
  | .edit cell role text => w.bench.cellWrites cell role text
  | .menu entry => w.bench.entryWrites entry
  | _ => []

/-- An action goes through moves that write nothing. -/
def Moves {α : Type} (a : Act α) : Prop := ∀ w : Window, w.core.Leads [] (a w).2.core

section Moves

variable {α β : Type}

theorem Keeps.moves {a : Act α} (h : Keeps core a) : Moves a := by
  intro w
  rw [h w]
  exact .refl

theorem moves_bind {a : Act α} {k : α → Act β} (ha : Moves a) (hk : ∀ x, Moves (k x)) :
    Moves (a >>= k) := by
  intro w
  have hfirst := ha w
  rw [bind_run]
  generalize a w = outcome at hfirst ⊢
  obtain ⟨x | x, w'⟩ := outcome
  · exact hfirst
  · exact hfirst.trans (hk x w')

end Moves

/-- Work that puts texts in. -/
theorem leads_work {f : Workbench → Workbench} {w : Window} {ws : List Write}
    (h : (f w.bench).session.documents = putAll ws w.bench.session.documents) :
    w.core.Leads ws (work f w).2.core := by
  rw [work_core, h]
  exact Core.leads_putAll w.core ws

/-! ### Documents -/

theorem moves_adopt (id : Text) : Moves (adopt id) := by
  intro w
  simp only [adopt, run_get]
  generalize w.store.get w.storeClock id = found
  obtain ⟨item, store⟩ := found
  simp only [run_change]
  split
  next document extraction touched =>
    exact Core.Leads.refl.adopt (SessionDocument.filled_new document extraction [])
  next => exact .refl

theorem moves_adoptAll (results : List UploadResult) : Moves (adoptAll results) := by
  induction results with
  | nil => exact (keeps_pure _).moves
  | cons result results ih =>
    cases result with
    | extracted id => exact moves_bind (moves_adopt id) fun _ => ih
    | unsupported => exact ih
    | invalid => exact ih

theorem moves_openDocuments (paths : List Text) : Moves (openDocuments paths) := by
  refine moves_bind keeps_get.moves fun w => ?_
  refine moves_bind (keeps_show _).moves fun _ => ?_
  split
  · exact (keeps_pure _).moves
  · refine moves_bind (keeps_change fun _ => by rfl).moves fun _ => ?_
    refine moves_bind keeps_keepSettings.moves fun _ => ?_
    refine moves_bind keeps_get.moves fun _ => ?_
    refine moves_bind (keeps_takeIn _).moves fun results => ?_
    refine moves_bind (moves_adoptAll results) fun _ => ?_
    refine moves_bind (keeps_listDocuments _).moves fun _ => ?_
    refine moves_bind keeps_get.moves fun _ => ?_
    refine moves_bind (keeps_say _ _).moves fun _ => ?_
    dsimp only
    split
    · exact (keeps_pure _).moves
    · exact (keeps_warn _ _ _).moves

theorem moves_closeDocument : Moves closeDocument := by
  intro w
  simp only [closeDocument, run_get]
  rcases w.current? with _ | ⟨i, d⟩
  · exact .refl
  · simp only
    split
    · exact .refl
    next hidle =>
      have hidle : w.core.engine.running = false := Bool.eq_false_iff.mpr hidle
      simp only [run_change]
      rw [keeps_listDocuments]
      exact Core.Leads.refl.close hidle i

theorem leads_install {w : Window} (path : Text) {session : Session}
    (hidle : w.engine.running = false) (hfilled : ∀ d ∈ session.documents, d.Filled) :
    w.core.Leads [] (install path session w).2.core := by
  have hrest : Keeps core (do
      listDocuments 0
      say ("Loaded session: " ++ Text.ofNat session.total ++ " units (" ++
        Text.ofNat session.translatedCount ++ " translated)") 5000
      change fun w => { w with title := programName ++ " — " ++ FilePath.baseName path }) :=
    keeps_bind (keeps_listDocuments 0) fun _ => keeps_bind (keeps_say _ _) fun _ =>
      keeps_change fun _ => rfl
  simp only [install, run_change]
  rw [hrest]
  exact Core.Leads.refl.install hidle hfilled

theorem filled_of_readSession {disk : Disk} {path : Text} {session : Session}
    (h : readSession disk path = .ok (.ok session)) : ∀ d ∈ session.documents, d.Filled := by
  unfold readSession at h
  split at h
  next => cases h
  next content _ =>
    split at h
    next hload =>
      cases h
      exact Session.filled_of_loadBytes hload
    next => split at h <;> cases h

theorem moves_loadSession (path : Text) : Moves (loadSession path) := by
  intro w
  simp only [loadSession, run_get]
  by_cases hstays : path.isEmpty = true ∨ w.engine.running = true
  · simp only [hstays, if_true]
    exact (keeps_bind (keeps_show _) fun _ => keeps_pure _).moves w
  · simp only [hstays, if_false]
    have hidle : w.engine.running = false := Bool.eq_false_iff.mpr fun h => hstays (.inr h)
    cases hread : readSession w.disk path with
    | error fault => exact (keeps_bind (keeps_show _) fun _ => keeps_throw _).moves w
    | ok loaded =>
      cases loaded with
      | error problem => exact (keeps_bind (keeps_show _) fun _ => keeps_warn _ _ _).moves w
      | ok session =>
        have hfilled := filled_of_readSession hread
        exact leads_install (w := { w with shown := w.shown ++ [_] }) path hidle hfilled

/-! ### Runs -/

theorem moves_stopRun : Moves stopRun := fun _ => Core.Leads.refl.cancel

/-- Jobs for units of the documents of a window. -/
def Placed (w : Window) (jobs : List Job) : Prop :=
  ∀ job ∈ jobs, ∃ (k unit : Nat) (d : SessionDocument), job.address = (↑k, ↑unit) ∧
    w.documents[k]? = some d ∧ unit < d.total

/-- An action leaves the core of the window as it was, or starts a run. -/
def Starts {α : Type} (a : Act α) : Prop := ∀ w : Window,
  (a w).2.core = w.core ∨ ∃ jobs, w.core.Begins jobs (a w).2.core

section Starts

variable {α β : Type}

theorem Keeps.starts {a : Act α} (h : Keeps core a) : Starts a := fun w => .inl (h w)

theorem Core.Begins.running {c c' : Core} {jobs : List Job} (h : c.Begins jobs c') :
    c'.engine.running = true := by
  rw [h.started]
  rfl

/-- While the run that was started is going on, no other is. -/
theorem starts_bind {a : Act α} {k : α → Act β} (ha : Starts a) (hk : ∀ x, Starts (k x)) :
    Starts (a >>= k) := by
  intro w
  have hfirst := ha w
  rw [bind_run]
  generalize a w = outcome at hfirst ⊢
  obtain ⟨x | x, w'⟩ := outcome
  · exact hfirst
  · show (k x w').2.core = w.core ∨ ∃ jobs, w.core.Begins jobs (k x w').2.core
    rcases hfirst with hsame | ⟨jobs, hbegins⟩
    · have hrest := hk x w'
      have hsame : w'.core = w.core := hsame
      rwa [hsame] at hrest
    · have hrunning : w'.core.engine.running = true := hbegins.running
      rcases hk x w' with hrest | ⟨jobs', hagain⟩
      · exact .inr ⟨jobs, hrest ▸ hbegins⟩
      · exact absurd (hrunning.symm.trans hagain.idle) (by decide)

end Starts

theorem deal_core (jobs : List Job) (w : Window) : (deal jobs w).2.core =
    { w.core with
      engine := .start jobs.length (Engine.chunks jobs (min workerCount jobs.length)).length
      jobs } := by
  show Core.mk _ _ _ (Engine.start jobs.length (List.map _ _).length) _ = _
  rw [List.length_map]
  rfl

/-- A start is refused, or the run begins. -/
theorem startRun_begins {w : Window} {jobs : List Job} (hplaced : w.Placed jobs) :
    (startRun deal jobs w).2.core = w.core ∨ w.core.Begins jobs (startRun deal jobs w).2.core := by
  simp only [startRun, run_get]
  by_cases hrunning : w.engine.running = true
  · simp only [hrunning, if_true]
    exact .inl rfl
  by_cases hjobs : jobs.isEmpty = true
  · simp only [hrunning, hjobs, if_true]
    exact .inl rfl
  by_cases hreached : (w.client.isAvailable w.wire).1 = true
  · simp only [hrunning, hjobs, hreached, run_change, Bool.not_true, Bool.false_eq_true, if_false]
    exact .inr ⟨Bool.eq_false_iff.mpr hrunning, by simpa using hjobs, hplaced, deal_core jobs _⟩
  · simp only [hrunning, hjobs, hreached]
    exact .inl rfl

theorem placed_jobs {w : Window} {lines : Int} {jobs : List Job}
    (h : w.bench.session.jobs lines = .ok jobs) : w.Placed jobs := by
  intro job hjob
  have hmem := (Session.jobs_sublist h).subset (List.mem_map_of_mem hjob)
  obtain ⟨k, unit, d, haddress, hd, hunit⟩ := Session.mem_addressesFrom hmem
  rw [Nat.zero_add] at haddress
  exact ⟨k, unit, d, haddress, hd, hunit⟩

/-- **A run over the whole session** is refused, or begins with the jobs of the session. -/
theorem translateAll_begins (w : Window) : (translateAll deal w).2.core = w.core ∨
    ∃ jobs, w.bench.session.jobs contextLines = .ok jobs ∧
      w.core.Begins jobs (translateAll deal w).2.core := by
  simp only [translateAll, run_get]
  cases hjobs : w.bench.session.jobs contextLines with
  | error cause => exact .inl rfl
  | ok jobs =>
    rcases startRun_begins (placed_jobs hjobs) with hsame | hbegins
    · exact .inl hsame
    · exact .inr ⟨jobs, rfl, hbegins⟩

theorem placed_units {w : Window} {k : Nat} {d : SessionDocument} {lines : Int} {units : List Nat}
    {outcomes : List (Option Job)} (hd : w.documents[k]? = some d)
    (h : units.mapM (fun unit => jobOf? k d.sources lines unit (d.source unit)) = .ok outcomes) :
    w.Placed (outcomes.filterMap id) := by
  intro job hjob
  obtain ⟨outcome, houtcome, rfl⟩ := List.mem_filterMap.mp hjob
  obtain ⟨unit, -, hunit⟩ := exists_of_forall₂ (mapM_eq_ok h) houtcome
  obtain ⟨haddress, text, hsource, hblank⟩ := jobOf?_eq_some hunit
  exact ⟨k, unit, d, haddress, hd, SessionDocument.lt_total_of_source hsource hblank⟩

theorem current?_eq_some {w : Window} {k : Nat} {d : SessionDocument}
    (h : w.current? = some (k, d)) : w.documents[k]? = some d := by
  obtain ⟨row, -, h⟩ := Option.bind_eq_some_iff.mp h
  obtain ⟨d', hd', h⟩ := Option.map_eq_some_iff.mp h
  cases h
  exact hd'

theorem starts_translateUnits (units : List Nat) : Starts (translateUnits deal units) := by
  intro w
  simp only [translateUnits, run_get]
  cases hcurrent : w.current? with
  | none => exact .inl rfl
  | some current =>
    obtain ⟨k, d⟩ := current
    simp only
    cases hjobs : units.mapM fun unit => jobOf? k d.sources contextLines unit (d.source unit) with
    | error cause => exact .inl rfl
    | ok outcomes =>
      rcases startRun_begins (placed_units (current?_eq_some hcurrent) hjobs) with hsame | hbegins
      · exact .inl hsame
      · exact .inr ⟨_, hbegins⟩

theorem starts_translateDocument : Starts (translateDocument deal) := by
  intro w
  simp only [translateDocument, run_get]
  rcases w.current? with _ | ⟨k, d⟩
  · exact .inl rfl
  · exact starts_translateUnits _ w

theorem starts_units (requests : List (List Nat)) :
    Starts (forIn requests PUnit.unit fun units _ => do
      translateUnits deal units
      return ForInStep.yield PUnit.unit : Act PUnit) := by
  induction requests with
  | nil => exact (keeps_pure _).starts
  | cons units requests ih =>
    rw [List.forIn_cons]
    refine starts_bind ?_ fun step => ?_
    · exact starts_bind (starts_translateUnits units) fun _ => (keeps_pure _).starts
    · cases step with
      | done => exact (keeps_pure _).starts
      | yield => exact ih

/-! ### Every gesture -/

/-- Moves, and then perhaps the start of a run. -/
def Core.Goes (c : Core) (ws : List Write) (c'' : Core) : Prop :=
  ∃ c', c.Leads ws c' ∧ (c'' = c' ∨ ∃ jobs, c'.Begins jobs c'')

/-- Moves that write, with what may start a run behind them. -/
theorem goes_bind {α β : Type} {w : Window} {ws : List Write} {a : Act α} {k : α → Act β}
    (ha : w.core.Leads ws (a w).2.core) (hk : ∀ x, Starts (k x)) :
    w.core.Goes ws ((a >>= k) w).2.core := by
  rw [bind_run]
  generalize a w = outcome at ha ⊢
  obtain ⟨x | x, w'⟩ := outcome
  · exact ⟨w'.core, ha, .inl rfl⟩
  · exact ⟨w'.core, ha, hk x w'⟩

/-- What goes on may answer behind it. -/
theorem goes_return {α β : Type} {w : Window} {ws : List Write} {a : Act α}
    (ha : w.core.Goes ws (a w).2.core) (answer : β) :
    w.core.Goes ws ((a >>= fun _ => pure answer : Act β) w).2.core := by
  rw [bind_run]
  generalize a w = outcome at ha ⊢
  obtain ⟨x | x, w'⟩ := outcome
  · exact ha
  · exact ha

/-- Moves alone. -/
theorem Core.Leads.goes {c c' : Core} {ws : List Write} (h : c.Leads ws c') : c.Goes ws c' :=
  ⟨c', h, .inl rfl⟩

theorem chooseEntry_goes (entry : Option Text) (w : Window) :
    w.core.Goes (w.bench.entryWrites entry) (chooseEntry deal entry w).2.core := by
  have hwork : ∀ w' : Window, w'.core = w.core → w'.bench = w.bench →
      w.core.Goes (w.bench.entryWrites entry) ((do
        for units in ← work (·.chooseEntry entry) do
          translateUnits deal units : Act Unit) w').2.core := by
    intro w' hcore hbench
    rw [← hcore, ← hbench]
    have hwrites := Workbench.chooseEntry_documents w'.bench entry
    exact goes_bind (leads_work hwrites) fun requests =>
      starts_bind (starts_units requests) fun _ => (keeps_pure _).starts
  simp only [chooseEntry, run_get]
  split
  · exact hwork w rfl rfl
  · exact hwork { w with shown := w.shown ++ [_] } rfl rfl

theorem carry_goes {action : MenuAction} (haction : action ≠ .quit) (reply : DialogReply)
    (w : Window) : w.core.Goes [] (carry deal reply action w).2.core := by
  cases action with
  | openDocuments => exact (moves_openDocuments reply.paths w).goes
  | saveDocument => exact ((keeps_saveDocument reply.path).moves w).goes
  | exportDocuments => exact ((keeps_exportDocuments reply.path).moves w).goes
  | closeDocument => exact (moves_closeDocument w).goes
  | saveSession => exact ((keeps_saveSession reply.path).moves w).goes
  | saveSessionAs => exact ((keeps_saveSessionAs reply.path).moves w).goes
  | loadSession => exact (moves_loadSession reply.path w).goes
  | quit => exact absurd rfl haction
  | translateAll =>
    rcases translateAll_begins w with hsame | ⟨jobs, -, hbegins⟩
    · exact ⟨_, .refl, .inl hsame⟩
    · exact ⟨_, .refl, .inr ⟨jobs, hbegins⟩⟩
  | translateDocument => exact ⟨_, .refl, starts_translateDocument w⟩
  | stop => exact (moves_stopRun w).goes
  | settings => exact ((keeps_visitSettings reply.visit).moves w).goes

/-- **What a gesture does to the core**: it goes through moves that write what the gesture writes,
and then it may start a run. -/
theorem perform_goes {g : Gesture} (hg : g.isOrdinary = true) (between : Act Unit) (w : Window) :
    w.core.Goes (w.writes g) (perform between deal g w).2.core := by
  cases g with
  | choose action reply =>
    have haction : action ≠ .quit := by
      rintro rfl
      cases hg
    show w.core.Goes [] (perform between deal (.choose action reply) w).2.core
    simp only [perform, run_get]
    split
    · exact goes_return (carry_goes haction reply w) true
    · exact Core.Leads.refl.goes
  | document row => exact goes_return ((keeps_setRow _).moves w).goes true
  | purge now => exact Core.Leads.refl.goes
  | clock now => exact Core.Leads.refl.goes
  | progress => cases hg
  | target => cases hg
  | close => cases hg
  | search text => exact goes_return ((keeps_search text).moves w).goes true
  | filterTimeout => exact goes_return (keeps_filterTimeout.moves w).goes true
  | status name => exact goes_return ((keeps_chooseStatus name).moves w).goes true
  | select rows cursor => exact goes_return ((keeps_select rows cursor).moves w).goes true
  | type text => exact goes_return (leads_work (Workbench.type_documents w.bench text)).goes true
  | edit cell role text =>
    have hedit := Workbench.editCell_documents w.bench cell role text
    exact goes_return (leads_work (f := fun _ => (w.bench.editCell cell role text).2) hedit).goes
      (w.bench.editCell cell role text).1
  | menu entry => exact goes_return (chooseEntry_goes entry w) true
  | none => exact Core.Leads.refl.goes

end Window

end GameText
