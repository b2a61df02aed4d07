import GameText.Proofs.Desktop.Alignment

/-!
# Loading a session

The file of a session may hold anything. What is wrong with its bytes, its text, its base64 or its
numbers of units is reported, and the window is as it was before. A value of another kind is not
looked for: the failure that comes of it ends the handler, and so does a first document that cannot
be listed under the search of the table, after the session is already in place
(`loadSession_ends_iff`). A file whose values are of the kinds that the reader needs is read, or it
is reported what is wrong with it (`Session.reported_of_isSession`).

Not established: anything about values that are nested too deep to be read.
-/

namespace GameText

/-! ## The kinds of the values in a session file -/

namespace Json

open Session (memberOr)

/-- A value with parts, each of which has a property. -/
def PartsAre (P : Json → Prop) (v : Json) : Prop :=
  ∃ items, v.parts = .ok items ∧ ∀ item ∈ items, P item

/-- An object with the fields of a format's addresses that have no default. -/
def IsAddress (format : Format) : Json → Prop
  | .obj members => ∃ schema, Address.schema? format = some schema ∧
      ∀ name, (name, none) ∈ schema → ∃ v, lookup? name members = some v
  | _ => False

/-- An object with a format that can be a key, with texts, and with addresses if the format has
some. -/
def IsRecord : Json → Prop
  | .obj members =>
    (memberOr "format" (.str []) members).isKeyPart = true ∧
      (memberOr "texts" (.arr []) members).PartsAre (fun _ => True) ∧
      ∀ tag, memberOr "format" (.str []) members = .str tag →
        (Format.ofTag tag).supported = true →
        (memberOr "mapping" (.arr []) members).PartsAre (IsAddress (Format.ofTag tag))
  | _ => False

/-- An object with bytes that are written as text, with a record, and with target texts. -/
def IsDocument : Json → Prop
  | .obj members =>
    (∃ encoded, memberOr "data" (.str []) members = .str encoded) ∧
      (memberOr "extraction" (.obj []) members).IsRecord ∧
      (memberOr "translations" (.arr []) members).PartsAre fun _ => True
  | _ => False

/-- An object with documents. -/
def IsSession : Json → Prop
  | .obj members => (memberOr "documents" (.arr []) members).PartsAre IsDocument
  | _ => False

end Json

/-- A step does not fail over a value of another kind. -/
def Reported {α : Type} (x : Except Error α) : Prop :=
  ∀ cause, x = .error cause → Window.isLoadFailure cause = true

namespace Reported

variable {α β : Type}

theorem ok (a : α) : Reported (.ok a) := nofun

theorem bind {x : Except Error α} {f : α → Except Error β} (hx : Reported x)
    (hf : ∀ a, x = .ok a → Reported (f a)) : Reported (x >>= f) := by
  intro cause hcause
  rcases bind_eq_error hcause with h | ⟨a, ha, h⟩
  · exact hx cause h
  · exact hf a ha cause h

theorem mapM {f : α → Except Error β} {xs : List α} (h : ∀ x ∈ xs, Reported (f x)) :
    Reported (xs.mapM f) := by
  intro cause hcause
  obtain ⟨x, hx, hfailed⟩ := exists_of_mapM_eq_error hcause
  exact h x hx cause hfailed

theorem mapError {ε : Type} {f : ε → Error} (hf : ∀ e, Window.isLoadFailure (f e) = true)
    (x : Except ε α) : Reported (x.mapError f) := by
  intro cause hcause
  obtain ⟨e, rfl⟩ := exists_of_mapError_eq_error hcause
  exact hf e

theorem of_ok {ε : Type} {f : ε → Error} {x : Except ε α} {a : α} (h : x = .ok a) :
    Reported (x.mapError f) := by
  rw [h]
  exact ok a

end Reported

namespace Address

theorem exists_complete {schema : List (Text × Option Json)} {given : List (Text × Json)}
    (h : ∀ name, (name, none) ∈ schema → ∃ v, lookup? name given = some v) :
    ∃ fields, complete? schema given = some fields := by
  induction schema with
  | nil => exact ⟨[], rfl⟩
  | cons entry schema ih =>
    obtain ⟨fields, hfields⟩ := ih fun name hname => h name (List.mem_cons_of_mem _ hname)
    obtain ⟨name, fallback⟩ := entry
    unfold complete? at hfields ⊢
    cases hlookup : lookup? name given with
    | some v => exact ⟨(name, v) :: fields, by simp [hlookup, hfields]⟩
    | none =>
      cases fallback with
      | some v => exact ⟨(name, v) :: fields, by simp [hlookup, hfields]⟩
      | none =>
        obtain ⟨v, hv⟩ := h name List.mem_cons_self
        cases hlookup.symm.trans hv

theorem exists_ofJson {format : Format} {v : Json} (h : v.IsAddress format) :
    ∃ address, ofJson format false v = .ok address := by
  cases v with
  | obj members =>
    obtain ⟨schema, hschema, hfields⟩ := h
    obtain ⟨fields, hcomplete⟩ := exists_complete hfields
    refine ⟨(ofFields? format fields).getD (.loose fields), ?_⟩
    simp only [ofJson, ofMembers, hschema, hcomplete, Bool.false_and, Bool.false_eq_true, if_false]
  | _ => exact h.elim

end Address

theorem exists_mapM_ok {ε α β : Type} {f : α → Except ε β} {xs : List α}
    (h : ∀ x ∈ xs, ∃ y, f x = .ok y) : ∃ ys, xs.mapM f = .ok ys := by
  cases hmap : xs.mapM f with
  | ok ys => exact ⟨ys, rfl⟩
  | error e =>
    obtain ⟨x, hx, hfailed⟩ := exists_of_mapM_eq_error hmap
    obtain ⟨y, hy⟩ := h x hx
    cases hy.symm.trans hfailed

theorem ExtractionRecord.reported_ofJson {v : Json} (h : v.IsRecord) : Reported (ofJson v) := by
  cases v with
  | obj members =>
    obtain ⟨hformat, ⟨texts, htexts, -⟩, hmapping⟩ := h
    have hread : ∃ mapping, readMapping (Session.memberOr "format" (.str []) members)
        (lookup? "mapping".toList members) = .ok mapping := by
      cases hkind : Session.memberOr "format" (.str []) members with
      | arr => rw [hkind] at hformat; cases hformat
      | obj => rw [hkind] at hformat; cases hformat
      | str tag =>
        rw [readMapping]
        split
        next hsupported =>
          obtain ⟨items, hitems, haddresses⟩ := hmapping tag hkind hsupported
          obtain ⟨mapping, hmapped⟩ := exists_mapM_ok fun item hitem =>
            Address.exists_ofJson (haddresses item hitem)
          refine ⟨mapping, ?_⟩
          rw [show (lookup? "mapping".toList members).getD (.arr []) =
            Session.memberOr "mapping" (.arr []) members from rfl, hitems]
          exact hmapped
        next => exact ⟨[], rfl⟩
      | _ => exact ⟨[], rfl⟩
    obtain ⟨mapping, hread⟩ := hread
    refine .bind (.of_ok hread) fun mapping _ => .bind (.of_ok htexts) fun texts _ => ?_
    dsimp only
    split
    · refine .bind (fun cause hcause => ?_) fun _ _ => .ok _
      cases hcause
      rfl
    · exact .ok _
  | _ => exact h.elim

namespace Session

theorem reported_documentOfJson {v : Json} (h : v.IsDocument) : Reported (documentOfJson v) := by
  cases v with
  | obj members =>
    obtain ⟨⟨encoded, hdata⟩, hextraction, targets, htargets, -⟩ := h
    refine .bind (.of_ok (a := encoded) (by rw [hdata]; rfl)) fun encoded _ => ?_
    refine .bind (.mapError (fun _ => rfl) _) fun content _ => ?_
    refine .bind (ExtractionRecord.reported_ofJson hextraction) fun extraction _ => ?_
    exact .bind (.of_ok htargets) fun targets _ => .ok _
  | _ => exact h.elim

/-- **A session file with values of the right kinds** is read, or what is wrong with it is
reported. -/
theorem reported_of_isSession {content : Bytes}
    (h : ∀ text v, Utf8.decode content = .ok text → Json.read text.unifyNewlines = .ok v →
      v.IsSession) : Reported (loadBytes content) := by
  refine .bind (.mapError (fun _ => rfl) _) fun text htext => ?_
  refine .bind (.mapError (fun _ => rfl) _) fun v hv => ?_
  have hkinds := h text v (mapError_eq_ok htext) (mapError_eq_ok hv)
  cases v with
  | obj members =>
    obtain ⟨items, hitems, hdocuments⟩ := hkinds
    refine .bind (.of_ok hitems) fun listed hlisted => ?_
    obtain rfl : items = listed := Except.ok.inj (hitems.symm.trans (mapError_eq_ok hlisted))
    exact .bind (.mapM fun item hitem => reported_documentOfJson (hdocuments item hitem))
      fun _ _ => .ok _
  | _ => exact hkinds.elim

end Session

/-! ## Listing the documents anew -/

namespace Workbench

/-- The units of a document can be listed under the search of the table. -/
def Lists (b : Workbench) (d : SessionDocument) : Prop :=
  ∃ units, Table.listed b.table.filter b.table.query d = .ok units

variable {b : Workbench} {document : Option Nat}

/-- What the table announces when another document is shown. -/
theorem showDocument_events (hquiet : b.events = []) :
    (b.showDocument document).events =
      match document.bind (b.session.documents[·]?) with
      | none => []
      | some d =>
        match Table.listed b.table.filter b.table.query d with
        | .ok _ => []
        | .error cause => [.unlisted cause] := by
  unfold showDocument applyFilter
  have hshown : ∀ table : Table, table.shown = document →
      shown? { b with table } = document.bind (b.session.documents[·]?) := by
    rintro table rfl
    rfl
  rw [hshown _ rfl]
  cases document.bind (b.session.documents[·]?) with
  | none => exact hquiet
  | some d =>
    dsimp only
    cases Table.listed b.table.filter b.table.query d with
    | ok units => exact hquiet
    | error cause => exact congrArg (· ++ [TableEvent.unlisted cause]) hquiet

end Workbench

namespace Window

variable {w : Window}

/-- Work of which the table announces nothing. -/
theorem work_of_quiet {f : Workbench → Workbench} (h : (f w.bench).events = []) :
    work f w = (.ok [], { w with bench := f w.bench }) := by
  have hbench : { f w.bench with events := [] } = f w.bench := by rw [← h]
  simp only [work, run_get, run_change, h, hbench]
  rfl

theorem work_of_unlisted {f : Workbench → Workbench} {cause : Misfit}
    (h : (f w.bench).events = [.unlisted cause]) :
    (work f w).1 = .error (.error (.misfit cause)) := by
  simp only [work, run_get, run_change, h]
  rfl

/-- The row that is made current near a given one. -/
def rowNear (near : Nat) (ds : List SessionDocument) : Option Nat :=
  if ds.isEmpty then none else some (min near (ds.length - 1))

/-- What comes behind two actions that end alike ends alike. -/
theorem bind_congr_run {α β : Type} {a a' : Act α} {k : α → Act β} {w w' : Window}
    (h : a w = a' w') : (a >>= k) w = (a' >>= k) w' := by
  rw [bind_run, bind_run, h]

/-- The list is made anew in one move of the table. -/
theorem listDocuments_eq (near : Nat) (w : Window) :
    listDocuments near w =
      (work (·.showDocument (rowNear near w.documents)) >>= fun _ =>
        change fun w => { w with runEnabled := !w.documents.isEmpty })
        { w with labels := w.documents.map label, row := rowNear near w.documents } := by
  simp only [listDocuments, run_change, run_get]
  split
  case isTrue hisEmpty =>
    have hrow : rowNear near w.documents = none := if_pos hisEmpty
    rw [hrow]
  case isFalse hisEmpty =>
    have hempty : w.documents ≠ [] := fun hempty => hisEmpty (List.isEmpty_iff.mpr hempty)
    have hpos : 0 < w.documents.length := List.length_pos_iff.mpr hempty
    have hrow : rowNear near w.documents = some (min near (w.documents.length - 1)) :=
      if_neg hisEmpty
    have hset : setRow (some (min near (w.documents.length - 1)))
        { w with labels := w.documents.map label, row := none } = _ :=
      setRow_eq (Option.some_ne_none _) fun i hi => by
        obtain rfl := Option.some.inj hi
        show min near (w.documents.length - 1) < w.documents.length
        omega
    rw [hrow]
    refine (bind_congr_run hset).trans ?_
    rw [bind_run, bind_run, bind_run]
    generalize work _ _ = outcome
    obtain ⟨fault | requests, w'⟩ := outcome <;> rfl

variable {near : Nat}

/-- Where the document that is to be shown can be listed, the list is made anew. -/
theorem listDocuments_of_lists (hquiet : w.bench.events = [])
    (hlists : ∀ d, (rowNear near w.documents).bind (w.documents[·]?) = some d → w.bench.Lists d) :
    listDocuments near w = (.ok (),
      { w with
        labels := w.documents.map label
        row := rowNear near w.documents
        bench := w.bench.showDocument (rowNear near w.documents)
        runEnabled := !w.documents.isEmpty }) := by
  have hevents : (w.bench.showDocument (rowNear near w.documents)).events = [] := by
    rw [Workbench.showDocument_events hquiet]
    split
    · rfl
    next d hd =>
      obtain ⟨units, hunits⟩ := hlists d hd
      rw [hunits]
  have hsession : (w.bench.showDocument (rowNear near w.documents)).session = w.bench.session :=
    Workbench.applyFilter_session _
  rw [listDocuments_eq, bind_run, work_of_quiet hevents]
  show (Except.ok (), { w with
    labels := w.documents.map label
    row := rowNear near w.documents
    bench := w.bench.showDocument (rowNear near w.documents)
    runEnabled :=
      !(w.bench.showDocument (rowNear near w.documents)).session.documents.isEmpty }) = _
  rw [hsession]
  rfl

/-- Where the list was made anew, the document that is shown could be listed. -/
theorem lists_of_listDocuments {w' : Window} {d : SessionDocument}
    (hlisted : listDocuments near w = (.ok (), w')) (hquiet : w.bench.events = [])
    (hd : (rowNear near w.documents).bind (w.documents[·]?) = some d) : w.bench.Lists d := by
  cases hunits : Table.listed w.bench.table.filter w.bench.table.query d with
  | ok units => exact ⟨units, hunits⟩
  | error cause =>
    have hevents :
        (w.bench.showDocument (rowNear near w.documents)).events = [.unlisted cause] := by
      have hshown : (rowNear near w.documents).bind (w.bench.session.documents[·]?) = some d := hd
      rw [Workbench.showDocument_events hquiet, hshown]
      simp only [hunits]
    have hwork : (work (·.showDocument (rowNear near w.documents))
        { w with labels := w.documents.map label, row := rowNear near w.documents }).1 =
          .error (.error (.misfit cause)) := work_of_unlisted hevents
    rw [listDocuments_eq] at hlisted
    obtain ⟨requests, between, hok, -⟩ := bind_run_eq_ok hlisted
    rw [hok] at hwork
    cases hwork

/-! ## Loading -/

/-- The dialog that asks for the file of a session. -/
def sessionDialog (w : Window) : Shown :=
  .pathDialog .openOne "Load Session" w.settings.lastFolder sessionFilter

/-- A loaded session is in the place of the one that was open. -/
structure Installed (session : Session) (path : Text) (after : Window) : Prop where
  documents : after.bench.session = session
  ids : after.documentIds = List.replicate session.documents.length none
  labels : after.labels = session.documents.map label
  row : after.row = session.documents.head?.map fun _ => 0
  shown : after.bench.table.shown = after.row
  sessionPath : after.sessionPath = path
  title : after.title = programName ++ " — " ++ FilePath.baseName path

/-- The window tells that the file could not be loaded, and is otherwise as it was. -/
def Refused (w after : Window) : Prop :=
  ∃ problem, after = { w with shown := w.shown ++ [w.sessionDialog,
    .box ⟨.warning, "Load Failed", "Could not load session:\n" ++ problem⟩] }

/-- The file at a path could not be loaded, which is told, or its session is in place. -/
def LoadHandled (w : Window) (path : Text) (after : Window) : Prop :=
  w.Refused after ∨ ∃ content session, w.disk.read path = .ok content ∧
    Session.loadBytes content = .ok session ∧ Installed session path after

/-- Nothing in a file is of another kind than the reader needs, up to the first thing that is wrong
with it, and the first document can be listed under the search of the table. -/
def Loadable (w : Window) (content : Bytes) : Prop :=
  Reported (Session.loadBytes content) ∧
    ∀ session d, Session.loadBytes content = .ok session → session.documents.head? = some d →
      w.bench.Lists d

theorem rowNear_zero (ds : List SessionDocument) : rowNear 0 ds = ds.head?.map fun _ => 0 := by
  cases ds with
  | nil => rfl
  | cons d ds => exact congrArg some (Nat.zero_min _)

theorem head_of_rowNear_zero (ds : List SessionDocument) :
    (rowNear 0 ds).bind (ds[·]?) = ds.head? := by
  rw [rowNear_zero]
  cases ds <;> rfl

theorem install_of_lists (hquiet : w.bench.events = []) {session : Session} {path : Text}
    (hlists : ∀ d, session.documents.head? = some d → w.bench.Lists d) :
    ∃ after, install path session w = (.ok (), after) ∧ Installed session path after := by
  simp only [install, run_change]
  rw [bind_run, listDocuments_of_lists]
  · refine ⟨_, rfl, ?_, rfl, rfl, rowNear_zero _, ?_, rfl, rfl⟩
    · exact Workbench.applyFilter_session _
    · exact Workbench.applyFilter_shown _
  · exact hquiet
  · intro d hd
    exact hlists d ((head_of_rowNear_zero _).symm.trans hd)

theorem lists_of_install {session : Session} {path : Text} {d : SessionDocument}
    (hok : (install path session w).1 = .ok ()) (hquiet : w.bench.events = [])
    (hd : session.documents.head? = some d) : w.bench.Lists d := by
  simp only [install, run_change] at hok
  obtain ⟨_, _, hlisted, -⟩ := bind_run_eq_ok (Prod.ext hok rfl)
  have hlists := lists_of_listDocuments (d := d) hlisted
  exact hlists hquiet ((head_of_rowNear_zero _).trans hd)

/-- What happens when a file was chosen and no run is going on. -/
theorem loadSession_eq (hidle : w.engine.running = false) {path : Text} (hpath : path ≠ []) :
    loadSession path w =
      (match readSession w.disk path with
        | .error fault => throw fault
        | .ok (.error problem) =>
          warn .warning "Load Failed" ("Could not load session:\n" ++ problem)
        | .ok (.ok session) => install path session)
        { w with shown := w.shown ++ [w.sessionDialog] } := by
  have hgoes : ¬(path.isEmpty = true ∨ w.engine.running = true) := by
    simp [hpath, hidle]
  simp only [loadSession, run_get]
  rw [if_neg hgoes]
  rfl

section Loads

variable {path : Text} (hidle : w.engine.running = false) (hpath : path ≠ [])

include hidle hpath

theorem loadSession_of_problem {problem : Text}
    (h : readSession w.disk path = .ok (.error problem)) :
    (loadSession path w).1 = .ok () ∧ w.Refused (loadSession path w).2 := by
  rw [loadSession_eq hidle hpath, h]
  exact ⟨rfl, problem, congrArg (fun shown => { w with shown }) (List.append_assoc ..)⟩

theorem loadSession_of_fault {fault : Fault} (h : readSession w.disk path = .error fault) :
    (loadSession path w).1 ≠ .ok () := by
  rw [loadSession_eq hidle hpath, h]
  exact nofun

/-- A session that was read comes into place exactly if its first document can be listed. -/
theorem loadSession_of_session (hquiet : w.bench.events = []) {session : Session}
    (h : readSession w.disk path = .ok (.ok session)) :
    ((loadSession path w).1 = .ok () ↔ ∀ d, session.documents.head? = some d → w.bench.Lists d) ∧
      ((loadSession path w).1 = .ok () → Installed session path (loadSession path w).2) := by
  rw [loadSession_eq hidle hpath, h]
  dsimp only
  let shown : Window := { w with shown := w.shown ++ [w.sessionDialog] }
  have hinstall (hlists : ∀ d, session.documents.head? = some d → w.bench.Lists d) :
      ∃ after, install path session shown = (.ok (), after) ∧ Installed session path after :=
    install_of_lists (w := shown) hquiet hlists
  have hlists (hok : (install path session shown).1 = .ok ()) (d : SessionDocument)
      (hd : session.documents.head? = some d) : shown.bench.Lists d :=
    lists_of_install hok hquiet hd
  refine ⟨⟨hlists, fun h => ?_⟩, fun hok => ?_⟩
  · obtain ⟨after, hinstalls, -⟩ := hinstall h
    exact congrArg Prod.fst hinstalls
  · obtain ⟨after, hinstalls, hinstalled⟩ := hinstall (hlists hok)
    show Installed session path (install path session shown).2
    rwa [hinstalls]

theorem loadSession_of_quiet (hquiet : w.bench.events = []) :
    ((loadSession path w).1 = .ok () ↔
      ∀ content, w.disk.read path = .ok content → w.Loadable content) ∧
    ((loadSession path w).1 = .ok () → w.LoadHandled path (loadSession path w).2) := by
  cases hread : w.disk.read path with
  | error e =>
    have hproblem : readSession w.disk path = .ok (.error e.message) := by
      rw [readSession, hread]
    obtain ⟨hok, hrefused⟩ := loadSession_of_problem hidle hpath hproblem
    exact ⟨⟨fun _ => nofun, fun _ => hok⟩, fun _ => .inl hrefused⟩
  | ok content =>
    simp only [Except.ok.injEq, forall_eq', Loadable]
    cases hload : Session.loadBytes content with
    | error cause =>
      by_cases hreported : isLoadFailure cause = true
      · have hproblem : readSession w.disk path = .ok (.error (cause.message?.getD [])) := by
          simp only [readSession, hread, hload, hreported, if_true]
        obtain ⟨hok, hrefused⟩ := loadSession_of_problem hidle hpath hproblem
        refine ⟨⟨fun _ => ⟨?_, nofun⟩, fun _ => hok⟩, fun _ => .inl hrefused⟩
        rintro _ ⟨⟩
        exact hreported
      · have hfault : readSession w.disk path = .error (.error cause) := by
          simp only [readSession, hread, hload, hreported, Bool.false_eq_true, if_false]
        have hfails := loadSession_of_fault hidle hpath hfault
        exact ⟨⟨fun hok => absurd hok hfails, fun h => absurd (h.1 cause rfl) hreported⟩,
          fun hok => absurd hok hfails⟩
    | ok session =>
      have hsession : readSession w.disk path = .ok (.ok session) := by
        simp only [readSession, hread, hload]
      obtain ⟨hends, hinstalls⟩ := loadSession_of_session hidle hpath hquiet hsession
      refine ⟨⟨fun hok => ⟨.ok session, ?_⟩, fun h => hends.mpr fun d => h.2 session d rfl⟩,
        fun hok => .inr ⟨content, session, hread, hload, hinstalls hok⟩⟩
      rintro _ d ⟨⟩ hd
      exact hends.mp hok d hd

end Loads

/-- **Loading a session comes to its end** exactly if nothing in the file is of another kind than
the reader needs, up to the first thing that is wrong with it, and its first document can be listed
under the search of the table. Then either the file could not be loaded, which is told, and the
window is otherwise as it was; or the session in the file is in the place of the one that was open,
with no identifiers, a label for each document, the first document in the table, and the path and
the title of the file. -/
theorem loadSession_ends_iff {disk : Disk} {start : Window} (hstart : ofDisk disk = .ok start)
    (events : List Event) {path : Text} (hpath : path ≠ []) :
    let w := start.after events
    w.engine.running = false →
    ((loadSession path w).1 = .ok () ↔
      ∀ content, w.disk.read path = .ok content → w.Loadable content) ∧
    ((loadSession path w).1 = .ok () → w.LoadHandled path (loadSession path w).2) := by
  intro w hidle
  have hw : w.arrangement.Aligned False := aligned_after hstart events False.elim
  exact loadSession_of_quiet hidle hpath hw.quiet

/-- A script is no session, which is told. -/
theorem script_refused :
    Desk.greetingOpened.engine.running = false ∧
      (loadSession "a.rpy" Desk.greetingOpened).1 = .ok () ∧
      Desk.greetingOpened.Refused (loadSession "a.rpy" Desk.greetingOpened).2 := by
  have hidle := Desk.greeting_idle
  have hends : (loadSession "a.rpy" Desk.greetingOpened).1.isOk = true := by decide +kernel
  have hpath : (loadSession "a.rpy" Desk.greetingOpened).2.sessionPath = [] := by decide +kernel
  have hok : (loadSession "a.rpy" Desk.greetingOpened).1 = .ok () := by
    cases h : (loadSession "a.rpy" Desk.greetingOpened).1 with
    | ok => rfl
    | error => rw [h] at hends; cases hends
  refine ⟨hidle, hok, ?_⟩
  have hopened : Desk.greetingStart.after
      [.gesture (.choose .openDocuments { paths := ["a.rpy".toList] }) []] = Desk.greetingOpened :=
    rfl
  have hloads := loadSession_ends_iff Desk.ofDisk_greeting
    [.gesture (.choose .openDocuments { paths := ["a.rpy".toList] }) []]
    (show "a.rpy".toList ≠ [] by decide)
  simp only [hopened] at hloads
  rcases (hloads hidle).2 hok with hrefused | ⟨content, session, -, -, hinstalled⟩
  · exact hrefused
  · have hnever : "a.rpy".toList = [] := hinstalled.sessionPath.symm.trans hpath
    cases hnever

/-- A file that holds an empty list. -/
def listFile : Disk where
  files := [(["s.json".toList], Utf8.encode "[]".toList)]

/-- The window over the file. -/
def listStart : Window where
  settings := {}
  disk := listFile
  bench := Workbench.setDark {} true
  store := { lifetime := .int ({} : Settings).lifetime }

/-- A list is no session. The handler fails over it, and nobody is told. -/
theorem list_not_refused :
    (¬∀ (disk : Disk) (start : Window) (path : Text), ofDisk disk = .ok start → path ≠ [] →
      start.engine.running = false →
      (loadSession path start).1 = .ok () ∧ start.LoadHandled path (loadSession path start).2) ∧
    (loadSession "s.json" listStart).1.isOk = false ∧
      (loadSession "s.json" listStart).2.shown.length = 1 := by
  have hfails : (loadSession "s.json" listStart).1.isOk = false := by decide +kernel
  have hsilent : (loadSession "s.json" listStart).2.shown.length = 1 := by decide +kernel
  refine ⟨fun hclaim => ?_, hfails, hsilent⟩
  have hload : Settings.load (listFile.read settingsFile).toOption = .ok {} := by decide +kernel
  have hstart : ofDisk listFile = .ok listStart := by
    simp only [ofDisk, hload]
    rfl
  obtain ⟨hok, -⟩ := hclaim listFile listStart "s.json" hstart (by decide) rfl
  rw [hok] at hfails
  cases hfails

end Window

end GameText
