import GameText.Desktop.Window

/-!
# Opening, saving and closing

What the window does with documents and sessions. A file that cannot be read or whose source is
invalid is reported, and the others are opened; a document that cannot be written back is reported,
and the others are exported.
-/

namespace GameText

namespace Window

/-! ## Opening and closing documents -/

/-- The filter of the dialog that opens documents. -/
def documentFilter : Text := "Game scripts (*.json *.rpy *.ks);;All Files (*)"

/-- The filter of the dialogs for sessions. -/
def sessionFilter : Text := "JSON Files (*.json)"

/-- The files at some paths, and what is wrong with the others. -/
def readAll (disk : Disk) (paths : List Text) : List (Text × Bytes) × List Text :=
  (paths.filterMap fun path =>
      ((disk.read path).toOption).map fun content => (FilePath.baseName path, content),
    paths.filterMap fun path =>
      match disk.read path with
      | .ok _ => none
      | .error e => some (FilePath.baseName path ++ ": " ++ e.message))

/-- What is wrong with a file that was taken in. -/
def problem? : UploadResult → Option Text
  | .extracted .. => none
  | .unsupported _ _ filename message => some (filename ++ ": " ++ message)
  | .invalid filename cause => some (filename ++ ": " ++ cause.message)

/-- Adds a document of the store to the session. One that the store has already dropped is a
fault. -/
def adopt (id : Text) : Act Unit := do
  let w ← get
  let (item, store) := w.store.get w.storeClock id
  change fun w => { w with store }
  match item with
  | some ⟨document, some extraction, _⟩ =>
    let added := SessionDocument.new document extraction []
    change fun w =>
      { w with
        bench := { w.bench with session := ⟨w.documents ++ [added]⟩ }
        documentIds := w.documentIds ++ [some id]
        identities := w.identities ++ [w.nextIdentity]
        nextIdentity := w.nextIdentity + 1 }
  | _ => throw (.error (.misfit .noSuchPart))

/-- Adds the documents whose texts were taken out. -/
def adoptAll : List UploadResult → Act Unit
  | [] => pure ()
  | .extracted id _ _ _ :: results => do
    adopt id
    adoptAll results
  | _ :: results => adoptAll results

/-- Takes files into the store. -/
def takeIn (files : List (Text × Bytes)) : Act (List UploadResult) := do
  let w ← get
  let options : ExtractionOptions := { macroTexts := w.settings.macroTexts }
  let (results, store) := w.store.uploadAll w.storeClock options files
  change fun w => { w with store }
  match results with
  | .ok results => return results
  | .error cause => throw (.error cause)

/-- Opens the documents at some paths, and lists those that were not opened. -/
def openDocuments (paths : List Text) : Act Unit := do
  let w ← get
  Window.show (.pathDialog .openMany "Open Game Script Files" w.settings.lastFolder documentFilter)
  match paths with
  | [] => return
  | first :: _ =>
    change fun w =>
      { w with settings := { w.settings with lastFolder := FilePath.folderName first } }
    keepSettings
    let (files, unread) := readAll (← get).disk paths
    let before := w.documents.length
    let results ← takeIn files
    adoptAll results
    listDocuments before
    let session := (← get).bench.session
    say ("Opened " ++ Text.ofNat (session.documents.length - before) ++ " document(s), " ++
      Text.ofNat session.total ++ " text units in session") 5000
    let problems := unread ++ results.filterMap problem?
    unless problems.isEmpty do
      warn .warning "Some Files Were Not Opened" (Text.join ['\n'] problems)

/-- Closes the current document, unless a run is going on. -/
def closeDocument : Act Unit := do
  let w ← get
  match w.current? with
  | none => return
  | some (i, _) =>
    if w.engine.running then return
    let store := match (w.documentIds[i]?).join with
      | some id => if id.isEmpty then w.store else (w.store.discard id).2
      | none => w.store
    change fun w =>
      { w with
        bench := { w.bench with session := ⟨w.documents.eraseIdx i⟩ }
        documentIds := w.documentIds.eraseIdx i
        identities := w.identities.eraseIdx i
        store }
    listDocuments i

/-! ## Writing documents -/

/-- A failure that is reported when a document is written: what the store and the formats refuse,
but not a value of an unexpected kind. -/
def isReported : Error → Bool
  | .source _ => true
  | .unsupportedFormat _ => true
  | .documentNotFound _ => true
  | _ => false

/-- Writes a document with its target texts to a path, and tells what went wrong if that is to be
reported. -/
def writeDocument (d : SessionDocument) (path : Act Text) : Act (Option Text) := do
  match d.save with
  | .error cause =>
    if isReported cause then return some (cause.message?.getD []) else throw (.error cause)
  | .ok content =>
    match (← get).disk.write (← path) content with
    | .error e => return some e.message
    | .ok disk =>
      change fun w => { w with disk }
      return none

/-- The path of a document in a folder. Only a text is a name. -/
def pathIn (folder : Text) (d : SessionDocument) : Act Text :=
  match d.filename with
  | .str name => return FilePath.join folder name
  | _ => throw (.error (.misfit .wrongKind))

/-- Writes the current document to a path. -/
def saveDocument (path : Text) : Act Unit := do
  let w ← get
  match w.current? with
  | none => return
  | some (_, d) =>
    let proposed ← pathIn w.settings.lastFolder d
    Window.show (.pathDialog .save "Save Document" proposed none)
    if path.isEmpty then return
    match ← writeDocument d (pure path) with
    | some problem => warn .critical "Save Failed" problem
    | none => say ("Saved " ++ path) 5000

/-- Writes documents into a folder under their own names. The answer is how many were written, and
what went wrong with the others. -/
def exportEach (folder : Text) : List SessionDocument → Act (Nat × List Text)
  | [] => return (0, [])
  | d :: ds => do
    let problem ← writeDocument d (pathIn folder d)
    let (written, failed) ← exportEach folder ds
    match problem with
    | none => return (written + 1, failed)
    | some problem => return (written, (d.filename.asText ++ ": " ++ problem) :: failed)

/-- Writes every document into a folder. -/
def exportDocuments (folder : Text) : Act Unit := do
  let w ← get
  Window.show (.pathDialog .folder "Export Translated Files To" w.settings.lastFolder none)
  if folder.isEmpty then return
  let (written, failed) ← exportEach folder w.documents
  say ("Exported " ++ Text.ofNat written ++ " file(s) to " ++ folder) 5000
  unless failed.isEmpty do warn .warning "Export Incomplete" (Text.join ['\n'] failed)

/-! ## Sessions -/

/-- Writes the session to its path, with the folders on the way. -/
def writeSession : Act Unit := do
  let w ← get
  let folder := FilePath.folderName w.sessionPath
  match w.disk.makeFolders (if folder.isEmpty then ['.'] else folder) with
  | .error e => throw (.file e)
  | .ok disk =>
    change fun w => { w with disk }
    match disk.write w.sessionPath (Utf8.encode w.bench.session.save) with
    | .error e => throw (.file e)
    | .ok disk =>
      change fun w => { w with disk }
      say ("Saved to " ++ FilePath.baseName w.sessionPath) 3000

/-- Saves the session under a new path. -/
def saveSessionAs (path : Text) : Act Unit := do
  let w ← get
  Window.show (.pathDialog .save "Save Session" w.settings.lastFolder sessionFilter)
  if path.isEmpty then return
  change fun w => { w with sessionPath := path }
  writeSession

/-- Saves the session where it was saved or loaded last, or under a new path. -/
def saveSession (path : Text) : Act Unit := do
  if (← get).sessionPath.isEmpty then saveSessionAs path else writeSession

/-- A failure that is reported when a session is loaded: content that is no session file, but not a
value of an unexpected kind. -/
def isLoadFailure : Error → Bool
  | .misfit .noSuchKey => true
  | .misfit _ => false
  | _ => true

/-- Reads the session at a path, or tells what went wrong if that is to be reported. -/
def readSession (disk : Disk) (path : Text) : Except Fault (Except Text Session) :=
  match disk.read path with
  | .error e => .ok (.error e.message)
  | .ok content =>
    match Session.loadBytes content with
    | .ok session => .ok (.ok session)
    | .error cause =>
      if isLoadFailure cause then .ok (.error (cause.message?.getD [])) else .error (.error cause)

/-- Puts a loaded session in the place of the one that is open. -/
def install (path : Text) (session : Session) : Act Unit := do
  change fun w =>
    { w with
      bench := { w.bench with session }
      documentIds := List.replicate session.documents.length none
      identities := List.range' w.nextIdentity session.documents.length
      nextIdentity := w.nextIdentity + session.documents.length
      sessionPath := path }
  listDocuments 0
  say ("Loaded session: " ++ Text.ofNat session.total ++ " units (" ++
    Text.ofNat session.translatedCount ++ " translated)") 5000
  change fun w => { w with title := programName ++ " — " ++ FilePath.baseName path }

/-- Loads the session at a path, unless a run is going on. -/
def loadSession (path : Text) : Act Unit := do
  let w ← get
  Window.show (.pathDialog .openOne "Load Session" w.settings.lastFolder sessionFilter)
  if path.isEmpty ∨ w.engine.running then return
  match readSession w.disk path with
  | .error fault => throw fault
  | .ok (.error problem) => warn .warning "Load Failed" ("Could not load session:\n" ++ problem)
  | .ok (.ok session) => install path session

end Window

end GameText
