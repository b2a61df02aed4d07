import GameText.Document.Basic

/-!
# The document store

The store keeps opened documents under identifiers of its own until they are discarded or until
they have not been asked for during a lifetime. A lifetime of zero never ends. Asking for a document
starts its lifetime anew. The time of each call is an argument, so the store is a function of its
history.
-/

namespace GameText

/-- A document in the store, with the time of the last access. -/
structure StoredDocument where
  document : Document
  extraction : Option Extraction
  touched : Number

/-- The store: the lifetime, the entries in the order in which they were put, and how many
identifiers have been given out. -/
structure Store where
  lifetime : Number
  entries : List (Text × StoredDocument) := []
  issued : Nat := 0

namespace Store

/-- The identifier with a number. -/
def idOf (n : Nat) : Text := "doc".toList ++ Text.ofNat n

/-- The identifiers of the entries. -/
def ids (s : Store) : List Text := s.entries.map (·.1)

/-- The number of entries. -/
def size (s : Store) : Nat := s.entries.length

/-- Puts a document under a new identifier. -/
def put (s : Store) (now : Number) (document : Document) (extraction : Option Extraction) :
    Text × Store :=
  let id := idOf s.issued
  (id, { s with
    entries := s.entries ++ [(id, ⟨document, extraction, now⟩)], issued := s.issued + 1 })

/-- The lifetime of an entry has ended. -/
def isStale (s : Store) (now : Number) (item : StoredDocument) : Bool :=
  !s.lifetime.isZero && s.lifetime.lt (now.sub item.touched)

/-- The entries without one. -/
def without (s : Store) (id : Text) : Store := { s with entries := s.entries.filter (·.1 != id) }

/-- Asks for a document. A stale entry is dropped; any other is touched. -/
def get (s : Store) (now : Number) (id : Text) : Option StoredDocument × Store :=
  match lookup? id s.entries with
  | none => (none, s)
  | some item =>
    if s.isStale now item then (none, s.without id)
    else
      let item := { item with touched := now }
      (some item, { s with entries := assign id item s.entries })

/-- The document is there; asking counts as an access. -/
def contains (s : Store) (now : Number) (id : Text) : Bool × Store :=
  let (item, s) := s.get now id
  (item.isSome, s)

/-- Drops an entry, and tells whether it was there. -/
def discard (s : Store) (id : Text) : Bool × Store :=
  ((lookup? id s.entries).isSome, s.without id)

/-- Drops every stale entry, and tells how many there were. -/
def purge (s : Store) (now : Number) : Nat × Store :=
  let kept := s.entries.filter fun (_, item) => !s.isStale now item
  (s.entries.length - kept.length, { s with entries := kept })

end Store

/-- The outcome of one file of an upload. -/
inductive UploadResult where
  /-- The document is stored and its texts were taken out. -/
  | extracted (id : Text) (format : Format) (filename : Text) (texts : List Text)
  /-- The document is stored, but nothing is taken out of its format. -/
  | unsupported (id : Text) (format : Format) (filename : Text) (message : Text)
  /-- The source is invalid and not stored. -/
  | invalid (filename : Text) (cause : SourceError)

namespace Store

/-- Takes one file in. Only an invalid source is an outcome; any other failure is passed on. -/
def upload (s : Store) (now : Number) (options : ExtractionOptions) (filename : Text)
    (content : Bytes) : Except Error (UploadResult × Store) :=
  match Document.extract options filename content with
  | .error (.source cause) => .ok (.invalid filename cause, s)
  | .error cause => .error cause
  | .ok (document, extraction) =>
    let (id, s) := s.put now document (some extraction)
    if extraction.supported then
      .ok (.extracted id document.format filename extraction.texts, s)
    else .ok (.unsupported id document.format filename extraction.message, s)

/-- Takes files in, one after the other. A failure that is no outcome ends the upload; what was
stored before it stays. -/
def uploadAll (s : Store) (now : Number) (options : ExtractionOptions) :
    List (Text × Bytes) → Except Error (List UploadResult) × Store
  | [] => (.ok [], s)
  | (filename, content) :: files =>
    match s.upload now options filename content with
    | .error cause => (.error cause, s)
    | .ok (result, s) =>
      let (results, s) := s.uploadAll now options files
      (results.map (result :: ·), s)

/-- The bytes of a stored document with edited texts, under its file name. -/
def save (s : Store) (now : Number) (id : Text) (edits : Option Edits) :
    Except Error (Text × Bytes) × Store :=
  let (item, s) := s.get now id
  match item with
  | none => (.error (.documentNotFound id), s)
  | some item =>
    match item.extraction with
    | none => (.error (.unsupportedFormat item.document.format.tag), s)
    | some extraction =>
      ((item.document.reinsert extraction edits).map fun bytes =>
        (item.document.filename, bytes), s)

end Store

end GameText
