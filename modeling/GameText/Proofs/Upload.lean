import GameText.Document.Store
import GameText.Proofs.EventData.Orderly

/-!
# Uploads of several files

The files of an upload are taken in one after the other. As long as none of them is event data that
cannot be looked into, the upload has an entry for each file, in order; the entry says of its file
what it would say if the file were alone, and the store has a new document for each file whose
source was not refused (`uploadAll_outcome`). A file that cannot be looked into ends the upload: the
files after it are not taken in, and nothing is said of any (`disorderly_file_ends_upload`).
-/

namespace GameText

/-! ## One file -/

/-- What stands in the way of taking texts out of a file. -/
inductive Obstacle where
  /-- Its source cannot be decoded or parsed, or is no event data. -/
  | refused (cause : SourceError)
  /-- It is event data that cannot be looked into. -/
  | disorderly
deriving DecidableEq, Repr

namespace Document

/-- A text without the mark that may stand at its beginning. -/
def withoutMark (text : Text) : Text := if text.head? = some byteOrderMark then text.tail else text

/-- What stands in the way of taking texts out of a file, if anything does. Nothing is taken out of
a format without a parser. -/
def obstacle? (filename : Text) (content : Bytes) : Option Obstacle :=
  match Format.detect filename content, Utf8.decode content with
  | .other _, _ => none
  | _, .error refusal => some (.refused (.notUtf8 refusal))
  | .eventData, .ok text =>
    match EventData.read (withoutMark text) with
    | .error cause => some (.refused cause)
    | .ok (shape, document) =>
      if EventData.orderly shape document.value then none else some .disorderly
  | _, .ok _ => none

theorem decodeSource_of_ok {content : Bytes} {text : Text} (h : Utf8.decode content = .ok text) :
    ∃ marked, decodeSource content = .ok (withoutMark text, marked) := by
  unfold decodeSource withoutMark
  rw [h]
  cases text with
  | nil => exact ⟨_, rfl⟩
  | cons c rest =>
    by_cases hc : c = byteOrderMark
    · exact ⟨true, by simp [hc]⟩
    · exact ⟨false, by simp [hc]⟩

theorem decodeSource_of_error {content : Bytes} {refusal : Utf8.Refusal}
    (h : Utf8.decode content = .error refusal) :
    decodeSource content = .error (.source (.notUtf8 refusal)) := by
  unfold decodeSource
  rw [h]

/-- From a file of a supported format that can be decoded, what the format's parser takes out. -/
theorem extract_of_supported (options : ExtractionOptions) {filename : Text} {content : Bytes}
    {text : Text} (hsupported : (Format.detect filename content).supported = true)
    (htext : Utf8.decode content = .ok text) :
    extract options filename content =
      ((Format.detect filename content).extractUnits options (withoutMark text)).map fun units =>
        (⟨filename, content, Format.detect filename content⟩,
          { format := Format.detect filename content, units }) := by
  obtain ⟨marked, hsource⟩ := decodeSource_of_ok htext
  unfold extract
  simp only [hsupported, if_true, hsource]
  rfl

/-- Texts are taken out of a file, if perhaps none, exactly if nothing stands in the way. -/
theorem extract_cases (options : ExtractionOptions) (filename : Text) (content : Bytes) :
    match obstacle? filename content with
    | none => ∃ d e, extract options filename content = .ok (d, e)
    | some (.refused cause) => extract options filename content = .error (.source cause)
    | some .disorderly => ∃ cause, extract options filename content = .error (.misfit cause) := by
  by_cases hsupported : (Format.detect filename content).supported = true
  case neg =>
    have hnone : obstacle? filename content = none := by
      unfold obstacle?
      cases hformat : Format.detect filename content with
      | other => rfl
      | _ => exact absurd (by rw [hformat]; rfl) hsupported
    rw [hnone]
    exact ⟨_, _, by rw [extract, if_neg hsupported]⟩
  cases htext : Utf8.decode content with
  | error refusal =>
    have hrefused : obstacle? filename content = some (.refused (.notUtf8 refusal)) := by
      unfold obstacle?
      rw [htext]
      cases hformat : Format.detect filename content with
      | other => rw [hformat] at hsupported; cases hsupported
      | _ => rfl
    rw [hrefused, extract, if_pos hsupported, decodeSource_of_error htext]
    rfl
  | ok text =>
    rw [extract_of_supported options hsupported htext]
    unfold obstacle?
    rw [htext]
    cases hformat : Format.detect filename content with
    | other => rw [hformat] at hsupported; cases hsupported
    | eventData =>
      simp only [Format.extractUnits]
      rcases EventData.extract_cases options.scriptCalls (withoutMark text) with
        ⟨cause, hread, hextract⟩ | ⟨shape, document, hread, hextract⟩
      · rw [hread, hextract]
        rfl
      · cases horderly : EventData.orderly shape document.value with
        | true =>
          rw [horderly, if_pos rfl] at hextract
          obtain ⟨units, hunits⟩ := hextract
          simp only [hread, horderly, hunits, if_true]
          exact ⟨_, _, rfl⟩
        | false =>
          rw [horderly, if_neg Bool.false_ne_true] at hextract
          obtain ⟨cause, hcause⟩ := hextract
          simp only [hread, horderly, hcause, Bool.false_eq_true, if_false]
          exact ⟨cause, rfl⟩
    | _ => exact ⟨_, _, rfl⟩

end Document

/-! ## Entries -/

namespace UploadResult

/-- The file of an entry. -/
def filename : UploadResult → Text
  | extracted _ _ filename _ => filename
  | unsupported _ _ filename _ => filename
  | invalid filename _ => filename

/-- The identifier under which the file was stored, if it was. -/
def id? : UploadResult → Option Text
  | extracted id _ _ _ => some id
  | unsupported id _ _ _ => some id
  | invalid _ _ => none

/-- An entry but for its identifier: its kind, and what it says of the file. -/
def unnamed : UploadResult → UploadResult
  | extracted _ format filename texts => extracted [] format filename texts
  | unsupported _ format filename message => unsupported [] format filename message
  | invalid filename cause => invalid filename cause

/-- The entry of a stored document. -/
def ofStored (id : Text) (document : Document) (extraction : Extraction) (filename : Text) :
    UploadResult :=
  if extraction.supported then .extracted id document.format filename extraction.texts
  else .unsupported id document.format filename extraction.message

@[simp]
theorem filename_ofStored (id : Text) (d : Document) (e : Extraction) (name : Text) :
    (ofStored id d e name).filename = name := by
  unfold ofStored
  split <;> rfl

@[simp]
theorem id?_ofStored (id : Text) (d : Document) (e : Extraction) (name : Text) :
    (ofStored id d e name).id? = some id := by
  unfold ofStored
  split <;> rfl

theorem unnamed_ofStored (id id' : Text) (d : Document) (e : Extraction) (name : Text) :
    (ofStored id d e name).unnamed = (ofStored id' d e name).unnamed := by
  unfold ofStored
  split <;> rfl

theorem ofStored_ne_invalid (id : Text) (d : Document) (e : Extraction) (name name' : Text)
    (cause : SourceError) : ofStored id d e name ≠ .invalid name' cause := by
  intro h
  have hid := congrArg id? h
  rw [id?_ofStored] at hid
  cases hid

end UploadResult

namespace Store

open Document (obstacle?)

variable {options : ExtractionOptions} {now : Number}

/-- What an entry of an upload says of its file. -/
structure Entry (options : ExtractionOptions) (file : Text × Bytes) (result : UploadResult) :
    Prop where
  filename : result.filename = file.1
  /-- It reports an invalid source exactly if the source is refused, and with that cause. -/
  invalid : ∀ cause, result = .invalid file.1 cause ↔
    obstacle? file.1 file.2 = some (.refused cause)
  /-- It is the entry that the file would have alone, in whatever store. -/
  alone : ∀ (s : Store) (now : Number), ∃ alone,
    (s.uploadAll now options [file]).1 = .ok [alone] ∧ alone.unnamed = result.unnamed

/-- The store's new entry for a file, if it was stored. -/
def stored? (now : Number) (options : ExtractionOptions) (file : Text × Bytes)
    (result : UploadResult) : Option (Text × StoredDocument) :=
  result.id?.bind fun id =>
    ((Document.extract options file.1 file.2).toOption).map fun (document, extraction) =>
      (id, ⟨document, some extraction, now⟩)

theorem upload_of_extract (s : Store) {file : Text × Bytes} {d : Document} {e : Extraction}
    (h : Document.extract options file.1 file.2 = .ok (d, e)) :
    s.upload now options file.1 file.2 =
      .ok (.ofStored (idOf s.issued) d e file.1, (s.put now d (some e)).2) := by
  unfold upload UploadResult.ofStored
  rw [h]
  by_cases hsupported : e.supported = true
  · simp [hsupported, put]
  · simp [hsupported, put]

theorem uploadAll_of_upload (s : Store) {file : Text × Bytes} {result : UploadResult} {t : Store}
    (h : s.upload now options file.1 file.2 = .ok (result, t)) (files : List (Text × Bytes)) :
    s.uploadAll now options (file :: files) =
      ((t.uploadAll now options files).1.map (result :: ·), (t.uploadAll now options files).2) := by
  obtain ⟨filename, content⟩ := file
  rw [uploadAll]
  simp only [h]

theorem uploadAll_of_upload_error (s : Store) {file : Text × Bytes} {cause : Error}
    (h : s.upload now options file.1 file.2 = .error cause) (files : List (Text × Bytes)) :
    s.uploadAll now options (file :: files) = (.error cause, s) := by
  obtain ⟨filename, content⟩ := file
  rw [uploadAll]
  simp only [h]

/-- The upload of a file gives it its entry, and its place in the store if the entry says so. -/
def Taken (s : Store) (now : Number) (options : ExtractionOptions) (file : Text × Bytes) : Prop :=
  ∃ result t, s.upload now options file.1 file.2 = .ok (result, t) ∧ Entry options file result ∧
    t.entries = s.entries ++ (stored? now options file result).toList

/-- A file that nothing stands in the way of is stored. -/
theorem taken_of_extract (s : Store) (now : Number) {file : Text × Bytes}
    (hobstacle : obstacle? file.1 file.2 = none) {d : Document} {e : Extraction}
    (hextract : Document.extract options file.1 file.2 = .ok (d, e)) :
    s.Taken now options file := by
  have halone : ∀ (s : Store) (now : Number), (s.uploadAll now options [file]).1 =
      .ok [.ofStored (idOf s.issued) d e file.1] := by
    intro s now
    rw [uploadAll_of_upload s (upload_of_extract s hextract)]
    rfl
  refine ⟨_, _, upload_of_extract s hextract, ⟨?filename, ?invalid, ?alone⟩, ?entries⟩
  case filename => exact UploadResult.filename_ofStored ..
  case invalid =>
    intro cause
    refine iff_of_false (UploadResult.ofStored_ne_invalid _ d e _ _ cause) ?_
    rw [hobstacle]
    exact nofun
  case alone => exact fun s' now' => ⟨_, halone s' now', UploadResult.unnamed_ofStored ..⟩
  case entries => simp [stored?, hextract, put, Except.toOption]

/-- A file whose source is refused has an entry with the cause and is not stored. -/
theorem taken_of_refused (s : Store) (now : Number) {file : Text × Bytes} {cause : SourceError}
    (hobstacle : obstacle? file.1 file.2 = some (.refused cause))
    (hextract : Document.extract options file.1 file.2 = .error (.source cause)) :
    s.Taken now options file := by
  have hupload : ∀ (s : Store) (now : Number), s.upload now options file.1 file.2 =
      .ok (.invalid file.1 cause, s) := by
    intro s now
    unfold upload
    rw [hextract]
  refine ⟨_, _, hupload s now, ⟨rfl, ?invalid, ?alone⟩, ?entries⟩
  case invalid =>
    intro cause'
    rw [hobstacle]
    constructor
    · intro h
      cases h
      rfl
    · intro h
      cases h
      rfl
  case alone =>
    intro s' now'
    refine ⟨.invalid file.1 cause, ?_, rfl⟩
    rw [uploadAll_of_upload s' (hupload s' now')]
    rfl
  case entries => simp [stored?, UploadResult.id?]

/-- A file is taken in by itself: it ends the upload, or it has its entry and perhaps a place in the
store. -/
theorem upload_cases (s : Store) (now : Number) (options : ExtractionOptions)
    (file : Text × Bytes) :
    (obstacle? file.1 file.2 = some .disorderly ∧
      ∃ cause, s.upload now options file.1 file.2 = .error (.misfit cause)) ∨
    (obstacle? file.1 file.2 ≠ some .disorderly ∧ s.Taken now options file) := by
  have hcases := Document.extract_cases options file.1 file.2
  cases hobstacle : obstacle? file.1 file.2 with
  | none =>
    rw [hobstacle] at hcases
    obtain ⟨d, e, hextract⟩ := hcases
    exact .inr ⟨nofun, taken_of_extract s now hobstacle hextract⟩
  | some obstacle =>
    rw [hobstacle] at hcases
    cases obstacle with
    | disorderly =>
      obtain ⟨cause, hextract⟩ := hcases
      refine .inl ⟨rfl, cause, ?_⟩
      unfold upload
      rw [hextract]
    | refused cause => exact .inr ⟨nofun, taken_of_refused s now hobstacle hcases⟩

/-! ## All files -/

/-- **Files are kept apart.** An upload is complete exactly if no file of it is event data that
cannot be looked into. Then it has an entry for each file, in order, and the store has gained the
documents of the files that were not refused. Else it ends at the first such file with a misfit, and
the store has gained the documents of the files before. -/
theorem uploadAll_outcome (s : Store) (now : Number) (options : ExtractionOptions)
    (files : List (Text × Bytes)) :
    match s.uploadAll now options files with
    | (.ok results, t) =>
      (∀ file ∈ files, obstacle? file.1 file.2 ≠ some .disorderly) ∧
        List.Forall₂ (Entry options) files results ∧
        t.entries = s.entries ++
          (files.zip results).filterMap fun (file, result) => stored? now options file result
    | (.error cause, t) =>
      (∃ misfit, cause = .misfit misfit) ∧
        ∃ before file after, files = before ++ file :: after ∧
          obstacle? file.1 file.2 = some .disorderly ∧
          (∀ earlier ∈ before, obstacle? earlier.1 earlier.2 ≠ some .disorderly) ∧
          t = (s.uploadAll now options before).2 := by
  induction files generalizing s with
  | nil => exact ⟨nofun, .nil, (List.append_nil _).symm⟩
  | cons file files ih =>
    rcases upload_cases s now options file with
      ⟨hdisorderly, cause, hupload⟩ | ⟨hfine, result, t, hupload, hentry, hstored⟩
    · rw [uploadAll_of_upload_error s hupload]
      exact ⟨⟨cause, rfl⟩, [], file, files, rfl, hdisorderly, nofun, rfl⟩
    · rw [uploadAll_of_upload s hupload]
      have hrest := ih t
      generalize t.uploadAll now options files = outcome at hrest ⊢
      obtain ⟨outcome, u⟩ := outcome
      cases outcome with
      | ok results =>
        obtain ⟨hall, hentries, hu⟩ := hrest
        refine ⟨List.forall_mem_cons.mpr ⟨hfine, hall⟩, .cons hentry hentries, ?_⟩
        show u.entries = _
        rw [hu, hstored, List.append_assoc]
        cases hplace : stored? now options file result <;> simp [hplace]
      | error cause =>
        obtain ⟨hcause, before, bad, after, hsplit, hbad, hbefore, hu⟩ := hrest
        refine ⟨hcause, file :: before, bad, after, congrArg (file :: ·) hsplit, hbad,
          List.forall_mem_cons.mpr ⟨hfine, hbefore⟩, ?_⟩
        rw [uploadAll_of_upload s hupload]
        exact hu

/-- A code that is an array ends the upload: there are no entries, though the script after it has
one alone. -/
theorem disorderly_file_ends_upload :
    let store : Store := { lifetime := .int 0 }
    let bad := ("CommonEvents.json".toList,
      Utf8.encode "[\x7b\"list\":[\x7b\"code\":[]\x7d]\x7d]".toList)
    let good := ("script.rpy".toList, Utf8.encode "e \"Hello\"".toList)
    (∀ results, (store.uploadAll (.int 0) {} [bad, good]).1 ≠ .ok results) ∧
      (store.uploadAll (.int 0) {} [good]).1.toOption.map (·.map UploadResult.filename) =
        some ["script.rpy".toList] := by
  intro store bad good
  have hfails : (store.uploadAll (.int 0) {} [bad, good]).1.isOk = false := by decide +kernel
  have halone : (store.uploadAll (.int 0) {} [good]).1.toOption.map
      (·.map UploadResult.filename) = some ["script.rpy".toList] := by
    decide +kernel
  refine ⟨fun results hok => ?_, halone⟩
  rw [hok] at hfails
  cases hfails

end Store

end GameText
