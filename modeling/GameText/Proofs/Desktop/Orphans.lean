import GameText.Proofs.Desktop.Loading
import Mathlib.Data.List.ReduceOption

/-!
# Documents that nobody can close

Closing a document drops it from the store. With a lifetime of zero nothing else ever does, so a
stored document that no opened document refers to stays for good: an orphan. There are two ways to
leave one behind. A session that is loaded takes the place of the opened documents, whose entries
stay in the store; and an upload that ends at event data that cannot be looked into has stored the
files before, though none of them is opened.

What an event does to the identifiers is said once (`Shelf.Turns`), with the identifiers it leaves
behind. From that the orphans are accounted for exactly: those before the event, and those it left
behind (`Shelf.Turns.orphan_iff`). So the store holds no orphan exactly if no event of the run was
of one of the two kinds (`Window.no_orphans_iff`).

Not established: anything about lifetimes other than zero.
-/

namespace GameText

/-! ## The store beside the opened documents -/

/-- The identifiers that opened documents have, and those of the stored documents of supported
formats. -/
structure Shelf where
  claimed : List Text
  stored : List Text

namespace Shelf

/-- No two opened documents have one identifier, and what they refer to is stored. -/
structure Held (s : Shelf) : Prop where
  distinct : s.claimed.Nodup
  stored : s.claimed ⊆ s.stored

/-- A stored document that no opened document refers to. -/
def Orphan (s : Shelf) (id : Text) : Prop := id ∈ s.stored ∧ id ∉ s.claimed

/-- What an event does to the identifiers, and which of them it leaves behind. -/
inductive Turns (s : Shelf) : List Text → Shelf → Prop
  /-- No document with an identifier is opened or closed. -/
  | stays : Turns s [] s
  /-- A document is closed, and dropped from the store. -/
  | closes {before after : List Text} {id : Text} (found : s.claimed = before ++ id :: after) :
      Turns s [] ⟨before ++ after, s.stored.filter (· != id)⟩
  /-- Documents are stored and opened. -/
  | opens {new : List Text} (fresh : (s.stored ++ new).Nodup) :
      Turns s [] ⟨s.claimed ++ new, s.stored ++ new⟩
  /-- Documents are stored, but not opened. -/
  | stores {new : List Text} (fresh : (s.stored ++ new).Nodup) :
      Turns s new ⟨s.claimed, s.stored ++ new⟩
  /-- A session takes the place of the opened documents. -/
  | loads : Turns s s.claimed ⟨[], s.stored⟩

namespace Turns

variable {s s' : Shelf} {left : List Text}

theorem held (h : Turns s left s') (hs : s.Held) : s'.Held := by
  cases h with
  | stays => exact hs
  | @closes before after id found =>
    obtain ⟨hnew, hdistinct⟩ := List.nodup_cons.mp (List.nodup_middle.mp (found ▸ hs.distinct))
    refine ⟨hdistinct, fun k hk => List.mem_filter.mpr ⟨hs.stored ?_, bne_iff_ne.mpr ?_⟩⟩
    · rw [found]
      exact List.perm_middle.mem_iff.mpr (List.mem_cons_of_mem _ hk)
    · rintro rfl
      exact hnew hk
  | @opens new fresh =>
    obtain ⟨-, hnew, hapart⟩ := List.nodup_append.mp fresh
    refine ⟨List.nodup_append.mpr ⟨hs.distinct, hnew, fun a ha => hapart a (hs.stored ha)⟩, ?_⟩
    exact List.append_subset.mpr
      ⟨List.subset_append_of_subset_left _ hs.stored, List.subset_append_right _ _⟩
  | stores => exact ⟨hs.distinct, List.subset_append_of_subset_left _ hs.stored⟩
  | loads => exact ⟨.nil, List.nil_subset _⟩

/-- **The orphans after an event** are those before it and those it left behind. -/
theorem orphan_iff (h : Turns s left s') (hs : s.Held) (id : Text) :
    s'.Orphan id ↔ s.Orphan id ∨ id ∈ left := by
  cases h with
  | stays => simp
  | @closes before after closed found =>
    have hmem : id ∈ s.claimed ↔ id = closed ∨ id ∈ before ++ after := by
      rw [found, List.perm_middle.mem_iff, List.mem_cons]
    simp only [Orphan, hmem, List.mem_filter, bne_iff_ne, not_or, List.not_mem_nil, or_false,
      and_assoc, ne_eq]
  | @opens new fresh =>
    have hfresh : id ∈ s.stored → id ∉ new := fun hold hnew =>
      (List.nodup_append.mp fresh).2.2 id hold id hnew rfl
    simp only [Orphan, List.mem_append, not_or, List.not_mem_nil, or_false]
    tauto
  | stores fresh =>
    have hfresh : id ∈ left → id ∉ s.claimed := fun hnew hclaimed =>
      (List.nodup_append.mp fresh).2.2 id (hs.stored hclaimed) id hnew rfl
    simp only [Orphan, List.mem_append]
    tauto
  | loads =>
    have hstored : id ∈ s.claimed → id ∈ s.stored := fun h => hs.stored h
    simp only [Orphan, List.not_mem_nil, not_false_iff, and_true]
    tauto

end Turns

end Shelf

/-! ## What an upload stores -/

/-- Texts can be taken out of a file: its format is supported, and nothing stands in the way. -/
def Document.Openable (file : Text × Bytes) : Prop :=
  Document.obstacle? file.1 file.2 = none ∧ (Format.detect file.1 file.2).supported = true

/-- The identifier of a document that is to be opened. -/
def UploadResult.openedId? : UploadResult → Option Text
  | .extracted id _ _ _ => some id
  | _ => none

namespace Document

/-- An extraction is of the format of its document, and tells whether that is supported. -/
theorem format_of_extract {options : ExtractionOptions} {filename : Text} {content : Bytes}
    {d : Document} {e : Extraction} (h : extract options filename content = .ok (d, e)) :
    d.format = Format.detect filename content ∧
      e.supported = (Format.detect filename content).supported := by
  simp only [extract] at h
  split at h
  next hsupported =>
    obtain ⟨⟨source, marked⟩, -, h⟩ := bind_eq_ok h
    obtain ⟨units, -, h⟩ := bind_eq_ok h
    cases h
    exact ⟨rfl, hsupported.symm⟩
  next hsupported =>
    cases h
    exact ⟨rfl, (Bool.eq_false_iff.mpr hsupported).symm⟩

end Document

namespace Store

/-- The identifiers of the stored documents of supported formats. -/
def supported (s : Store) : List Text :=
  (s.entries.filter fun entry => entry.2.document.format.supported).map (·.1)

theorem mem_supported {s : Store} {id : Text} :
    id ∈ s.supported ↔ ∃ item, (id, item) ∈ s.entries ∧ item.document.format.supported = true := by
  simp [supported]

theorem Sound.nodup_supported {s : Store} (h : Sound s) : s.supported.Nodup :=
  h.distinct.sublist (List.filter_sublist.map _)

theorem supported_without (s : Store) (id : Text) :
    (s.without id).supported = s.supported.filter (· != id) := by
  simp only [supported, without, List.filter_filter, List.filter_map, Function.comp_def]
  congr 2
  funext entry
  exact Bool.and_comm ..

variable {s t : Store} {now : Number} {options : ExtractionOptions}

theorem lifetime_uploadAll (s : Store) (files : List (Text × Bytes)) :
    (s.uploadAll now options files).2.lifetime = s.lifetime := by
  induction files generalizing s with
  | nil => rfl
  | cons file files ih =>
    cases hupload : s.upload now options file.1 file.2 with
    | error cause => rw [uploadAll_of_upload_error s hupload]
    | ok uploaded =>
      rw [uploadAll_of_upload s hupload]
      refine (ih uploaded.2).trans ?_
      rcases upload_eq_ok hupload with ⟨hsame, -⟩ | ⟨d, e, hput, -⟩
      · rw [hsame]
      · rw [hput]
        rfl

/-- What one file of an upload adds to the store. -/
theorem supported_upload {file : Text × Bytes} {result : UploadResult}
    (h : s.upload now options file.1 file.2 = .ok (result, t)) :
    t.supported = s.supported ++ result.openedId?.toList ∧
      (result.openedId?.isSome ↔ Document.Openable file) := by
  have hcases := Document.extract_cases options file.1 file.2
  cases hobstacle : Document.obstacle? file.1 file.2 with
  | some obstacle =>
    rw [hobstacle] at hcases
    cases obstacle with
    | disorderly =>
      obtain ⟨cause, hextract⟩ := hcases
      unfold upload at h
      rw [hextract] at h
      cases h
    | refused cause =>
      unfold upload at h
      rw [hcases] at h
      cases h
      exact ⟨(List.append_nil _).symm, by simp [UploadResult.openedId?, Document.Openable, hobstacle]⟩
  | none =>
    rw [hobstacle] at hcases
    obtain ⟨d, e, hextract⟩ := hcases
    obtain ⟨hformat, hsupported⟩ := Document.format_of_extract hextract
    rw [upload_of_extract s hextract] at h
    cases h
    cases hdetected : (Format.detect file.1 file.2).supported with
    | false =>
      rw [hdetected] at hsupported
      simp [UploadResult.ofStored, UploadResult.openedId?, supported, put, hformat, hdetected,
        hsupported, Document.Openable]
    | true =>
      rw [hdetected] at hsupported
      simp [UploadResult.ofStored, UploadResult.openedId?, supported, put, hformat, hdetected,
        hsupported, hobstacle, Document.Openable]

/-- What a complete upload adds to the store. -/
theorem supported_uploadAll {files : List (Text × Bytes)} {results : List UploadResult}
    (h : s.uploadAll now options files = (.ok results, t)) :
    t.supported = s.supported ++ results.filterMap UploadResult.openedId? ∧
      (results.filterMap UploadResult.openedId? ≠ [] ↔ ∃ file ∈ files, Document.Openable file) := by
  induction files generalizing s results with
  | nil =>
    cases h
    simp
  | cons file files ih =>
    cases hfirst : s.upload now options file.1 file.2 with
    | error cause =>
      rw [uploadAll_of_upload_error s hfirst] at h
      cases h
    | ok uploaded =>
      obtain ⟨result, u⟩ := uploaded
      rw [uploadAll_of_upload s hfirst] at h
      obtain ⟨hresults, ht⟩ := Prod.mk.inj h
      cases hrest : (u.uploadAll now options files).1 with
      | error cause =>
        rw [hrest] at hresults
        cases hresults
      | ok rest =>
        rw [hrest] at hresults
        cases hresults
        have hafter : u.uploadAll now options files = (.ok rest, t) := Prod.ext hrest ht
        obtain ⟨hstored, hany⟩ := ih hafter
        obtain ⟨hone, hfile⟩ := supported_upload hfirst
        have hconcat : (result :: rest).filterMap UploadResult.openedId? =
            result.openedId?.toList ++ rest.filterMap UploadResult.openedId? := by
          rw [List.filterMap_cons]
          cases result.openedId? <;> rfl
        rw [hconcat]
        refine ⟨by rw [hstored, hone, List.append_assoc], ?_⟩
        rw [List.exists_mem_cons_iff, ← hfile, ← hany]
        cases result.openedId? <;> simp

end Store

/-- An upload of the files ends at one that cannot be looked into, behind one with texts. -/
def CutShort (files : List (Text × Bytes)) : Prop :=
  (∃ file ∈ files, Document.obstacle? file.1 file.2 = some .disorderly) ∧
    ∃ file ∈ files.takeWhile (fun file => Document.obstacle? file.1 file.2 ≠ some .disorderly),
      Document.Openable file

namespace Store

variable {s t : Store} {now : Number} {options : ExtractionOptions} {files : List (Text × Bytes)}

theorem not_cutShort_of_ok {results : List UploadResult}
    (h : s.uploadAll now options files = (.ok results, t)) : ¬CutShort files := by
  rintro ⟨⟨bad, hmem, hbad⟩, -⟩
  have houtcome := uploadAll_outcome s now options files
  rw [h] at houtcome
  exact houtcome.1 bad hmem hbad

/-- An upload that ends early has stored the files before. -/
theorem supported_of_error {cause : Error}
    (h : s.uploadAll now options files = (.error cause, t)) :
    ∃ new, t.supported = s.supported ++ new ∧ (new ≠ [] ↔ CutShort files) := by
  have houtcome := uploadAll_outcome s now options files
  rw [h] at houtcome
  obtain ⟨-, before, bad, after, rfl, hbad, hbefore, rfl⟩ := houtcome
  have hfront : (before ++ bad :: after).takeWhile
      (fun file => Document.obstacle? file.1 file.2 ≠ some .disorderly) = before := by
    rw [List.takeWhile_append_of_pos fun file hfile => decide_eq_true (hbefore file hfile),
      List.takeWhile_cons_of_neg (by simp [hbad]), List.append_nil]
  have hcut : CutShort (before ++ bad :: after) ↔ ∃ file ∈ before, Document.Openable file := by
    rw [CutShort, hfront]
    exact and_iff_right ⟨bad, List.mem_append_right _ List.mem_cons_self, hbad⟩
  have hcomplete := uploadAll_outcome s now options before
  cases hrun : s.uploadAll now options before with
  | mk outcome u =>
    rw [hrun] at hcomplete
    cases outcome with
    | error cause =>
      obtain ⟨-, earlier, first, later, rfl, hfirst, -⟩ := hcomplete
      exact absurd hfirst (hbefore first (List.mem_append_right _ List.mem_cons_self))
    | ok results =>
      obtain ⟨hstored, hany⟩ := supported_uploadAll hrun
      exact ⟨_, hstored, hany.trans hcut.symm⟩

end Store

namespace Window

/-- The identifiers that the window and its store have. -/
def shelf (w : Window) : Shelf := ⟨w.documentIds.reduceOption, w.store.supported⟩

/-! ## What leaves the identifiers alone -/

theorem shelf_of_arrangement {w w' : Window} (h : w'.arrangement = w.arrangement) :
    w'.shelf = w.shelf := by
  obtain ⟨-, hids, -, -, hstore⟩ := Arrangement.mk.inj h
  rw [shelf, shelf, hids, hstore]

instance : Apart shelf := ⟨fun _ _ => rfl, fun _ _ => rfl, fun _ _ => rfl⟩

section Keeps

variable {α : Type}

theorem Keeps.shelf {a : Act α} (h : Keeps arrangement a) : Keeps shelf a :=
  fun w => shelf_of_arrangement (h w)

theorem work_shelf (f : Workbench → Workbench) : Keeps shelf (work f) := by
  intro w
  obtain ⟨-, hids, -, -, hstore⟩ := Arrangement.mk.inj (work_arrangement f w)
  rw [shelf, shelf, hids, hstore]
  rfl

theorem setRow_shelf (row : Option Nat) : Keeps shelf (setRow row) := by
  intro w
  simp only [setRow, run_get]
  split
  · rfl
  · exact keeps_bind (keeps_change fun _ => by rfl)
      (fun _ => keeps_bind (work_shelf _) fun _ => keeps_pure _) w

theorem listDocuments_shelf (near : Nat) : Keeps shelf (listDocuments near) := by
  refine keeps_bind (keeps_change fun _ => by rfl) fun _ => ?_
  intro w
  simp only [run_get]
  split
  · exact keeps_bind (work_shelf _) (fun _ => keeps_change fun _ => by rfl) w
  · exact keeps_bind (setRow_shelf _) (fun _ => keeps_change fun _ => by rfl) w

theorem receiveTarget_shelf (document unit : Int) (text : Text) :
    Keeps shelf (receiveTarget document unit text) := by
  intro w
  simp only [receiveTarget, run_get]
  split
  · rfl
  · rcases w.bench.receive document.toNat unit text with cause | bench
    · rfl
    · exact keeps_bind (work_shelf _) (fun _ => keeps_change fun _ => by rfl) w

theorem follow_shelf (announcement : Announcement) :
    Keeps shelf (follow (pure ()) announcement) := by
  cases announcement with
  | progress done total preview =>
    exact keeps_bind (fun _ => rfl) fun _ => keeps_bind (fun _ => rfl) fun _ => keeps_pure _
  | done document unit text => exact receiveTarget_shelf document unit text
  | failed => exact keeps_say _ _
  | finished =>
    exact keeps_bind (keeps_change fun _ => by rfl) fun _ =>
      keeps_bind (keeps_change fun _ => by rfl) fun _ => keeps_bind keeps_get fun _ => keeps_say _ _

theorem report_shelf (signal : Signal) : Keeps shelf (report (pure ()) signal) := by
  refine keeps_bind keeps_get fun w => ?_
  dsimp only
  refine keeps_bind (keeps_change fun _ => by rfl) fun _ => ?_
  split
  · exact follow_shelf _
  · exact keeps_pure _

theorem chooseEntry_shelf (entry : Option Text) : Keeps shelf (chooseEntry deal entry) := by
  refine keeps_bind keeps_get fun w => ?_
  have hwork : Keeps shelf (do
      for units in ← work (·.chooseEntry entry) do
        translateUnits deal units : Act Unit) :=
    keeps_bind (work_shelf _) fun requests =>
      (keeps_bind (keeps_requests requests) fun _ => keeps_pure _).shelf
  dsimp only
  split
  · exact hwork
  · exact keeps_bind (keeps_show _) fun _ => hwork

theorem visitSettings_shelf (visit : FormVisit) : Keeps shelf (visitSettings visit) := by
  refine keeps_bind keeps_get fun w => ?_
  dsimp only
  refine keeps_bind (keeps_change fun _ => by rfl) fun _ => ?_
  split
  · exact keeps_throw _
  · refine keeps_bind (keeps_show _) fun _ => ?_
    split
    · exact keeps_bind (keeps_change fun _ => rfl) fun _ => keeps_bind keeps_keepSettings fun _ =>
        keeps_bind (work_shelf _) fun _ => keeps_pure _
    · exact keeps_pure _

theorem close_shelf : Keeps shelf close :=
  keeps_bind (keeps_change fun _ => by rfl) fun _ => keeps_keepSettings

end Keeps

/-! ## What leaves something behind -/

/-- A disk with settings kept on it, if they can be written. -/
def diskKept (disk : Disk) (settings : Settings) : Disk :=
  (disk.write settingsFile (Utf8.encode settings.save)).toOption.getD disk

/-- The files that are read when documents at some paths are opened. Before that the settings are
kept with the folder of the first. -/
def offered (w : Window) : List Text → List (Text × Bytes)
  | [] => []
  | first :: paths =>
    (readAll (diskKept w.disk { w.settings with lastFolder := FilePath.folderName first })
      (first :: paths)).1

/-- A session is loaded from a path while a document is open that is in the store. -/
def LoadsOver (w : Window) (path : Text) : Prop :=
  path ≠ [] ∧ w.engine.running = false ∧
    (∃ content session, w.disk.read path = .ok content ∧ Session.loadBytes content = .ok session) ∧
    ∃ id, some id ∈ w.documentIds

/-- What happens leaves a document in the store that no opened document refers to. -/
def LeavesBehind (w : Window) : Event → Prop
  | .gesture (.choose .loadSession reply) _ => w.LoadsOver reply.path
  | .gesture (.choose .openDocuments reply) _ => CutShort (w.offered reply.paths)
  | _ => False

/-- The identifiers change in one of the ways there are, and something is left behind exactly if
`P`. -/
def Leaves (P : Prop) (s s' : Shelf) : Prop := ∃ left, s.Turns left s' ∧ (left ≠ [] ↔ P)

theorem leaves_nothing {w w' : Window} {P : Prop} (h : w'.shelf = w.shelf) (hP : ¬P) :
    Leaves P w.shelf w'.shelf := by
  rw [h]
  exact ⟨[], .stays, by simp [hP]⟩

/-! ## Closing, loading and opening -/

theorem claimed_eq {w : Window} {i : Nat} {slot : Option Text} (h : w.documentIds[i]? = some slot) :
    w.shelf.claimed =
      (w.documentIds.take i).reduceOption ++ (slot.toList ++
        (w.documentIds.drop (i + 1)).reduceOption) := by
  obtain ⟨hlt, rfl⟩ := List.getElem?_eq_some_iff.mp h
  show w.documentIds.reduceOption = _
  nth_rewrite 1 [← List.take_append_drop i w.documentIds]
  rw [List.drop_eq_getElem_cons hlt, List.reduceOption_append]
  cases w.documentIds[i] <;> rfl

/-- The identifiers in the store are not blank. -/
theorem ne_nil_of_stored {s : Store} (h : s.Sound) {id : Text} (hid : id ∈ s.supported) :
    id ≠ [] := by
  obtain ⟨item, hitem, -⟩ := Store.mem_supported.mp hid
  obtain ⟨n, -, rfl⟩ := h.issued id (List.mem_map.mpr ⟨_, hitem, rfl⟩)
  exact List.append_ne_nil_of_left_ne_nil (by decide) _

theorem closeDocument_turns {w : Window} (hsound : w.store.Sound) (hheld : w.shelf.Held) :
    w.shelf.Turns [] (closeDocument w).2.shelf := by
  simp only [closeDocument, run_get]
  cases hcurrent : w.current? with
  | none => exact .stays
  | some current =>
    obtain ⟨i, d⟩ := current
    simp only
    split
    · exact .stays
    · rw [run_change, listDocuments_shelf]
      cases hslot : w.documentIds[i]? with
      | none =>
        have hlength := List.getElem?_eq_none_iff.mp hslot
        simp only [shelf, List.eraseIdx_of_length_le hlength, Option.join_none]
        exact .stays
      | some slot =>
        have hclaimed := claimed_eq hslot
        have hafter : (w.documentIds.eraseIdx i).reduceOption =
            (w.documentIds.take i).reduceOption ++ (w.documentIds.drop (i + 1)).reduceOption := by
          rw [List.eraseIdx_eq_take_drop_succ, List.reduceOption_append]
        cases slot with
        | none =>
          simp only [shelf, hafter, Option.join_some]
          rw [Option.toList_none, List.nil_append] at hclaimed
          rw [← hclaimed]
          exact .stays
        | some id =>
          have hstored : id ∈ w.store.supported :=
            hheld.stored (hclaimed ▸ List.mem_append_right _ List.mem_cons_self)
          have hne : id.isEmpty = false := by
            simpa using ne_nil_of_stored hsound hstored
          simp only [shelf, hafter, Option.join_some, hne, Bool.false_eq_true, if_false,
            Store.discard, Store.supported_without]
          exact .closes hclaimed

theorem readSession_eq_session {disk : Disk} {path : Text} {session : Session} :
    readSession disk path = .ok (.ok session) ↔
      ∃ content, disk.read path = .ok content ∧ Session.loadBytes content = .ok session := by
  unfold readSession
  cases disk.read path with
  | error => simp
  | ok content =>
    cases hload : Session.loadBytes content with
    | ok => simp [hload]
    | error cause => by_cases hreported : isLoadFailure cause = true <;> simp [hload, hreported]

theorem install_shelf (path : Text) (session : Session) (w : Window) :
    (install path session w).2.shelf = ⟨[], w.shelf.stored⟩ := by
  have hshown : Keeps shelf (say ("Loaded session: " ++ Text.ofNat session.total ++ " units (" ++
      Text.ofNat session.translatedCount ++ " translated)") 5000 >>= fun _ =>
        change fun w => { w with title := programName ++ " — " ++ FilePath.baseName path }) :=
    keeps_bind (keeps_say _ _) fun _ => keeps_change fun _ => by rfl
  simp only [install, run_change]
  rw [keeps_bind (listDocuments_shelf 0) fun _ => hshown]
  exact congrArg (Shelf.mk · w.store.supported) List.reduceOption_replicate_none

theorem loadSession_leaves (w : Window) (path : Text) :
    Leaves (w.LoadsOver path) w.shelf (loadSession path w).2.shelf := by
  by_cases hgoes : path ≠ [] ∧ w.engine.running = false
  case neg =>
    have hstops : path.isEmpty = true ∨ w.engine.running = true := by
      by_contra hnot
      simp only [not_or, List.isEmpty_iff, Bool.not_eq_true] at hnot
      exact hgoes hnot
    refine leaves_nothing ?_ fun hover => hgoes ⟨hover.1, hover.2.1⟩
    simp only [loadSession, run_get]
    rw [if_pos hstops]
    exact keeps_bind (keeps_show _) (fun _ => keeps_pure _) w
  obtain ⟨hpath, hidle⟩ := hgoes
  rw [loadSession_eq hidle hpath]
  cases hread : readSession w.disk path with
  | error fault =>
    refine leaves_nothing rfl fun hover => ?_
    obtain ⟨-, -, ⟨content, session, hfile⟩, -⟩ := hover
    rw [readSession_eq_session.mpr ⟨content, hfile⟩] at hread
    cases hread
  | ok outcome =>
    cases outcome with
    | error problem =>
      refine leaves_nothing (keeps_warn _ _ _ _) fun hover => ?_
      obtain ⟨-, -, ⟨content, session, hfile⟩, -⟩ := hover
      rw [readSession_eq_session.mpr ⟨content, hfile⟩] at hread
      cases hread
    | ok session =>
      obtain ⟨content, hfile⟩ := readSession_eq_session.mp hread
      dsimp only
      rw [install_shelf]
      refine ⟨w.shelf.claimed, .loads, ?_⟩
      simp only [shelf, ne_eq, List.eq_nil_iff_forall_not_mem, List.reduceOption_mem_iff, not_forall,
        not_not]
      exact ⟨fun hopen => ⟨hpath, hidle, ⟨content, session, hfile⟩, hopen⟩, fun hover => hover.2.2.2⟩

/-- Documents that were just stored are all opened, and the store stays as it is. -/
theorem adoptAll_opens {results : List UploadResult} {w : Window}
    (hbrought : w.store.Brought w.storeClock results) (hforever : w.store.lifetime.isZero = true) :
    ∃ w', adoptAll results w = (.ok (), w') ∧
      w'.shelf = ⟨w.shelf.claimed ++ results.filterMap UploadResult.openedId?, w.shelf.stored⟩ := by
  induction results generalizing w with
  | nil => exact ⟨w, rfl, by simp⟩
  | cons result results ih =>
    obtain ⟨hfirst, hrest⟩ := List.forall_mem_cons.mp hbrought
    cases result with
    | unsupported => exact ih hrest hforever
    | invalid => exact ih hrest hforever
    | extracted id format filename texts =>
      obtain ⟨d, e, hitem⟩ := hfirst id rfl
      have hfresh : w.store.isStale w.storeClock ⟨d, some e, w.storeClock⟩ = false := by
        rw [isStale_new, hforever]
        rfl
      rw [adoptAll, bind_run, adopt_found hitem hfresh, assign_self hitem]
      obtain ⟨w', hadopt, hshelf⟩ := ih (w := { w with
        bench := { w.bench with session := ⟨w.documents ++ [SessionDocument.new d e []]⟩ }
        documentIds := w.documentIds ++ [some id]
        identities := w.identities ++ [w.nextIdentity]
        nextIdentity := w.nextIdentity + 1 }) hrest hforever
      refine ⟨w', hadopt, hshelf.trans ?_⟩
      simp [shelf, List.reduceOption_append, UploadResult.openedId?]

/-- Files that are taken in are opened if all of them can be looked into, and else some may be left
behind. -/
theorem bring_leaves {w : Window} (hsound : w.store.Sound)
    (hforever : w.store.lifetime.isZero = true) (files : List (Text × Bytes)) (near : Nat)
    {k : List UploadResult → Act Unit} (hk : ∀ results, Keeps shelf (k results)) :
    Leaves (CutShort files) w.shelf ((do
      let results ← takeIn files
      adoptAll results
      listDocuments near
      k results : Act Unit) w).2.shelf := by
  let options : ExtractionOptions := { macroTexts := w.settings.macroTexts }
  have hafter : (w.store.uploadAll w.storeClock options files).2.Sound := hsound.uploadAll files
  rw [bind_run, takeIn_eq]
  cases hrun : w.store.uploadAll w.storeClock options files with
  | mk outcome store =>
    rw [hrun] at hafter
    have hnodup := hafter.nodup_supported
    cases outcome with
    | error cause =>
      obtain ⟨new, hstored, hcut⟩ := Store.supported_of_error hrun
      refine ⟨new, ?_, hcut⟩
      have hshelf : { w with store }.shelf = ⟨w.shelf.claimed, w.shelf.stored ++ new⟩ :=
        congrArg (Shelf.mk _) hstored
      show w.shelf.Turns new { w with store }.shelf
      rw [hshelf]
      exact .stores (hstored ▸ hnodup)
    | ok results =>
      obtain ⟨hstored, -⟩ := Store.supported_uploadAll hrun
      have hlifetime : store.lifetime.isZero = true := by
        rw [← hforever, ← Store.lifetime_uploadAll w.store files, hrun]
      obtain ⟨w', hadopt, hshelf⟩ := adoptAll_opens (w := { w with store })
        (hsound.brought_uploadAll hrun).1 hlifetime
      refine ⟨[], ?_, by simp [Store.not_cutShort_of_ok hrun]⟩
      show w.shelf.Turns [] ((adoptAll results >>= fun _ => listDocuments near >>= fun _ => k results)
        { w with store }).2.shelf
      rw [bind_run, hadopt]
      dsimp only
      rw [keeps_bind (listDocuments_shelf near) fun _ => hk results, hshelf]
      have hboth : { w with store }.shelf = ⟨w.shelf.claimed,
          w.shelf.stored ++ results.filterMap UploadResult.openedId?⟩ :=
        congrArg (Shelf.mk _) hstored
      rw [hboth]
      exact .opens (hstored ▸ hnodup)

theorem keepSettings_eq (w : Window) :
    keepSettings w = (.ok (), { w with disk := diskKept w.disk w.settings }) := by
  have hchange : ∀ f, change f w = (.ok (), f w) := fun f => rfl
  rw [keepSettings, hchange]
  unfold diskKept
  cases w.disk.write settingsFile (Utf8.encode w.settings.save) <;> rfl

theorem openDocuments_leaves {w : Window} (hsound : w.store.Sound)
    (hforever : w.store.lifetime.isZero = true) (paths : List Text) :
    Leaves (CutShort (w.offered paths)) w.shelf (openDocuments paths w).2.shelf := by
  cases paths with
  | nil =>
    refine leaves_nothing (keeps_bind (keeps_show _) (fun _ => keeps_pure _) w) ?_
    rintro ⟨⟨file, hfile, -⟩, -⟩
    cases hfile
  | cons first paths =>
    have hshow (shown : Shown) :
        Window.show shown = change fun w => { w with shown := w.shown ++ [shown] } := rfl
    let settings := { w.settings with lastFolder := FilePath.folderName first }
    let asked : Window := { w with
      settings, disk := diskKept w.disk settings
      shown := w.shown ++ [.pathDialog .openMany "Open Game Script Files" w.settings.lastFolder
        documentFilter] }
    rw [openDocuments, run_get, hshow, run_change]
    dsimp only
    rw [run_change, bind_run, keepSettings_eq]
    dsimp only
    rw [run_get]
    refine bring_leaves (w := asked) hsound hforever (w.offered (first :: paths)) w.documents.length
      fun results => ?_
    refine keeps_bind keeps_get fun _ => ?_
    refine keeps_bind (keeps_say _ _) fun _ => ?_
    split
    · exact keeps_pure _
    · exact keeps_warn _ _ _

/-! ## What happens -/

theorem carry_leaves {w : Window} (hsound : w.store.Sound) (hheld : w.shelf.Held)
    (hforever : w.store.lifetime.isZero = true) (reply : DialogReply) (turns : List ScriptedTurn)
    (action : MenuAction) : Leaves (w.LeavesBehind (.gesture (.choose action reply) turns)) w.shelf
      (carry deal reply action w).2.shelf := by
  cases action with
  | openDocuments => exact openDocuments_leaves hsound hforever reply.paths
  | saveDocument => exact leaves_nothing (keeps_saveDocument reply.path w) not_false
  | exportDocuments => exact leaves_nothing (keeps_exportDocuments reply.path w) not_false
  | closeDocument => exact ⟨[], closeDocument_turns hsound hheld, by simp [LeavesBehind]⟩
  | saveSession => exact leaves_nothing (keeps_saveSession reply.path w) not_false
  | saveSessionAs => exact leaves_nothing (keeps_saveSessionAs reply.path w) not_false
  | loadSession => exact loadSession_leaves w reply.path
  | quit => exact leaves_nothing (close_shelf w) not_false
  | translateAll => exact leaves_nothing (keeps_translateAll.shelf w) not_false
  | translateDocument => exact leaves_nothing (keeps_translateDocument.shelf w) not_false
  | stop =>
    refine leaves_nothing ?_ not_false
    exact keeps_bind (keeps_change fun _ => by rfl) (fun _ => keeps_say _ _) w
  | settings => exact leaves_nothing (visitSettings_shelf reply.visit w) not_false

theorem perform_leaves {w : Window} (hsound : w.store.Sound) (hheld : w.shelf.Held)
    (hforever : w.store.lifetime.isZero = true) (turns : List ScriptedTurn) (g : Gesture) :
    Leaves (w.LeavesBehind (.gesture g turns)) w.shelf
      (perform (pure ()) deal g w).2.shelf := by
  cases g with
  | choose action reply =>
    simp only [perform, run_get]
    split
    · rw [bind_keeps (f := shelf) fun _ => keeps_pure true]
      exact carry_leaves hsound hheld hforever reply turns action
    next hdisabled =>
      refine leaves_nothing rfl ?_
      -- both entries that leave something behind can always be chosen
      cases action <;> first | exact absurd rfl hdisabled | exact not_false
  | document row =>
    simp only [perform, run_get]
    exact leaves_nothing (keeps_bind (setRow_shelf _) (fun _ => keeps_pure _) w) not_false
  | purge now =>
    refine leaves_nothing ?_ not_false
    have hkept : (w.store.purge now).2.entries = w.store.entries := by
      refine List.filter_eq_self.mpr fun entry _ => ?_
      simp [Store.isStale, hforever]
    show Shelf.mk _ (w.store.purge now).2.supported = _
    rw [Store.supported, hkept]
    rfl
  | clock now => exact leaves_nothing rfl not_false
  | progress done total preview => exact leaves_nothing rfl not_false
  | target document unit text =>
    exact leaves_nothing
      (keeps_bind (receiveTarget_shelf document unit text) (fun _ => keeps_pure _) w) not_false
  | close => exact leaves_nothing (keeps_bind close_shelf (fun _ => keeps_pure _) w) not_false
  | search text => exact leaves_nothing (keeps_bind (work_shelf _) (fun _ => keeps_pure _) w) not_false
  | filterTimeout =>
    exact leaves_nothing (keeps_bind (work_shelf _) (fun _ => keeps_pure _) w) not_false
  | status name => exact leaves_nothing (keeps_bind (work_shelf _) (fun _ => keeps_pure _) w) not_false
  | select rows cursor =>
    exact leaves_nothing (keeps_bind (work_shelf _) (fun _ => keeps_pure _) w) not_false
  | type text => exact leaves_nothing (keeps_bind (work_shelf _) (fun _ => keeps_pure _) w) not_false
  | edit cell role text =>
    exact leaves_nothing (keeps_bind (work_shelf fun _ => (w.bench.editCell cell role text).2)
      (fun _ => keeps_pure (w.bench.editCell cell role text).1) w) not_false
  | menu entry =>
    exact leaves_nothing (keeps_bind (chooseEntry_shelf entry) (fun _ => keeps_pure _) w) not_false
  | none => exact leaves_nothing rfl not_false

theorem happen_leaves {w : Window} (hsound : w.store.Sound) (hheld : w.shelf.Held)
    (hforever : w.store.lifetime.isZero = true) (e : Event) :
    Leaves (w.LeavesBehind e) w.shelf (w.happen e).shelf := by
  cases e with
  | gesture g turns => exact perform_leaves (w := w.ready turns) hsound hheld hforever turns g
  | report signal => exact leaves_nothing (report_shelf signal w) not_false
  | announcement announcement => exact leaves_nothing (follow_shelf announcement w) not_false

/-- No stored document outlives its use by itself: the lifetime is zero all along. -/
def Undying (start : Window) (events : List Event) : Prop :=
  ∀ past, past <+: events → (start.after past).store.lifetime.isZero = true

/-- **The orphans of a run** are there exactly if an event of it left something behind. -/
theorem orphans_after {disk : Disk} {start : Window} (hstart : ofDisk disk = .ok start)
    (events : List Event) (hforever : start.Undying events) :
    (start.after events).shelf.Held ∧
      ((∃ id, (start.after events).shelf.Orphan id) ↔ ∃ past e rest,
        events = past ++ e :: rest ∧ (start.after past).LeavesBehind e) := by
  induction events using List.reverseRecOn with
  | nil =>
    obtain ⟨settings, -, h⟩ := bind_eq_ok hstart
    cases h
    exact ⟨⟨.nil, List.nil_subset _⟩, by simp [Shelf.Orphan, shelf, after, Store.supported]⟩
  | append_singleton events e ih =>
    obtain ⟨hheld, horphans⟩ := ih fun past hpast =>
      hforever past (hpast.trans (List.prefix_append _ _))
    have hlast := hforever events (List.prefix_append _ _)
    have haligned : (start.after events).arrangement.Aligned False :=
      aligned_after hstart events False.elim
    have hsound := haligned.store
    obtain ⟨left, hturns, hleft⟩ := happen_leaves hsound hheld hlast e
    have hstep : start.after (events ++ [e]) = (start.after events).happen e := by
      rw [after, List.foldl_append]
      rfl
    rw [hstep]
    refine ⟨hturns.held hheld, ?_⟩
    have hany : (∃ id, id ∈ left) ↔ left ≠ [] := by
      simp [List.eq_nil_iff_forall_not_mem]
    simp only [hturns.orphan_iff hheld, exists_or, horphans, hany, hleft]
    constructor
    · rintro (⟨past, e', rest, rfl, hleaves⟩ | hleaves)
      · exact ⟨past, e', rest ++ [e], by simp, hleaves⟩
      · exact ⟨events, e, [], rfl, hleaves⟩
    · rintro ⟨past, e', rest, hsplit, hleaves⟩
      rcases List.eq_nil_or_concat rest with rfl | ⟨rest, last, rfl⟩
      · obtain ⟨rfl, heq⟩ := List.append_inj' hsplit rfl
        cases heq
        exact .inr hleaves
      · rw [List.concat_eq_append, ← List.cons_append, ← List.append_assoc] at hsplit
        obtain ⟨rfl, -⟩ := List.append_inj' hsplit rfl
        exact .inl ⟨past, e', rest, rfl, hleaves⟩

/-- **The store holds no orphan**, with a lifetime of zero, exactly if nothing was left behind: no
session was loaded over a document that is in the store, and no upload was cut short behind a file
with texts. Then each stored document of a supported format belongs to an opened document. -/
theorem no_orphans_iff {disk : Disk} {start : Window} (hstart : ofDisk disk = .ok start)
    (events : List Event) (hforever : start.Undying events) :
    let w := start.after events
    (∀ id item, (id, item) ∈ w.store.entries → item.document.format.supported = true →
      some id ∈ w.documentIds) ↔
    ∀ past e rest, events = past ++ e :: rest → ¬(start.after past).LeavesBehind e := by
  intro w
  have horphans := (orphans_after hstart events hforever).2
  have hnone : (∀ id item, (id, item) ∈ w.store.entries → item.document.format.supported = true →
      some id ∈ w.documentIds) ↔ ¬∃ id, w.shelf.Orphan id := by
    simp only [Shelf.Orphan, shelf, Store.mem_supported, List.reduceOption_mem_iff, not_exists,
      not_and, not_not, forall_exists_index, and_imp]
  rw [hnone, horphans]
  simp only [not_exists, not_and]

/-- Files are opened at some paths. -/
def opening (paths : List Text) : Event := .gesture (.choose .openDocuments { paths }) []

theorem undying_of_inits {start : Window} {events : List Event}
    (h : events.inits.all (fun past => (start.after past).store.lifetime.isZero) = true) :
    start.Undying events := fun past hpast =>
  List.all_eq_true.mp h past ((List.mem_inits past events).mpr hpast)

/-- A script that is closed is dropped, so nothing was left behind. -/
theorem closed_script_dropped :
    let events := [opening ["a.rpy".toList], .gesture (.choose .closeDocument {}) []]
    Desk.greetingStart.Undying events ∧ (Desk.greetingStart.after events).store.ids = [] ∧
      ∀ past e rest, events = past ++ e :: rest → ¬(Desk.greetingStart.after past).LeavesBehind e := by
  intro events
  have hundying : Desk.greetingStart.Undying events := undying_of_inits (by decide +kernel)
  have hempty : (Desk.greetingStart.after events).store.ids = [] := by decide +kernel
  refine ⟨hundying, hempty, (no_orphans_iff Desk.ofDisk_greeting events hundying).mp ?_⟩
  intro id item hitem
  have hid : id ∈ (Desk.greetingStart.after events).store.ids := List.mem_map.mpr ⟨_, hitem, rfl⟩
  rw [hempty] at hid
  cases hid

/-- A script is opened, the session is saved, and loaded again. The script stays in the store, and
no document has its identifier. -/
theorem loaded_session_leaves_orphan :
    (¬∀ (disk : Disk) (start : Window) (events : List Event), ofDisk disk = .ok start →
      start.Undying events → ∀ id item, (id, item) ∈ (start.after events).store.entries →
        item.document.format.supported = true → some id ∈ (start.after events).documentIds) ∧
    let w := Desk.greetingStart.after [opening ["a.rpy".toList],
      .gesture (.choose .saveSessionAs { path := "s.json".toList }) [],
      .gesture (.choose .loadSession { path := "s.json".toList }) []]
    w.store.supported = ["doc0".toList] ∧ w.documentIds = [none] := by
  let events := [opening ["a.rpy".toList],
    .gesture (.choose .saveSessionAs { path := "s.json".toList }) [],
    .gesture (.choose .loadSession { path := "s.json".toList }) []]
  have hstored : (Desk.greetingStart.after events).store.supported = ["doc0".toList] := by
    decide +kernel
  have hids : (Desk.greetingStart.after events).documentIds = [none] := by decide +kernel
  refine ⟨fun hclaim => ?_, hstored, hids⟩
  have hundying : Desk.greetingStart.Undying events := undying_of_inits (by decide +kernel)
  obtain ⟨item, hitem, hsupported⟩ : ∃ item, ("doc0".toList, item) ∈
      (Desk.greetingStart.after events).store.entries ∧
        item.document.format.supported = true :=
    Store.mem_supported.mp (by rw [hstored]; exact List.mem_singleton.mpr rfl)
  have hlisted := hclaim _ _ events Desk.ofDisk_greeting hundying _ item hitem hsupported
  rw [hids] at hlisted
  exact absurd (List.mem_singleton.mp hlisted) (Option.some_ne_none _)

end Window

end GameText
