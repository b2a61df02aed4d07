import GameText.Proofs.Desktop.Folders
import GameText.Proofs.Desktop.Frames
import Mathlib.Data.List.Nodup

/-!
# Exporting every document

Each document is written at the place that its name has in the folder, one after the other. Nothing
looks at whether two documents have one place, or whether a place is outside the folder: of those at
one place, the last is left. So an export that reports nothing wrong, and as many files as there are
documents, has kept every document in the folder exactly if their places are different and directly
inside it; where no name holds a slash, exactly if the names are different
(`exportDocuments_kept_iff`).

Not established: what is left of an export that reports a failure.
-/

namespace GameText

namespace Window

/-- The place where a document is exported. -/
def exportPlace (folder : Text) (d : SessionDocument) : List Text :=
  FilePath.place (FilePath.join folder d.filename.asText)

/-- Documents were written one after the other. -/
inductive Exports (folder : Text) : List SessionDocument → Disk → Disk → Prop where
  | nil (disk : Disk) : Exports folder [] disk disk
  | cons {d : SessionDocument} {ds : List SessionDocument} {name : Text} {content : Bytes}
      {disk disk' disk'' : Disk} (hname : d.filename = .str name) (hsave : d.save = .ok content)
      (hwritten : disk.Written (FilePath.join folder name) content disk')
      (rest : Exports folder ds disk' disk'') : Exports folder (d :: ds) disk disk''

namespace Exports

variable {folder : Text} {ds : List SessionDocument} {disk disk' : Disk}

theorem follow_kept (h : Exports folder ds disk disk') {path : Text} {place : List Text}
    (hpath : disk.follow path = .ok (.file place)) : disk'.follow path = .ok (.file place) := by
  induction h with
  | nil => exact hpath
  | cons _ _ hwritten _ ih => exact ih (hwritten.follow_kept hpath)

/-- No file at another place is touched. -/
theorem others (h : Exports folder ds disk disk') {place : List Text}
    (hplace : place ∉ ds.map (exportPlace folder)) :
    lookup? place disk'.files = lookup? place disk.files := by
  induction h with
  | nil => rfl
  | cons hname _ hwritten _ ih =>
    rw [List.map_cons, List.mem_cons, not_or] at hplace
    rw [ih hplace.2]
    refine hwritten.others place ?_
    rw [exportPlace, hname] at hplace
    exact hplace.1

/-- Each document's path leads to a file at its place. -/
theorem follow_eq (h : Exports folder ds disk disk') : ∀ d ∈ ds, ∃ name, d.filename = .str name ∧
    disk'.follow (FilePath.join folder name) = .ok (.file (exportPlace folder d)) := by
  induction h with
  | nil => exact fun _ hd => (nomatch hd)
  | @cons d ds name content disk disk' disk'' hname _ hwritten rest ih =>
    refine List.forall_mem_cons.mpr ⟨⟨name, hname, ?_⟩, ih⟩
    rw [exportPlace, hname]
    exact rest.follow_kept hwritten.follow_eq

/-- The last document at a place has its bytes in the file there. -/
theorem lookup?_last (h : Exports folder ds disk disk') {before after : List SessionDocument}
    {d : SessionDocument} (hds : ds = before ++ d :: after)
    (hlast : exportPlace folder d ∉ after.map (exportPlace folder)) :
    ∃ content, d.save = .ok content ∧ lookup? (exportPlace folder d) disk'.files = some content := by
  induction h generalizing before with
  | nil => exact absurd hds.symm (List.append_ne_nil_of_right_ne_nil _ (List.cons_ne_nil _ _))
  | @cons first ds name content disk disk' disk'' hname hsave hwritten rest ih =>
    cases before with
    | nil =>
      obtain ⟨rfl, rfl⟩ := List.cons.inj hds
      refine ⟨content, hsave, ?_⟩
      rw [rest.others hlast, exportPlace, hname]
      exact hwritten.content
    | cons => exact ih (List.cons.inj hds).2

/-- At different places, each document's bytes are in its file. -/
theorem lookup?_eq (h : Exports folder ds disk disk')
    (hnodup : (ds.map (exportPlace folder)).Nodup) {d : SessionDocument} (hd : d ∈ ds) :
    ∃ content, d.save = .ok content ∧ lookup? (exportPlace folder d) disk'.files = some content := by
  obtain ⟨before, after, rfl⟩ := List.append_of_mem hd
  rw [List.map_append, List.map_cons] at hnodup
  exact h.lookup?_last rfl (List.nodup_cons.mp hnodup.of_append_right).1

/-- A name without slashes is a name in the folder. -/
theorem exportPlace_eq (h : Exports folder ds disk disk') (hfolder : folder ≠ []) :
    ∀ d ∈ ds, '/' ∉ d.filename.asText →
      exportPlace folder d = FilePath.place folder ++ [d.filename.asText] := by
  induction h with
  | nil => exact fun _ hd => (nomatch hd)
  | @cons d ds name content disk disk' disk'' hname _ hwritten _ ih =>
    refine List.forall_mem_cons.mpr ⟨fun hslash => ?_, ih⟩
    have hasText : d.filename.asText = name := by
      rw [hname]
      rfl
    rw [exportPlace]
    rw [hasText] at hslash ⊢
    obtain ⟨-, steps, -, hsteps, -⟩ := FilePath.stepsFrom_join hfolder hslash
    obtain ⟨step, hlast, hstep⟩ := hwritten.leads.last_isName
    rw [hsteps, List.getLast?_append, List.getLast?_singleton] at hlast
    obtain rfl : name = step := Option.some.inj hlast
    exact FilePath.place_join hfolder hslash hstep

end Exports

/-! ## The program -/

/-- What the export of one document does: it says what went wrong, or the file is written. -/
theorem writeDocument_cases {d : SessionDocument} {folder : Text} {w w' : Window}
    {problem : Option Text}
    (h : writeDocument d (pathIn folder d) w = (.ok problem, w')) :
    (problem.isSome ∧ w' = w) ∨ ∃ name content disk, problem = none ∧ d.filename = .str name ∧
      d.save = .ok content ∧ w.disk.write (FilePath.join folder name) content = .ok disk ∧
      w' = { w with disk } := by
  unfold writeDocument at h
  cases hsave : d.save with
  | error cause =>
    rw [hsave] at h
    by_cases hreported : isReported cause
    · simp only [hreported, if_true] at h
      cases h
      exact .inl ⟨rfl, rfl⟩
    · simp only [hreported] at h
      cases h
  | ok content =>
    simp only [hsave, run_get] at h
    unfold pathIn at h
    cases hname : d.filename with
    | str name =>
      simp only [hname] at h
      rw [pure_bind] at h
      cases hwrite : w.disk.write (FilePath.join folder name) content with
      | error cause =>
        simp only [hwrite] at h
        cases h
        exact .inl ⟨rfl, rfl⟩
      | ok disk =>
        simp only [hwrite] at h
        cases h
        exact .inr ⟨name, content, disk, rfl, rfl, rfl, hwrite, rfl⟩
    | _ => rw [hname] at h; cases h

/-- The export of several documents changes the disk only; where nothing went wrong, all were
written. -/
theorem exportEach_cases {folder : Text} {ds : List SessionDocument} {w w' : Window} {written : Nat}
    {failed : List Text} (h : exportEach folder ds w = (.ok (written, failed), w')) :
    ∃ disk, w' = { w with disk } ∧
      (failed = [] → written = ds.length ∧ Exports folder ds w.disk disk) := by
  induction ds generalizing w w' written failed with
  | nil =>
    cases h
    exact ⟨_, rfl, fun _ => ⟨rfl, .nil _⟩⟩
  | cons d ds ih =>
    obtain ⟨problem, between, hone, h⟩ := bind_run_eq_ok h
    obtain ⟨⟨written', failed'⟩, after, hrest, h⟩ := bind_run_eq_ok h
    obtain ⟨disk', rfl, hall⟩ := ih hrest
    rcases writeDocument_cases hone with ⟨hproblem, rfl⟩ |
      ⟨name, content, disk, rfl, hname, hsave, hwrite, rfl⟩
    · obtain ⟨text, rfl⟩ := Option.isSome_iff_exists.mp hproblem
      cases h
      exact ⟨disk', rfl, fun hnone => (nomatch hnone)⟩
    · cases h
      refine ⟨disk', rfl, fun hnone => ?_⟩
      obtain ⟨rfl, hexports⟩ := hall hnone
      exact ⟨rfl, .cons hname hsave (Disk.written_of_write hwrite) hexports⟩

/-- What is shown is a box. -/
def isBox : Shown → Bool
  | .box _ => true
  | _ => false

/-- An export into a folder reports nothing wrong: it does not fail, and shows no box. -/
def ExportsQuietly (w : Window) (folder : Text) : Prop :=
  (exportDocuments folder w).1.isOk ∧
    ∀ shown ∈ (exportDocuments folder w).2.shown.drop w.shown.length, isBox shown = false

instance (w : Window) (folder : Text) : Decidable (ExportsQuietly w folder) :=
  inferInstanceAs (Decidable (_ ∧ _))

/-- What is shown when an export has gone well. -/
def exportShown (w : Window) (folder : Text) : List Shown :=
  [.pathDialog .folder "Export Translated Files To" w.settings.lastFolder none,
    .message ("Exported " ++ Text.ofNat w.documents.length ++ " file(s) to " ++ folder) 5000]

/-- An export that reports nothing wrong has written all documents, and says so. -/
theorem ExportsQuietly.exports {w : Window} {folder : Text} (hfolder : folder ≠ [])
    (h : ExportsQuietly w folder) : ∃ disk, exportDocuments folder w =
        (.ok (), { w with disk, shown := w.shown ++ exportShown w folder }) ∧
      Exports folder w.documents w.disk disk := by
  obtain ⟨hok, hboxes⟩ := h
  generalize hrun : exportDocuments folder w = outcome at hok hboxes ⊢
  obtain ⟨_ | ⟨⟩, w'⟩ := outcome
  · cases hok
  simp only [exportDocuments, run_get, Window.show, run_change, List.isEmpty_iff, hfolder,
    if_false] at hrun
  obtain ⟨⟨written, failed⟩, after, heach, hrest⟩ := bind_run_eq_ok hrun
  obtain ⟨disk, rfl, hall⟩ := exportEach_cases heach
  cases failed with
  | cons problem problems =>
    cases hrest
    simp only [List.append_assoc, List.drop_left] at hboxes
    have hbox := hboxes (.box ⟨.warning, "Export Incomplete",
      Text.join ['\n'] (problem :: problems)⟩)
      (List.mem_append_right _ (List.mem_append_right _ List.mem_cons_self))
    cases hbox
  | nil =>
    cases hrest
    obtain ⟨rfl, hexports⟩ := hall rfl
    refine ⟨disk, ?_, hexports⟩
    simp only [exportShown, List.append_assoc, List.cons_append, List.nil_append]

/-! ## What is in the folder -/

/-- Every document has a file of its own, directly in the folder, where its bytes are read back. -/
def Exported (folder : Text) (ds : List SessionDocument) (disk : Disk) : Prop :=
  ∃ places : List (List Text), places.Nodup ∧ List.Forall₂ (fun d place =>
    (∃ entry, place = FilePath.place folder ++ [entry]) ∧ ∃ name content,
      d.filename = .str name ∧ d.save = .ok content ∧
      disk.follow (FilePath.join folder name) = .ok (.file place) ∧
      disk.read (FilePath.join folder name) = .ok content) ds places

/-- Every document has a place of its own, directly in the folder. -/
def PlacedApart (folder : Text) (ds : List SessionDocument) : Prop :=
  (∀ d ∈ ds, ∃ entry, exportPlace folder d = FilePath.place folder ++ [entry]) ∧
    (ds.map (exportPlace folder)).Nodup

theorem Exports.exported_iff {folder : Text} {ds : List SessionDocument} {disk disk' : Disk}
    (h : Exports folder ds disk disk') : Exported folder ds disk' ↔ PlacedApart folder ds := by
  constructor
  · rintro ⟨places, hnodup, hall⟩
    have hplaces : ds.map (exportPlace folder) = places ∧
        ∀ d ∈ ds, ∃ entry, exportPlace folder d = FilePath.place folder ++ [entry] := by
      clear h hnodup
      induction hall with
      | nil => exact ⟨rfl, fun _ hd => (nomatch hd)⟩
      | @cons d place ds places hfirst _ ih =>
        obtain ⟨hinside, name, content, hname, -, hfollow, -⟩ := hfirst
        have hplace : exportPlace folder d = place := by
          rw [exportPlace, hname]
          exact (Disk.place_of_follow hfollow).symm
        rw [List.map_cons, hplace, ih.1]
        exact ⟨rfl, List.forall_mem_cons.mpr ⟨hplace ▸ hinside, ih.2⟩⟩
    obtain ⟨rfl, hinside⟩ := hplaces
    exact ⟨hinside, hnodup⟩
  · rintro ⟨hinside, hnodup⟩
    refine ⟨ds.map (exportPlace folder), hnodup, ?_⟩
    rw [List.forall₂_map_right_iff, List.forall₂_same]
    intro d hd
    obtain ⟨name, hname, hfollow⟩ := h.follow_eq d hd
    obtain ⟨content, hsave, hcontent⟩ := h.lookup?_eq hnodup hd
    exact ⟨hinside d hd, name, content, hname, hsave, hfollow,
      Disk.read_of_follow hfollow hcontent⟩

/-- Where no name holds a slash, places are apart exactly if the names are. -/
theorem Exports.placedApart_iff {folder : Text} {ds : List SessionDocument} {disk disk' : Disk}
    (h : Exports folder ds disk disk') (hfolder : folder ≠ [])
    (hslash : ∀ d ∈ ds, '/' ∉ d.filename.asText) :
    PlacedApart folder ds ↔ (ds.map (·.filename.asText)).Nodup := by
  have hplace := fun d hd => h.exportPlace_eq hfolder d hd (hslash d hd)
  have hplaces : ds.map (exportPlace folder) =
      (ds.map (·.filename.asText)).map (FilePath.place folder ++ [·]) := by
    rw [List.map_map]
    exact List.map_congr_left hplace
  have hinjective : Function.Injective (FilePath.place folder ++ [·]) := fun a b hab =>
    List.singleton_inj.mp (List.append_cancel_left hab)
  rw [PlacedApart, hplaces, List.nodup_map_iff hinjective]
  exact and_iff_right fun d hd => ⟨_, hplace d hd⟩

/-- **Every document is kept exactly if the places are apart.** When the export of all documents
reports nothing wrong, it says how many documents there are; at each of their places is the last
document of those that have it, and no file at another place is touched. Each document then has a
file of its own in the folder, from which its bytes are read back, exactly if the places of the
documents are different and directly inside the folder; where no name holds a slash, exactly if the
names are different. -/
theorem exportDocuments_kept_iff {w : Window} {folder : Text} (hfolder : folder ≠ [])
    (hquiet : ExportsQuietly w folder) :
    (exportDocuments folder w).2.shown = w.shown ++ exportShown w folder ∧
    (∀ before d after, w.documents = before ++ d :: after →
      exportPlace folder d ∉ after.map (exportPlace folder) → ∃ content, d.save = .ok content ∧
        lookup? (exportPlace folder d) (exportDocuments folder w).2.disk.files = some content) ∧
    (∀ place, place ∉ w.documents.map (exportPlace folder) →
      lookup? place (exportDocuments folder w).2.disk.files = lookup? place w.disk.files) ∧
    (Exported folder w.documents (exportDocuments folder w).2.disk ↔
      PlacedApart folder w.documents) ∧
    ((∀ d ∈ w.documents, '/' ∉ d.filename.asText) →
      (Exported folder w.documents (exportDocuments folder w).2.disk ↔
        (w.documents.map (·.filename.asText)).Nodup)) := by
  obtain ⟨disk, hrun, hexports⟩ := hquiet.exports hfolder
  rw [hrun]
  exact ⟨rfl, fun before d after hds hlast => hexports.lookup?_last hds hlast,
    fun place hplace => hexports.others hplace, hexports.exported_iff, fun hslash =>
      hexports.exported_iff.trans (hexports.placedApart_iff hfolder hslash)⟩

/-! ## Two scripts from different folders -/

/-- A script in each of two folders, and a third folder with a note. -/
def twoScripts (second : Text) : Disk where
  files := [(["a".toList, "x.rpy".toList], Utf8.encode "e \"Ann\"".toList),
    (["b".toList, second], Utf8.encode "e \"Bob\"".toList),
    (["out".toList, "keep.txt".toList], Utf8.encode "keep".toList)]
  folders := [["a".toList], ["b".toList], ["out".toList]]

/-- The window over the scripts. -/
def scriptsStart (second : Text) : Window where
  settings := {}
  disk := twoScripts second
  bench := Workbench.setDark {} true
  store := { lifetime := .int ({} : Settings).lifetime }

/-- The window with the scripts. -/
def scriptsOpened (second : Text) : Window :=
  (openDocuments ["a/x.rpy".toList, "b/".toList ++ second] (scriptsStart second)).2

/-- Two scripts with different names are kept. -/
theorem different_names_kept : ExportsQuietly (scriptsOpened "y.rpy".toList) "out".toList ∧
    Exported "out".toList (scriptsOpened "y.rpy".toList).documents
      (exportDocuments "out".toList (scriptsOpened "y.rpy".toList)).2.disk := by
  obtain ⟨hquiet, hslash, hnodup⟩ : ExportsQuietly (scriptsOpened "y.rpy".toList) "out".toList ∧
      (∀ d ∈ (scriptsOpened "y.rpy".toList).documents, '/' ∉ d.filename.asText) ∧
      ((scriptsOpened "y.rpy".toList).documents.map (·.filename.asText)).Nodup := by decide +kernel
  obtain ⟨-, -, -, -, hnames⟩ := exportDocuments_kept_iff (by decide) hquiet
  exact ⟨hquiet, (hnames hslash).mpr hnodup⟩

/-- Of two scripts with one name, the second is left, and nobody is told. -/
theorem namesake_not_kept :
    (¬∀ (disk : Disk) (start w : Window) (paths : List Text) (folder : Text),
      Window.ofDisk disk = .ok start → w = (openDocuments paths start).2 → folder ≠ [] →
      ExportsQuietly w folder → Exported folder w.documents (exportDocuments folder w).2.disk) ∧
    let w := scriptsOpened "x.rpy".toList
    let disk := (exportDocuments "out".toList w).2.disk
    w.documents.length = 2 ∧
      (disk.read "out/x.rpy".toList).toOption = some (Utf8.encode "e \"Bob\"".toList) := by
  obtain ⟨hquiet, hplaces, hcount, hleft⟩ :
      ExportsQuietly (scriptsOpened "x.rpy".toList) "out".toList ∧
      ¬((scriptsOpened "x.rpy".toList).documents.map (exportPlace "out".toList)).Nodup ∧
      (scriptsOpened "x.rpy".toList).documents.length = 2 ∧
      ((exportDocuments "out".toList (scriptsOpened "x.rpy".toList)).2.disk.read
        "out/x.rpy".toList).toOption = some (Utf8.encode "e \"Bob\"".toList) := by decide +kernel
  refine ⟨fun hclaim => ?_, hcount, hleft⟩
  have hload : Settings.load ((twoScripts "x.rpy".toList).read Window.settingsFile).toOption =
    .ok {} := by decide +kernel
  have hstart : Window.ofDisk (twoScripts "x.rpy".toList) = .ok (scriptsStart "x.rpy".toList) := by
    simp only [Window.ofDisk, hload]
    rfl
  have hkept := hclaim _ _ (scriptsOpened "x.rpy".toList) _ "out".toList hstart rfl (by decide)
    hquiet
  obtain ⟨disk, hrun, hexports⟩ := hquiet.exports (by decide)
  rw [hrun] at hkept
  exact hplaces (hexports.exported_iff.mp hkept).2

end Window

end GameText
