import GameText.Desktop.Step
import GameText.Proofs.Outcomes

/-!
# What actions in the window leave alone

Most of what happens in the window only shows something. `Keeps f a` says that the action `a` leaves
what `f` reads of the window as it was, also where it fails on its way; it is put together along the
binds of the action. Actions that only show something or write files leave alone whatever does not
read these (`Apart`). The core of a window is what the results of a run depend on: the documents,
the engine and its jobs. The other actions that keep it are listed here, one law for each.
-/

namespace GameText

namespace Workbench

/-! ## The table leaves the documents alone -/

theorem applyFilter_session (b : Workbench) : b.applyFilter.session = b.session := by
  unfold applyFilter
  split
  · rfl
  · split <;> rfl

theorem refreshRow_session (b : Workbench) (row : Option Nat) :
    (b.refreshRow row).session = b.session := by
  unfold refreshRow
  split <;> rfl

theorem fillPanes_session (b : Workbench) (row : Option Nat) :
    (b.fillPanes row).session = b.session := by
  unfold fillPanes
  split <;> rfl

end Workbench

namespace Window

section Keeps

variable {α β γ : Type} {f : Window → γ}

/-- An action leaves what `f` reads of the window as it was. -/
def Keeps (f : Window → γ) (a : Act α) : Prop := ∀ w, f (a w).2 = f w

theorem keeps_pure (x : α) : Keeps f (pure x : Act α) := fun _ => rfl

theorem keeps_throw (cause : Fault) : Keeps f (throw cause : Act α) := fun _ => rfl

theorem keeps_get : Keeps f (get : Act Window) := fun _ => rfl

theorem keeps_change {g : Window → Window} (h : ∀ w, f (g w) = f w) : Keeps f (change g) := h

/-- What comes behind an action may be left out of account if it changes nothing. -/
theorem bind_keeps {a : Act α} {k : α → Act β} (hk : ∀ x, Keeps f (k x)) (w : Window) :
    f ((a >>= k) w).2 = f (a w).2 := by
  rw [bind_run]
  generalize a w = outcome
  obtain ⟨x | x, w'⟩ := outcome
  · rfl
  · exact hk x w'

theorem keeps_bind {a : Act α} {k : α → Act β} (ha : Keeps f a) (hk : ∀ x, Keeps f (k x)) :
    Keeps f (a >>= k) :=
  fun w => (bind_keeps hk w).trans (ha w)

/-- An action that looks at the window first goes on from what it sees. -/
theorem run_get (k : Window → Act α) (w : Window) : (get >>= k : Act α) w = k w w := rfl

theorem run_change (g : Window → Window) (k : Unit → Act α) (w : Window) :
    (change g >>= k : Act α) w = k () (g w) := rfl

theorem keeps_pathIn (folder : Text) (d : SessionDocument) : Keeps f (pathIn folder d) := by
  unfold pathIn
  split
  · exact keeps_pure _
  · exact keeps_throw _

/-- Telling what the table announced changes nothing. -/
theorem keeps_answer (events : List TableEvent) : Keeps f (match events.findSome? failure? with
    | some cause => throw (.error (.misfit cause))
    | none => pure (events.filterMap fun
        | .translate units => some units
        | _ => none) : Act (List (List Nat))) := by
  split
  · exact keeps_throw _
  · exact keeps_pure _

end Keeps

/-! ## What is shown and written -/

/-- What is read of a window is neither what was shown, nor on the disk, nor where the session was
saved. -/
class Apart {γ : Type} (f : Window → γ) : Prop where
  shown (w : Window) (shown : List Shown) : f { w with shown } = f w
  disk (w : Window) (disk : Disk) : f { w with disk } = f w
  sessionPath (w : Window) (sessionPath : Text) : f { w with sessionPath } = f w

section Apart

variable {γ : Type} {f : Window → γ} [Apart f]

theorem keeps_show (shown : Shown) : Keeps f (Window.show shown) :=
  keeps_change fun w => Apart.shown w _

theorem keeps_say (text : Text) (milliseconds : Nat) : Keeps f (say text milliseconds) :=
  keeps_show _

theorem keeps_warn (kind : BoxKind) (title text : Text) : Keeps f (warn kind title text) :=
  keeps_show _

theorem keeps_keepSettings : Keeps f keepSettings := by
  refine keeps_change fun w => ?_
  split
  · exact Apart.disk w _
  · rfl

theorem keeps_writeDocument (d : SessionDocument) {path : Act Text} (hpath : Keeps f path) :
    Keeps f (writeDocument d path) := by
  unfold writeDocument
  split
  · split
    · exact keeps_pure _
    · exact keeps_throw _
  · intro w
    simp only [run_get]
    refine keeps_bind hpath (fun path => ?_) w
    split
    · exact keeps_pure _
    · exact keeps_bind (keeps_change fun _ => Apart.disk _ _) fun _ => keeps_pure _

theorem keeps_saveDocument (path : Text) : Keeps f (saveDocument path) := by
  intro w
  simp only [saveDocument, run_get]
  rcases w.current? with _ | ⟨i, d⟩
  · rfl
  · refine keeps_bind (keeps_pathIn _ _) (fun proposed => ?_) w
    refine keeps_bind (keeps_show _) fun _ => ?_
    split
    · exact keeps_pure _
    · refine keeps_bind (keeps_writeDocument _ (keeps_pure _)) fun problem => ?_
      split
      · exact keeps_warn _ _ _
      · exact keeps_say _ _

theorem keeps_exportEach (folder : Text) (ds : List SessionDocument) :
    Keeps f (exportEach folder ds) := by
  induction ds with
  | nil => exact keeps_pure _
  | cons d ds ih =>
    refine keeps_bind (keeps_writeDocument d (keeps_pathIn folder d)) fun problem => ?_
    refine keeps_bind ih fun (written, failed) => ?_
    cases problem <;> exact keeps_pure _

theorem keeps_exportDocuments (folder : Text) : Keeps f (exportDocuments folder) := by
  intro w
  simp only [exportDocuments, run_get]
  refine keeps_bind (keeps_show _) (fun _ => ?_) w
  split
  · exact keeps_pure _
  · refine keeps_bind (keeps_exportEach folder _) fun outcome => ?_
    refine keeps_bind (keeps_say _ _) fun _ => ?_
    split
    · exact keeps_pure _
    · exact keeps_warn _ _ _

theorem keeps_writeSession : Keeps f writeSession := by
  intro w
  simp only [writeSession, run_get]
  generalize w.disk.makeFolders _ = made
  cases made with
  | error cause => rfl
  | ok disk =>
    refine keeps_bind (keeps_change fun _ => Apart.disk _ _) (fun _ => ?_) w
    split
    · exact keeps_throw _
    · exact keeps_bind (keeps_change fun _ => Apart.disk _ _) fun _ => keeps_say _ _

theorem keeps_saveSessionAs (path : Text) : Keeps f (saveSessionAs path) := by
  intro w
  simp only [saveSessionAs, run_get]
  refine keeps_bind (keeps_show _) (fun _ => ?_) w
  split
  · exact keeps_pure _
  · exact keeps_bind (keeps_change fun _ => Apart.sessionPath _ _) fun _ => keeps_writeSession

theorem keeps_saveSession (path : Text) : Keeps f (saveSession path) := by
  intro w
  simp only [saveSession, run_get]
  split
  · exact keeps_saveSessionAs path w
  · exact keeps_writeSession w

end Apart

/-! ## The core of a window -/

/-- What the results of a run depend on. -/
structure Core where
  documents : List SessionDocument
  identities : List Nat
  nextIdentity : Nat
  engine : Engine
  jobs : List Job

/-- The core of a window. -/
def core (w : Window) : Core := ⟨w.documents, w.identities, w.nextIdentity, w.engine, w.jobs⟩

instance : Apart core := ⟨fun _ _ => rfl, fun _ _ => rfl, fun _ _ => rfl⟩

theorem keeps_relabel : Keeps core relabel := fun _ => rfl

/-- What the workbench does with the documents is all that work on it changes. -/
theorem work_core (f : Workbench → Workbench) (w : Window) :
    (work f w).2.core = { w.core with documents := (f w.bench).session.documents } := by
  simp only [work, run_get, run_change]
  split
  · exact keeps_bind keeps_relabel (fun _ => keeps_answer _) _
  · exact keeps_answer _ _

theorem keeps_work {f : Workbench → Workbench} (h : ∀ b, (f b).session = b.session) :
    Keeps core (work f) := by
  intro w
  rw [work_core, h]
  rfl

/-! ## The table -/

theorem keeps_showDocument (document : Option Nat) : Keeps core (work (·.showDocument document)) :=
  keeps_work fun _ => Workbench.applyFilter_session _

theorem keeps_search (text : Text) : Keeps core (work (·.search text)) := by
  refine keeps_work fun b => ?_
  unfold Workbench.search
  split <;> rfl

theorem keeps_filterTimeout : Keeps core (work (·.filterTimeout)) := by
  refine keeps_work fun b => ?_
  unfold Workbench.filterTimeout
  split
  · exact Workbench.applyFilter_session _
  · rfl

theorem keeps_chooseStatus (name : Text) : Keeps core (work (·.chooseStatus name)) := by
  refine keeps_work fun b => ?_
  unfold Workbench.chooseStatus
  split
  · rfl
  · split
    · rfl
    · exact Workbench.applyFilter_session _

theorem keeps_select (rows : List Int) (cursor : Int) :
    Keeps core (work (·.select rows cursor)) := by
  refine keeps_work fun b => ?_
  simp only [Workbench.select]
  split
  · rfl
  · exact Workbench.fillPanes_session _ _

theorem keeps_setDark (dark : Bool) : Keeps core (work (·.setDark dark)) := by
  refine keeps_work fun b => ?_
  simp only [Workbench.setDark]
  split <;> rfl

/-! ## The list of documents -/

theorem keeps_setRow (row : Option Nat) : Keeps core (setRow row) := by
  intro w
  simp only [setRow, run_get]
  split
  · rfl
  · exact keeps_bind (keeps_showDocument _) (fun _ => keeps_pure _) { w with row }

theorem keeps_listDocuments (near : Nat) : Keeps core (listDocuments near) := by
  refine keeps_bind (keeps_change fun _ => rfl) fun _ => ?_
  intro w
  simp only [run_get]
  split
  · exact keeps_bind (keeps_showDocument none) (fun _ => keeps_change fun _ => by rfl) w
  · exact keeps_bind (keeps_setRow _) (fun _ => keeps_change fun _ => by rfl) w

/-! ## Documents and sessions on disk -/

theorem keeps_takeIn (files : List (Text × Bytes)) : Keeps core (takeIn files) := by
  intro w
  simp only [takeIn, run_get]
  refine keeps_bind (keeps_change fun _ => by rfl) (fun _ => ?_) w
  split
  · exact keeps_pure _
  · exact keeps_throw _

theorem keeps_visitSettings (visit : FormVisit) : Keeps core (visitSettings visit) := by
  intro w
  simp only [visitSettings, run_get]
  refine keeps_bind (keeps_change fun _ => by rfl) (fun _ => ?_) w
  split
  · exact keeps_throw _
  · refine keeps_bind (keeps_show _) fun _ => ?_
    split
    · refine keeps_bind (keeps_change fun _ => rfl) fun _ => ?_
      refine keeps_bind keeps_keepSettings fun _ => ?_
      exact keeps_bind (keeps_setDark _) fun _ => keeps_pure _
    · exact keeps_pure _

end Window

end GameText
