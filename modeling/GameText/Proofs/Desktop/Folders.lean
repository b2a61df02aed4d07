import GameText.Desktop.Disk
import GameText.Proofs.Json.Entries

/-!
# Files that are written and read back

A path that a file is written to leads to that file afterwards, which has what was written
(`Disk.Written`); the other files and all folders are as they were, and paths that led to files lead
to the same ones. The place of the file can be told from the path alone.

Not established: anything about folders that are made on the way, or about names that differ only by
letter case.
-/

namespace GameText

namespace FilePath

/-! ## The steps of a path -/

theorem stepsFrom_of_not_mem {name : Text} (h : '/' ∉ name) (soFar : Text) :
    stepsFrom soFar name = [soFar.reverse ++ name] := by
  induction name generalizing soFar with
  | nil => rw [stepsFrom, List.append_nil]
  | cons c cs ih =>
    rw [List.mem_cons, not_or] at h
    rw [stepsFrom, if_neg (Ne.symm h.1), ih h.2, List.reverse_cons, List.append_assoc]
    rfl

theorem stepsFrom_append_slash (path rest soFar : Text) :
    stepsFrom soFar (path ++ '/' :: rest) = stepsFrom soFar path ++ stepsFrom [] rest := by
  induction path generalizing soFar with
  | nil => rfl
  | cons c cs ih =>
    rw [List.cons_append, stepsFrom, stepsFrom]
    split
    · rw [ih, List.cons_append]
    · exact ih (c :: soFar)

/-- A name is not idle and does not lead up. -/
def IsName (step : Text) : Prop := isIdle step = false ∧ step ≠ upStep

theorem isName_iff {step : Text} :
    IsName step ↔ (isIdle step || decide (step = upStep)) = false := by
  simp [IsName]

theorem walk_name {step : Text} (h : IsName step) (place : List Text) :
    walk place step = place ++ [step] := by
  rw [walk, h.1, if_neg Bool.false_ne_true, if_neg h.2]

/-- A name below a folder is one step more. -/
theorem stepsFrom_join {folder name : Text} (hfolder : folder ≠ []) (hname : '/' ∉ name) :
    start (join folder name) = start folder ∧
      ∃ steps idle, stepsFrom [] (join folder name) = steps ++ [name] ∧
        stepsFrom [] folder = steps ++ idle ∧ ∀ step ∈ idle, isIdle step = true := by
  have hplain : name.head? ≠ some '/' := fun h => hname (List.mem_of_mem_head? h)
  have hempty : folder.isEmpty = false := by simpa using hfolder
  have hjoin : join folder name =
      if folder.getLast? = some '/' then folder ++ name else folder ++ '/' :: name := by
    rw [join, hempty]
    simp [hplain]
  rw [hjoin]
  split
  next hslash =>
    obtain ⟨before, rfl⟩ := List.getLast?_eq_some_iff.mp hslash
    rw [List.append_assoc, List.singleton_append]
    refine ⟨?_, stepsFrom [] before, [[]], ?_, ?_, ?_⟩
    · cases before <;> rfl
    · rw [stepsFrom_append_slash, stepsFrom_of_not_mem hname]
      rfl
    · rw [stepsFrom_append_slash]
      rfl
    · simp [isIdle]
  next =>
    refine ⟨?_, stepsFrom [] folder, [], ?_, (List.append_nil _).symm, fun _ h => (nomatch h)⟩
    · obtain ⟨c, cs, rfl⟩ := List.exists_cons_of_ne_nil hfolder
      rfl
    · rw [stepsFrom_append_slash, stepsFrom_of_not_mem hname]
      rfl

theorem foldl_walk_idle {idle : List Text} (h : ∀ step ∈ idle, isIdle step = true)
    (place : List Text) : idle.foldl walk place = place := by
  induction idle generalizing place with
  | nil => rfl
  | cons step idle ih =>
    have hstep := h step List.mem_cons_self
    rw [List.foldl_cons, walk, if_pos hstep, ih fun s hs => h s (List.mem_cons_of_mem _ hs)]

/-- **The place of a name in a folder** is the folder's with the name. -/
theorem place_join {folder name : Text} (hfolder : folder ≠ []) (hslash : '/' ∉ name)
    (hname : IsName name) : place (join folder name) = place folder ++ [name] := by
  obtain ⟨hstart, steps, idle, hsteps, hidle, hall⟩ := stepsFrom_join hfolder hslash
  rw [place, place, hstart, hsteps, hidle, List.foldl_append, List.foldl_append,
    foldl_walk_idle hall]
  exact walk_name hname _

end FilePath

namespace Disk

/-! ## Where a path leads -/

/-- The place of the file that can be read or made where a path leads. -/
def Target.filePlace? : Target → Option (List Text)
  | .file place => some place
  | .vacant place false => some place
  | _ => none

/-- One step in a folder, if it is a name. -/
theorem followFrom_name {d : Disk} {place : List Text} {step : Text} (h : FilePath.IsName step)
    (rest : List Text) : d.followFrom place (step :: rest) =
      if FilePath.maxNameSize < (Utf8.encode step).length then .error .longName
      else if d.isFolder (place ++ [step]) then d.followFrom (place ++ [step]) rest
      else if d.isFile (place ++ [step]) then
        (if rest.isEmpty then .ok (.file (place ++ [step])) else .error .notFolder)
      else if rest.all List.isEmpty then .ok (.vacant (place ++ [step]) !rest.isEmpty)
      else .error .missing := by
  rw [followFrom, FilePath.isName_iff.mp h, if_neg Bool.false_ne_true, FilePath.walk_name h]

theorem followFrom_other {d : Disk} {place : List Text} {step : Text} (h : ¬FilePath.IsName step)
    (rest : List Text) :
    d.followFrom place (step :: rest) = d.followFrom (FilePath.walk place step) rest := by
  rw [FilePath.isName_iff, Bool.not_eq_false] at h
  rw [followFrom, if_pos h]

/-- The steps lead from a place to one where a file is or can be made. -/
inductive Leads (d : Disk) : List Text → List Text → List Text → Prop where
  /-- The step stays, or leads up. -/
  | pass {place rest target : List Text} {step : Text} (h : ¬FilePath.IsName step)
    (hrest : Leads d (FilePath.walk place step) rest target) : Leads d place (step :: rest) target
  /-- The step leads into a folder. -/
  | enter {place rest target : List Text} {step : Text} (h : FilePath.IsName step)
    (hshort : (Utf8.encode step).length ≤ FilePath.maxNameSize)
    (hfolder : d.isFolder (place ++ [step]) = true)
    (hrest : Leads d (place ++ [step]) rest target) : Leads d place (step :: rest) target
  /-- The step is the last one, and no folder is there. -/
  | last {place : List Text} {step : Text} (h : FilePath.IsName step)
    (hshort : (Utf8.encode step).length ≤ FilePath.maxNameSize)
    (hfolder : d.isFolder (place ++ [step]) = false) : Leads d place [step] (place ++ [step])

theorem leads_of_followFrom {d : Disk} {place steps : List Text} {t : Target}
    (h : d.followFrom place steps = .ok t) {target : List Text} (ht : t.filePlace? = some target) :
    d.Leads place steps target := by
  induction steps generalizing place with
  | nil =>
    cases h
    cases ht
  | cons step rest ih =>
    by_cases hname : FilePath.IsName step
    · rw [followFrom_name hname] at h
      split at h
      next => cases h
      next hshort =>
      have hshort := Nat.not_lt.mp hshort
      split at h
      next hfolder => exact .enter hname hshort hfolder (ih h)
      next hfolder =>
      have hfolder := Bool.eq_false_iff.mpr hfolder
      split at h
      next hfile =>
        split at h
        next hlast =>
          cases h
          cases ht
          rw [List.isEmpty_iff.mp hlast]
          exact .last hname hshort hfolder
        next => cases h
      next =>
        split at h
        next =>
          cases h
          cases rest with
          | nil =>
            cases ht
            exact .last hname hshort hfolder
          | cons => cases ht
        next => cases h
    · rw [followFrom_other hname] at h
      exact .pass hname (ih h)

namespace Leads

variable {d d' : Disk} {place steps target : List Text}

/-- The target is told by the steps alone. -/
theorem target_eq (h : d.Leads place steps target) : target = steps.foldl FilePath.walk place := by
  induction h with
  | pass _ _ ih => exact ih
  | enter hname _ _ _ ih => rw [ih, List.foldl_cons, FilePath.walk_name hname]
  | last hname => rw [List.foldl_cons, FilePath.walk_name hname, List.foldl_nil]

/-- The last step is a name, and that of the target. -/
theorem last_isName (h : d.Leads place steps target) :
    ∃ step, steps.getLast? = some step ∧ FilePath.IsName step := by
  induction h with
  | @pass _ rest _ _ _ hrest ih =>
    obtain ⟨step, hlast, hname⟩ := ih
    cases rest with
    | nil => cases hlast
    | cons => exact ⟨step, hlast, hname⟩
  | @enter _ rest _ _ _ _ _ hrest ih =>
    obtain ⟨step, hlast, hname⟩ := ih
    cases rest with
    | nil => cases hlast
    | cons => exact ⟨step, hlast, hname⟩
  | last hname => exact ⟨_, rfl, hname⟩

/-- With the same folders, steps lead to the same target; the file is there if it was made. -/
theorem followFrom_eq (h : d.Leads place steps target)
    (hfolders : ∀ p, d'.isFolder p = d.isFolder p) (hfile : d'.isFile target = true) :
    d'.followFrom place steps = .ok (.file target) := by
  induction h with
  | pass hname _ ih => rw [followFrom_other hname, ih hfile]
  | enter hname hshort hfolder _ ih =>
    rw [followFrom_name hname, if_neg (Nat.not_lt.mpr hshort), hfolders, if_pos hfolder, ih hfile]
  | last hname hshort hfolder =>
    rw [followFrom_name hname, if_neg (Nat.not_lt.mpr hshort), hfolders, hfolder, if_neg (by decide),
      if_pos hfile]
    rfl

end Leads

theorem isFile_of_followFrom {d : Disk} {place steps target : List Text}
    (h : d.followFrom place steps = .ok (.file target)) : d.isFile target = true := by
  induction steps generalizing place with
  | nil => cases h
  | cons step rest ih =>
    by_cases hname : FilePath.IsName step
    · rw [followFrom_name hname] at h
      split at h
      next => cases h
      next =>
      split at h
      next => exact ih h
      next =>
      split at h
      next hfile =>
        split at h
        next =>
          cases h
          exact hfile
        next => cases h
      next => split at h <;> cases h
    · rw [followFrom_other hname] at h
      exact ih h

/-! ## The folders on the way -/

/-- Every beginning of a place is a folder, and above the working folder a place only leads up. -/
def Rooted (d : Disk) (place : List Text) : Prop :=
  ∀ n, d.isFolder (place.take n) = true ∧
    ((place.take n).getLast? = some FilePath.upStep → (place.take n).all (· == FilePath.upStep))

theorem isFolder_of_all {d : Disk} {place : List Text} (h : place.all (· == FilePath.upStep)) :
    d.isFolder place = true := by
  rw [isFolder, h]
  rfl

/-- A place is rooted if what is before its last step is, and the whole is what it must be. -/
theorem Rooted.concat {d : Disk} {place : List Text} {step : Text} (h : d.Rooted place)
    (hfolder : d.isFolder (place ++ [step]) = true)
    (hup : step = FilePath.upStep → (place ++ [step]).all (· == FilePath.upStep)) :
    d.Rooted (place ++ [step]) := by
  intro n
  by_cases hn : n ≤ place.length
  · rw [List.take_append_of_le_length hn]
    exact h n
  · have hwhole : (place ++ [step]).take n = place ++ [step] := by
      refine List.take_of_length_le ?_
      rw [List.length_append, List.length_singleton]
      omega
    rw [hwhole]
    refine ⟨hfolder, fun hlast => hup ?_⟩
    rw [List.getLast?_append, List.getLast?_singleton] at hlast
    exact Option.some.inj hlast

theorem rooted_nil (d : Disk) : d.Rooted [] := by
  intro n
  rw [List.take_nil]
  exact ⟨isFolder_of_all rfl, fun h => (nomatch h)⟩

theorem rooted_start (d : Disk) (path : Text) : d.Rooted (FilePath.start path) := by
  rw [FilePath.start]
  split
  · refine (rooted_nil d).concat ?_ (by decide)
    rw [isFolder]
    simp [FilePath.root]
  · exact rooted_nil d

theorem Rooted.up {d : Disk} {place : List Text} (h : d.Rooted place) :
    d.Rooted (FilePath.up place) := by
  rw [FilePath.up]
  split
  · exact rooted_start d ['/']
  · split
    next hnone =>
      exact (rooted_nil d).concat (isFolder_of_all rfl) fun _ => rfl
    next step hlast =>
      split
      next hup =>
        have hwhole := (h place.length).2
        rw [List.take_length, hlast, hup] at hwhole
        have hall : (place ++ [FilePath.upStep]).all (· == FilePath.upStep) = true := by
          rw [List.all_append, hwhole rfl]
          rfl
        exact h.concat (isFolder_of_all hall) fun _ => hall
      next =>
        intro n
        rw [List.dropLast_eq_take, List.take_take]
        exact h _

theorem Rooted.walk {d : Disk} {place : List Text} {step : Text} (h : d.Rooted place)
    (hstep : ¬FilePath.IsName step) : d.Rooted (FilePath.walk place step) := by
  rw [FilePath.walk]
  split
  next => exact h
  next hidle =>
    split
    next => exact h.up
    next hup => exact absurd ⟨Bool.eq_false_iff.mpr hidle, hup⟩ hstep

/-- All folders on the way to a target are there. -/
theorem Leads.isFolder_parents {d : Disk} {place steps target : List Text}
    (h : d.Leads place steps target) (hplace : d.Rooted place) :
    ∀ p ∈ parents target, d.isFolder p = true := by
  induction h with
  | pass hstep _ ih => exact ih (hplace.walk hstep)
  | enter hname _ hfolder _ ih =>
    exact ih (hplace.concat hfolder fun hup => absurd hup hname.2)
  | @last place step hname _ _ =>
    intro p hp
    obtain ⟨n, hn, rfl⟩ := List.mem_map.mp hp
    rw [List.mem_range, List.length_append, List.length_singleton] at hn
    rw [List.take_append_of_le_length (by omega)]
    exact (hplace n).1

/-! ## What is written -/

/-- The file at a path has been written. -/
structure Written (d : Disk) (path : Text) (content : Bytes) (d' : Disk) : Prop where
  leads : d.Leads (FilePath.start path) (FilePath.stepsFrom [] path) (FilePath.place path)
  ne_nil : path.isEmpty = false
  content : lookup? (FilePath.place path) d'.files = some content
  others : ∀ p, p ≠ FilePath.place path → lookup? p d'.files = lookup? p d.files
  folders : ∀ p, d'.isFolder p = d.isFolder p

/-- **A file that is written** is at the place of its path, and nothing else is changed. -/
theorem written_of_write {d d' : Disk} {path : Text} {content : Bytes}
    (h : d.write path content = .ok d') : d.Written path content d' := by
  have hput : ∃ t target, d.follow path = .ok t ∧ t.filePlace? = some target ∧
      d.put target content = d' := by
    rw [write] at h
    split at h
    next => cases h
    next => cases h
    next place onlyFolder hfollow =>
      cases onlyFolder with
      | false => exact ⟨_, place, hfollow, rfl, Except.ok.inj h⟩
      | true => cases h
    next place hfollow => exact ⟨_, place, hfollow, rfl, Except.ok.inj h⟩
  obtain ⟨t, target, hfollow, htarget, rfl⟩ := hput
  rw [follow] at hfollow
  split at hfollow
  next => cases hfollow
  next hempty =>
  have hleads := leads_of_followFrom hfollow htarget
  obtain rfl : target = FilePath.place path := hleads.target_eq
  have hnone : (parents (FilePath.place path)).filter (fun p => !d.isFolder p) = [] := by
    refine List.filter_eq_nil_iff.mpr fun p hp => ?_
    rw [hleads.isFolder_parents (rooted_start d path) p hp]
    decide
  refine ⟨hleads, Bool.eq_false_iff.mpr hempty, ?_, ?_, ?_⟩
  · rw [put, lookup?_assign, if_pos rfl]
  · intro p hp
    rw [put, lookup?_assign, if_neg (Ne.symm hp)]
  · intro p
    rw [isFolder, isFolder, put, hnone, List.append_nil]

namespace Written

variable {d d' : Disk} {path : Text} {content : Bytes}

/-- The path leads to the file. -/
theorem follow_eq (h : d.Written path content d') :
    d'.follow path = .ok (.file (FilePath.place path)) := by
  have hfile : d'.isFile (FilePath.place path) = true := by
    rw [isFile, h.content]
    rfl
  rw [follow, h.ne_nil, if_neg Bool.false_ne_true]
  exact h.leads.followFrom_eq h.folders hfile

/-- Paths that led to files lead to them. -/
theorem follow_kept (h : d.Written path content d') {other : Text} {place : List Text}
    (hother : d.follow other = .ok (.file place)) : d'.follow other = .ok (.file place) := by
  rw [follow] at hother ⊢
  split at hother
  next => cases hother
  next hempty =>
  have hfile : d'.isFile place = true := by
    by_cases hsame : place = FilePath.place path
    · rw [hsame, isFile, h.content]
      rfl
    · rw [isFile, h.others place hsame]
      exact isFile_of_followFrom hother
  rw [if_neg hempty]
  exact (leads_of_followFrom hother rfl).followFrom_eq h.folders hfile

end Written

/-- The place of the file that a path leads to is told by the path. -/
theorem place_of_follow {d : Disk} {path : Text} {place : List Text}
    (h : d.follow path = .ok (.file place)) : place = FilePath.place path := by
  rw [follow] at h
  split at h
  · cases h
  · exact (leads_of_followFrom h rfl).target_eq

/-- What is at a path that leads to a file. -/
theorem read_of_follow {d : Disk} {path : Text} {place : List Text} {content : Bytes}
    (h : d.follow path = .ok (.file place)) (hcontent : lookup? place d.files = some content) :
    d.read path = .ok content := by
  rw [read, h]
  simp only [hcontent, Option.getD_some]

end Disk

end GameText
