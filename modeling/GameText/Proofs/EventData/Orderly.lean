import GameText.Proofs.EventData.Extraction

/-!
# Event data that extraction can go through

Extraction looks into the values of event data without asking first of what kind they are: the code
of a command is looked up, a place is looked up in its parameters, and the pages of an event are
gone through. `orderly` says of data that all of these are of a kind that allows it; nothing is
asked of a value that extraction does not look into. Extraction has texts, if perhaps none, exactly
if the data is orderly; its only other failure is a source that is no event data (`extract_cases`).
-/

namespace GameText

namespace EventData

/-! ## Orderly data -/

/-- A value that can be looked up among the codes. -/
def isCode : Json → Bool
  | .arr _ => false
  | .obj _ => false
  | _ => true

/-- A value in which a place of a row of parameters can be looked up: a row, a value that counts as
absent, or an object with too few entries to have the place. -/
def hasPlace (i : Nat) : Json → Bool
  | .arr _ => true
  | .str _ => true
  | .obj members => members.length ≤ i
  | v => !v.truthy

/-- A value that can be gone through as pages, or counts as absent. -/
def isPages : Json → Bool
  | .num n => n.isZero
  | .bool present => !present
  | _ => true

/-- The place of the parameter that a command's code asks for. -/
def place? (command : Json) : Option Nat :=
  match command.get? "code" with
  | some (.num n) => (n.toInt?.bind location?).map (·.1)
  | _ => none

/-- A command that can be looked into. -/
def orderlyCommand (command : Json) : Bool :=
  (command.get? "code").all isCode &&
    (place? command).all fun i => (command.get? "parameters").all (hasPlace i)

/-- An object whose list of commands, if it has one, can be looked into. -/
def orderlyList (v : Json) : Bool := (commands? v).all fun commands => commands.all orderlyCommand

/-- An event whose pages can be looked into. -/
def orderlyPages (event : Json) : Bool :=
  match event.get? "pages" with
  | some (.arr pages) => pages.all orderlyList
  | some v => isPages v
  | none => true

/-- Event data that can be looked into throughout. In a row of events an event may have commands of
its own. -/
def orderly (shape : Shape) (root : Json) : Bool :=
  match shape, root with
  | .events, .arr events => events.all fun event => orderlyList event && orderlyPages event
  | .map, root =>
    match root.get? "events" with
    | some (.arr events) => events.all orderlyPages
    | some (.obj events) => events.all fun (_, event) => orderlyPages event
    | _ => true
  | _, _ => true

/-! ## Commands -/

theorem parameter_isOk (command : Json) (i : Nat) :
    (parameter command i).isOk = (command.get? "parameters").all (hasPlace i) := by
  unfold parameter
  cases command.get? "parameters" with
  | none => rfl
  | some v =>
    cases v with
    | bool present => cases present <;> rfl
    | num n => cases h : n.isZero <;> simp [hasPlace, Json.truthy, h, Except.isOk, Except.toBool]
    | obj members =>
      by_cases h : members.length ≤ i <;> simp [hasPlace, h, Except.isOk, Except.toBool]
    | _ => rfl

/-- A command has texts, if perhaps none, exactly if it can be looked into. -/
theorem commandUnits_isOk (scripts : Bool) (container : List Json.Step) (index : Nat)
    (command : Json) :
    (commandUnits scripts container index command).isOk = orderlyCommand command := by
  unfold commandUnits locationOf orderlyCommand place?
  cases command.get? "code" with
  | none => rfl
  | some code =>
    cases code with
    | num n =>
      cases hplace : n.toInt?.bind location? with
      | none =>
        simp [hplace, isCode, bind, Except.bind, pure, Except.pure, Except.isOk, Except.toBool]
      | some found =>
        obtain ⟨i, location⟩ := found
        have hparameter := parameter_isOk command i
        cases hvalue : parameter command i with
        | error cause =>
          simpa [hplace, hvalue, isCode, bind, Except.bind, Except.isOk, Except.toBool]
            using hparameter
        | ok value =>
          cases value <;>
            simpa [hplace, hvalue, isCode, bind, Except.bind, pure, Except.pure, Except.isOk,
              Except.toBool] using hparameter
    | _ => rfl

/-! ## Command lists -/

/-- A command list whose commands can be looked into. -/
def orderlyCommands (list : CommandList) : Bool :=
  match list with
  | .ok (_, commands) => commands.all orderlyCommand
  | .error _ => false

theorem all_zipIdx {α : Type} (p : α → Bool) (xs : List α) (k : Nat) :
    ((xs.zipIdx k).all fun x => p x.1) = xs.all p := by
  calc (xs.zipIdx k).all (p ∘ Prod.fst)
    _ = ((xs.zipIdx k).map Prod.fst).all p := List.all_map.symm
    _ = xs.all p := by rw [List.zipIdx_map_fst]

theorem all_pageLists (event : Json.Step) (v : Json) :
    (pageLists event v).all orderlyCommands = orderlyPages v := by
  unfold pageLists orderlyPages
  cases v.get? "pages" with
  | none => rfl
  | some pages =>
    cases pages with
    | bool present => cases present <;> rfl
    | num n => cases h : n.isZero <;> simp [isPages, orderlyCommands, h]
    | arr pages =>
      show (pages.zipIdx.filterMap _).all orderlyCommands = pages.all orderlyList
      rw [← all_zipIdx orderlyList pages 0, List.all_filterMap]
      congr 1
      funext ⟨page, j⟩
      cases hlist : commands? page <;> simp [orderlyList, orderlyCommands, hlist]
    | _ => rfl

/-- Every command list of the data can be looked into exactly if the data can. -/
theorem all_commandLists (shape : Shape) (root : Json) :
    (commandLists shape root).all orderlyCommands = orderly shape root := by
  cases shape with
  | events =>
    cases root with
    | arr events =>
      show (events.zipIdx.flatMap _).all orderlyCommands = events.all _
      rw [List.all_flatMap, ← all_zipIdx _ events 0]
      congr 1
      funext x
      rw [List.all_append, all_pageLists]
      congr 1
      unfold orderlyList
      cases commands? x.1 with
      | none => rfl
      | some commands => exact Bool.and_true _
    | _ => rfl
  | map =>
    simp only [commandLists, orderly]
    cases root.get? "events" with
    | none => rfl
    | some events =>
      cases events with
      | arr events =>
        show (events.zipIdx.flatMap _).all _ = events.all orderlyPages
        rw [List.all_flatMap, ← all_zipIdx _ events 0]
        congr 1
        funext x
        exact all_pageLists _ x.1
      | obj events =>
        show (events.flatMap _).all _ = events.all _
        rw [List.all_flatMap]
        congr 1
        funext x
        exact all_pageLists _ x.2
      | _ => rfl

/-! ## Extraction -/

/-- The texts of a command list. -/
def listUnits (scripts : Bool) (list : CommandList) : Except Error (List EventUnit) := do
  let (container, commands) ← list.mapError Error.misfit
  let units ← commands.zipIdx.mapM fun (command, index) =>
    (commandUnits scripts container index command).mapError Error.misfit
  return units.flatten

theorem listUnits_isOk (scripts : Bool) (list : CommandList) :
    (listUnits scripts list).isOk = orderlyCommands list := by
  cases list with
  | error => rfl
  | ok found =>
    obtain ⟨container, commands⟩ := found
    show Except.isOk (commands.zipIdx.mapM _ >>= fun units => pure units.flatten) = commands.all _
    rw [isOk_bind_pure, mapM_isOk, ← all_zipIdx _ commands 0]
    congr 1
    funext x
    rw [isOk_mapError, commandUnits_isOk]

/-- The texts of a command list fail to be taken out for no other reason. -/
theorem misfit_of_listUnits {scripts : Bool} {list : CommandList} {e : Error}
    (h : listUnits scripts list = .error e) : ∃ cause, e = .misfit cause := by
  rcases bind_eq_error h with h | ⟨⟨container, commands⟩, -, h⟩
  · exact exists_of_mapError_eq_error h
  · rcases bind_eq_error h with h | ⟨units, -, h⟩
    · obtain ⟨command, -, h⟩ := exists_of_mapM_eq_error h
      exact exists_of_mapError_eq_error h
    · cases h

/-- Of event data the texts are taken out one command list after the other. -/
theorem extract_of_read_eq_ok (scripts : Bool) {source : Text} {shape : Shape}
    {document : Json.Document} (h : read source = .ok (shape, document)) :
    extract scripts source =
      ((commandLists shape document.value).mapM (listUnits scripts)).map List.flatten := by
  unfold extract
  rw [h]
  rfl

/-- Extraction of a source fails because the source is no event data, or because the data cannot be
looked into. -/
theorem extract_cases (scripts : Bool) (source : Text) :
    (∃ cause, read source = .error cause ∧ extract scripts source = .error (.source cause)) ∨
      ∃ shape document, read source = .ok (shape, document) ∧
        if orderly shape document.value then ∃ units, extract scripts source = .ok units
        else ∃ cause, extract scripts source = .error (.misfit cause) := by
  cases hread : read source with
  | error cause =>
    refine .inl ⟨cause, rfl, ?_⟩
    unfold extract
    rw [hread]
    rfl
  | ok found =>
    obtain ⟨shape, document⟩ := found
    refine .inr ⟨shape, document, rfl, ?_⟩
    have horderly : ((commandLists shape document.value).mapM (listUnits scripts)).isOk =
        orderly shape document.value := by
      rw [mapM_isOk, ← all_commandLists]
      simp only [listUnits_isOk]
    rw [← horderly, extract_of_read_eq_ok scripts hread]
    cases hlists : (commandLists shape document.value).mapM (listUnits scripts) with
    | ok lists => exact ⟨lists.flatten, rfl⟩
    | error e =>
      obtain ⟨list, -, hlist⟩ := exists_of_mapM_eq_error hlists
      obtain ⟨cause, rfl⟩ := misfit_of_listUnits hlist
      exact ⟨cause, rfl⟩

end EventData

end GameText
