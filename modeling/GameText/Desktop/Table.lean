import GameText.Markup.Placeholder
import GameText.Session.Basic
import GameText.Text.Case

/-!
# The table of text units

The table lists units of one document, a unit a row, by what is searched for and by whether the
unit is translated. A row that was selected has its texts in two panes: the source text, and the
target text, which can be edited there. The table stands beside the documents whose units it lists,
and both change together, so they are one value, the workbench.

What the table announces to the rest of the window is kept in order: that target texts have changed,
that units are to be translated, and that units could not be searched because a session file holds
something else in the place of a text.
-/

namespace GameText

/-- Which units are listed. -/
inductive StatusFilter where
  | all
  | untranslated
  | translated
deriving DecidableEq, Repr

namespace StatusFilter

/-- The filters in the order in which they are offered. -/
def choices : List StatusFilter := [.all, .untranslated, .translated]

/-- The name of a filter. -/
def name : StatusFilter → Text
  | .all => "All"
  | .untranslated => "Untranslated"
  | .translated => "Translated"

/-- The filter with a name. -/
def ofName? (name : Text) : Option StatusFilter := choices.find? (·.name == name)

/-- A unit that is translated or not is listed. -/
def admits (filter : StatusFilter) (translated : Bool) : Bool :=
  match filter with
  | .all => true
  | .untranslated => !translated
  | .translated => translated

end StatusFilter

/-- What the table announces. -/
inductive TableEvent where
  /-- Target texts have changed, or the rows look different. -/
  | changed
  /-- The units are to be translated. -/
  | translate (units : List Nat)
  /-- Units could not be listed. -/
  | unlisted (cause : Misfit)
deriving DecidableEq, Repr

/-- The table. -/
structure Table where
  /-- The document whose units are listed. -/
  shown : Option Nat := none
  dark : Bool := true
  /-- The unit of each row. -/
  rows : List Nat := []
  /-- The row that the panes were filled from. Listing other units does not change it. -/
  selectedRow : Option Nat := none
  /-- What is in the pane of the source text. -/
  sourcePane : Json := .str []
  /-- What is in the pane of the target text. -/
  targetPane : Json := .str []
  query : Text := []
  filter : StatusFilter := .all
  /-- The query has changed and the rows will follow soon. -/
  filterDue : Bool := false
  stats : Text := "No document loaded"
  /-- The rows that are highlighted. -/
  highlighted : List Nat := []
  /-- The row that has the cursor. -/
  cursor : Option Nat := none

/-- Opened documents with the table. -/
structure Workbench where
  session : Session := {}
  table : Table := {}
  events : List TableEvent := []

namespace Table

/-- The row with a number that may lie outside. -/
def row? (t : Table) (row : Int) : Option Nat :=
  if 0 ≤ row ∧ row < t.rows.length then some row.toNat else none

/-- The unit of a row that may lie outside. -/
def unitAt (t : Table) (row : Int) : Option Nat := (t.row? row).bind (t.rows[·]?)

/-- The first row of a unit. -/
def rowOf (t : Table) (unit : Int) : Option Nat := t.rows.findIdx? fun u => Int.ofNat u == unit

/-- The units of the highlighted rows, from top to bottom. -/
def highlightedUnits (t : Table) : List Nat :=
  (t.rows.zipIdx.filter fun (_, row) => t.highlighted.contains row).map (·.1)

/-- The text holds the query, markup and letter case disregarded. Only a text can be searched. -/
def holds (query : Text) : Json → Except Misfit Bool
  | .str text => .ok (Text.occursIn query (Markup.strip text).lower)
  | _ => .error .wrongKind

/-- The unit is listed for a query. An empty query lists every unit. -/
def found (query : Text) (source target : Json) : Except Misfit Bool := do
  if query.isEmpty then return true
  if ← holds query.lower source then return true
  holds query.lower target

/-- The units of a document that are listed. -/
def listed (filter : StatusFilter) (query : Text) (d : SessionDocument) :
    Except Misfit (List Nat) := do
  let admitted := d.sources.zipIdx.filter fun (_, unit) => filter.admits (d.isTranslated unit)
  let units ← admitted.filterM fun (source, unit) => found query source (d.target unit)
  return units.map (·.2)

end Table

namespace Workbench

/-- The document whose units are listed. -/
def shown? (b : Workbench) : Option SessionDocument :=
  b.table.shown.bind (b.session.documents[·]?)

/-! ## Refreshing -/

/-- The line of statistics. -/
def statistics (b : Workbench) : Text :=
  match b.shown? with
  | none => "No document loaded"
  | some d =>
    "Showing " ++ Text.ofNat b.table.rows.length ++ " of " ++ Text.ofNat d.total ++
      " units  |  Translated: " ++ Text.ofNat d.translatedCount

/-- Brings the statistics up to date. -/
def countAgain (b : Workbench) : Workbench :=
  { b with table := { b.table with stats := b.statistics } }

/-- Counts again and announces a change. -/
def announceChange (b : Workbench) : Workbench :=
  let b := b.countAgain
  { b with events := b.events ++ [.changed] }

/-- Announces a change if the row is there. -/
def refreshRow (b : Workbench) (row : Option Nat) : Workbench :=
  if row.any (· < b.table.rows.length) then b.announceChange else b

/-- Lists units; nothing is highlighted then. -/
def list (b : Workbench) (rows : List Nat) : Workbench :=
  { b with table := { b.table with rows, highlighted := [], cursor := none } }.countAgain

/-- Lists the units that the query and the filter admit. -/
def applyFilter (b : Workbench) : Workbench :=
  match b.shown? with
  | none => b.list []
  | some d =>
    match Table.listed b.table.filter b.table.query d with
    | .ok units => b.list units
    | .error cause => { b with events := b.events ++ [.unlisted cause] }

/-- Lists the units of another document, or of none. -/
def showDocument (b : Workbench) (document : Option Nat) : Workbench :=
  { b with table :=
    { b.table with
      shown := document, selectedRow := none, sourcePane := .str [], targetPane := .str [] }
  }.applyFilter

/-- Changes the colours. -/
def setDark (b : Workbench) (dark : Bool) : Workbench :=
  let b := { b with table := { b.table with dark } }
  if b.table.rows.isEmpty then b else b.announceChange

/-! ## Target texts -/

/-- Puts a target text into the document whose units are listed. -/
def write (b : Workbench) (unit : Nat) (text : Text) : Workbench :=
  match b.table.shown, b.shown? with
  | some i, some d => { b with session := b.session.setDocument i (d.setTarget unit (.str text)) }
  | _, _ => b

/-- Puts a translated text into a document. The panes follow if they show the unit. -/
def receive (b : Workbench) (document : Nat) (unit : Int) (text : Text) :
    Except Misfit Workbench :=
  match (b.session.documents[document]?).bind (·.translate? unit (.str text)) with
  | none => .error .outside
  | some d =>
    let b := { b with session := b.session.setDocument document d }
    if b.table.shown ≠ some document then .ok b
    else
      let row := b.table.rowOf unit
      let b := b.refreshRow row
      .ok (if row.isSome ∧ row = b.table.selectedRow then
          { b with table := { b.table with targetPane := .str text } }
        else b)

/-! ## What the user does -/

/-- Types a query; a new one makes the filter due. -/
def search (b : Workbench) (query : Text) : Workbench :=
  if query = b.table.query then b
  else { b with table := { b.table with query, filterDue := true } }

/-- The filter that is due is applied. -/
def filterTimeout (b : Workbench) : Workbench :=
  if b.table.filterDue then
    { b with table := { b.table with filterDue := false } }.applyFilter
  else b

/-- Chooses a status filter by name; a name that is not offered changes nothing. -/
def chooseStatus (b : Workbench) (name : Text) : Workbench :=
  match StatusFilter.ofName? name with
  | none => b
  | some filter =>
    if filter = b.table.filter then b
    else { b with table := { b.table with filter } }.applyFilter

/-- Fills the panes from a row, or empties them. -/
def fillPanes (b : Workbench) (row : Option Nat) : Workbench :=
  match row.bind (b.table.rows[·]?), b.shown? with
  | some unit, some d =>
    { b with table :=
      { b.table with
        selectedRow := row, sourcePane := d.source unit, targetPane := d.target unit } }
  | _, _ =>
    { b with table :=
      { b.table with selectedRow := none, sourcePane := .str [], targetPane := .str [] } }

/-- Highlights rows and moves the cursor; rows outside the table do not count. -/
def select (b : Workbench) (rows : List Int) (cursor : Int) : Workbench :=
  let moved := b.table.row? cursor
  let same := moved == b.table.cursor
  let b := { b with table :=
    { b.table with highlighted := rows.filterMap b.table.row?, cursor := moved } }
  if same then b else b.fillPanes moved

/-- Types into the pane of the target text, which goes to the unit of the selected row. -/
def type (b : Workbench) (text : Text) : Workbench :=
  let b := { b with table := { b.table with targetPane := .str text } }
  match b.table.selectedRow.bind (b.table.rows[·]?) with
  | none => b
  | some unit => (b.write unit text).refreshRow b.table.selectedRow

end Workbench

/-! ## Cells -/

/-- A place in a grid. No place has a negative row. -/
structure CellIndex where
  row : Int
  column : Int
deriving DecidableEq, Repr

/-- What a cell is asked for. -/
inductive CellRole where
  | display
  | edit
  | alignment
  | background
  | other
deriving DecidableEq, Repr

/-- What a cell answers. -/
inductive CellValue where
  /-- A text, or what a session file holds in its place. -/
  | value (value : Json)
  | color (red green blue : Nat)
  | centered

namespace Table

/-- The headings of the columns. -/
def headings : List Text := ["".toList, "#".toList, "Original".toList, "Translation".toList]

/-- The column of the target texts. -/
def targetColumn : Int := 3

/-- The heading of a column that may be counted from the end. Beyond the last column there is
none. -/
def heading (column : Int) : Except Misfit Text :=
  if headings.length ≤ column then .ok []
  else
    match (index? headings.length column).bind (headings[·]?) with
    | some text => .ok text
    | none => .error .outside

/-- The place of a cell of the table; for a cell outside, no place. -/
def cellIndex (t : Table) (row column : Int) : CellIndex :=
  if (t.row? row).isSome ∧ 0 ≤ column ∧ column < headings.length then ⟨row, column⟩ else ⟨-1, -1⟩

/-- The mark of a unit that is translated or not. -/
def mark (translated : Bool) : Text := if translated then "◐" else "○"

/-- The colour of a row. -/
def color (dark translated : Bool) : CellValue :=
  match dark, translated with
  | true, false => .color 80 40 40
  | true, true => .color 70 65 30
  | false, false => .color 255 230 230
  | false, true => .color 255 255 210

/-- Cells of the column can be edited. -/
def isEditable (i : CellIndex) : Bool := i.column == targetColumn

end Table

namespace Workbench

/-- What a cell of a unit holds. -/
def cellContent? (d : SessionDocument) (unit : Nat) (column : Int) : Option Json :=
  if column = 0 then some (.str (Table.mark (d.isTranslated unit)))
  else if column = 1 then some (.str (Text.ofNat (unit + 1)))
  else if column = 2 then some (d.source unit)
  else if column = Table.targetColumn then some (d.target unit)
  else none

/-- What the cell at a place answers. -/
def cell? (b : Workbench) (i : CellIndex) (role : CellRole) : Option CellValue :=
  match b.table.unitAt i.row, b.shown? with
  | some unit, some d =>
    match role with
    | .display => (cellContent? d unit i.column).map .value
    | .edit => (cellContent? d unit i.column).map .value
    | .background => some (Table.color b.table.dark (d.isTranslated unit))
    | .alignment => if i.column = 0 ∨ i.column = 1 then some .centered else none
    | .other => none
  | _, _ => none

/-- Edits the cell at a place, and tells whether it can be edited. -/
def editCell (b : Workbench) (i : CellIndex) (role : CellRole) (text : Text) : Bool × Workbench :=
  match b.table.unitAt i.row with
  | some unit =>
    if role = .edit ∧ Table.isEditable i then
      (true, (b.write unit text).refreshRow (b.table.row? i.row))
    else (false, b)
  | none => (false, b)

/-! ## The menu of the highlighted rows -/

/-- The entry that has units translated. -/
def translateEntry (units : List Nat) : Text :=
  "Machine-translate " ++ Text.ofNat units.length ++ " selected"

/-- The entry that empties target texts. -/
def clearEntry : Text := "Clear translation"

/-- The entries of the menu. Without a highlighted row there is no menu. -/
def menuEntries (b : Workbench) : List Text :=
  let units := b.table.highlightedUnits
  if units.isEmpty then [] else [translateEntry units, clearEntry]

/-- Empties the target text of a unit. The panes do not follow. -/
def clear (b : Workbench) (unit : Nat) : Workbench :=
  (b.write unit []).refreshRow (b.table.rowOf unit)

/-- Chooses an entry of the menu, or none. -/
def chooseEntry (b : Workbench) (entry : Option Text) : Workbench :=
  let units := b.table.highlightedUnits
  if units.isEmpty then b
  else if entry = some (translateEntry units) then
    { b with events := b.events ++ [.translate units] }
  else if entry = some clearEntry then units.foldl clear b
  else b

end Workbench

end GameText
