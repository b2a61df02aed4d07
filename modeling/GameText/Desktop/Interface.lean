import GameText.Desktop.Step
import GameText.Desktop.Style

/-!
# What the windows are made of

The parts of each window as a tree: what an element is, the traits that the program gives it, and
the parts inside it. Traits that follow the state of the window are taken from there, so the tree
shows what the window offers.
-/

namespace GameText

/-- The kinds of elements. The first three are the program's own. -/
inductive ElementKind where
  | mainWindow
  | settingsWindow
  | unitTable
  | panel
  | splitter
  | list
  | grid
  | label
  | lineField
  | textField
  | choice
  | numberField
  | checkBox
  | button
  | group
  | progressBar
  | statusBar
  | row
  | column
  | form
  | menu
  | action
  | toolBar
deriving DecidableEq, Repr

/-- The traits that elements can be given. -/
inductive Trait where
  | text
  | title
  | windowTitle
  | minimumSize
  | minimumWidth
  | fixedWidth
  | sizes
  | iconSize
  | orientation
  | stretch
  | contentsMargins
  | columnWidth
  | resize
  | contextMenuPolicy
  | selectionBehavior
  | selectionMode
  | wordWrap
  | placeholderText
  | readOnly
  | acceptRichText
  | editable
  | items
  | range
  | value
  | suffix
  | toolTip
  | checked
  | styleSheet
  | visible
  | enabled
  | shortcut
  | movable
deriving DecidableEq, Repr

/-- The name of a trait. -/
def Trait.name : Trait → String
  | .text => "text"
  | .title => "title"
  | .windowTitle => "windowTitle"
  | .minimumSize => "minimumSize"
  | .minimumWidth => "minimumWidth"
  | .fixedWidth => "fixedWidth"
  | .sizes => "sizes"
  | .iconSize => "iconSize"
  | .orientation => "orientation"
  | .stretch => "stretch"
  | .contentsMargins => "contentsMargins"
  | .columnWidth => "columnWidth"
  | .resize => "resize"
  | .contextMenuPolicy => "contextMenuPolicy"
  | .selectionBehavior => "selectionBehavior"
  | .selectionMode => "selectionMode"
  | .wordWrap => "wordWrap"
  | .placeholderText => "placeholderText"
  | .readOnly => "readOnly"
  | .acceptRichText => "acceptRichText"
  | .editable => "editable"
  | .items => "items"
  | .range => "range"
  | .value => "value"
  | .suffix => "suffix"
  | .toolTip => "toolTip"
  | .checked => "checked"
  | .styleSheet => "styleSheet"
  | .visible => "visible"
  | .enabled => "enabled"
  | .shortcut => "shortcut"
  | .movable => "movable"

/-- A part of a window. -/
inductive Part where
  | element (kind : ElementKind) (traits : List (Trait × Json)) (parts : List Part)
  /-- The caption of a row of a form. -/
  | caption (text : Text)
  | stretch
  | separator
  /-- A part of the status bar that messages do not hide. -/
  | permanent (part : Part)

namespace Part

/-- A string as a value. -/
def word (s : String) : Json := .str s.toList

/-- Numbers as a value. -/
def numbers (ns : List Int) : Json := .arr (ns.map Json.int)

/-- A label. -/
def label (text : Text) : Part := .element .label [(.text, .str text)] []

/-- A field of one line with a hint. -/
def lineField (hint : String) (text : Option Text) : Part :=
  .element .lineField
    ([(.placeholderText, word hint)] ++ (text.map fun t => (Trait.text, Json.str t)).toList) []

/-- A choice among texts, into which one may type or not. -/
def choice (editable : Bool) (items : List Json) (text : Text) (more : List (Trait × Json)) :
    Part :=
  .element .choice
    ([(.editable, .bool editable), (.items, .arr items), (.text, .str text)] ++ more) []

/-- A button. -/
def button (text : String) : Part := .element .button [(.text, word text)] []

/-- A check box. -/
def checkBox (text : String) (checked : Bool) : Part :=
  .element .checkBox [(.text, word text), (.checked, .bool checked)] []

/-- A field for a number of a range. -/
def numberField (range : Int × Int) (value : Int) (toolTip : String) (more : List (Trait × Json)) :
    Part :=
  .element .numberField
    ([(.range, numbers [range.1, range.2]), (.toolTip, word toolTip), (.value, .int value)] ++ more)
    []

/-- A titled group with a layout inside. -/
def group (title : String) (layout : Part) : Part :=
  .element .group [(.title, word title)] [layout]

/-- Parts in a row. -/
def row (parts : List Part) : Part := .element .row [] parts

/-- Parts in a column. -/
def column (parts : List Part) : Part := .element .column [] parts

/-! ## The table of text units -/

/-- The bar in which the listed units are chosen. -/
def filterBar (t : Table) : Part :=
  row
    [label "Search:", lineField "Search units (ignores codes)..." none, label "Status:",
     choice false (StatusFilter.choices.map fun f => .str f.name) t.filter.name []]

/-- The grid of the listed units. -/
def grid : Part :=
  .element .grid
    [(.wordWrap, .bool true), (.selectionBehavior, word "SelectRows"),
     (.selectionMode, word "ExtendedSelection"), (.contextMenuPolicy, word "CustomContextMenu"),
     (.resize, .arr
      [.arr [.int 0, word "Fixed"], .arr [.int 1, word "ResizeToContents"],
       .arr [.int 2, word "Stretch"], .arr [.int 3, word "Stretch"]]),
     (.columnWidth, numbers [0, 30])] []

/-- A pane with a text. -/
def pane (title hint : String) (readOnly : Bool) : Part :=
  group title <| column
    [.element .textField
      [(.acceptRichText, .bool false), (.readOnly, .bool readOnly), (.placeholderText, word hint)]
      []]

/-- The panes of the selected row. -/
def panes : Part :=
  .element .panel []
    [.element .row [(.contentsMargins, numbers [0, 0, 0, 0])]
      [pane "Original" "Select a row to view the source text..." true,
       pane "Translation (editable)" "Select a row to edit its translation..." false]]

/-- The table with its bar, its panes and its statistics. -/
def unitTable (t : Table) : Part :=
  .element .unitTable []
    [.element .column [(.contentsMargins, numbers [0, 0, 0, 0])]
      [filterBar t,
       .element .splitter
        [(.orientation, word "Vertical"), (.stretch, .arr [numbers [0, 7], numbers [1, 3]])]
        [grid, panes],
       label t.stats]]

/-! ## The settings form -/

/-- The connection to the server. -/
def connectionGroup (f : SettingsForm) : Part :=
  group "Ollama Connection" <| .element .form []
    [.caption "Ollama URL:",
     lineField "http://localhost:11434" (some f.url),
     .caption "Model:",
     row
      [choice true f.models f.model [(.minimumWidth, .int 250)],
       button "Refresh", button "Test Connection"],
     .caption [],
     .element .label
      ([(.text, .str f.status)] ++
        (if f.style.isEmpty then [] else [(Trait.styleSheet, Json.str f.style)])) []]

/-- The languages and the batch size. -/
def languageGroup (f : SettingsForm) : Part :=
  let languages := SettingsForm.languages.map Json.str
  group "Translation" <| .element .form []
    [.caption "Source Language:", choice true languages f.source [],
     .caption "Target Language:", choice true languages f.target [],
     .caption "Batch Size:",
     numberField SettingsForm.batchRange f.batchSize
      "Text units per request (1 = one request per unit)" []]

/-- What is taken out of documents, and how long they are kept. -/
def extractionGroup (f : SettingsForm) : Part :=
  group "Extraction" <| .element .form []
    [checkBox "Extract text inside KAG [macro] blocks" f.macroTexts,
     .caption "Document Lifetime:",
     numberField SettingsForm.lifetimeRange f.lifetime
      "Drop opened documents idle this long (0 = never)" [(.suffix, word " s")]]

/-- The settings form. -/
def settingsWindow (f : SettingsForm) : Part :=
  .element .settingsWindow [(.windowTitle, word "Settings"), (.minimumSize, numbers [520, 420])]
    [column
      [connectionGroup f, languageGroup f, extractionGroup f, checkBox "Dark mode" f.darkMode,
       row [.stretch, button "Save", button "Cancel"]]]

/-! ## The window -/

/-- The keys for an action. -/
def shortcut? : MenuAction → Option String
  | .openDocuments => some "Ctrl+O"
  | .saveDocument => some "Ctrl+S"
  | _ => none

/-- The action can be chosen at times only. -/
def dependsOnState : MenuAction → Bool
  | .openDocuments => false
  | .loadSession => false
  | .quit => false
  | .settings => false
  | _ => true

/-- An action in a menu or tool bar. -/
def action (w : Window) (a : MenuAction) : Part :=
  .element .action
    ([(.text, .str a.text)] ++ ((shortcut? a).map fun keys => (Trait.shortcut, word keys)).toList ++
      (if dependsOnState a then [(Trait.enabled, Json.bool (w.isEnabled a))] else [])) []

/-- The menus. -/
def menus (w : Window) : Part :=
  .element .menu []
    [.element .menu [(.title, word "&File")]
      [action w .openDocuments, action w .saveDocument, action w .exportDocuments,
       action w .closeDocument, .separator, action w .saveSession, action w .saveSessionAs,
       action w .loadSession, .separator, action w .quit],
     .element .menu [(.title, word "&Translate")]
      [action w .translateAll, action w .translateDocument, action w .stop],
     action w .settings]

/-- The tool bar. -/
def toolBar (w : Window) : Part :=
  .element .toolBar
    [(.title, word "Quick Actions"), (.iconSize, numbers [20, 20]), (.movable, .bool false)]
    [action w .openDocuments, .separator, action w .translateAll, action w .stop, .separator,
     action w .exportDocuments]

/-- The status bar with the progress of a run. -/
def statusBar (w : Window) : Part :=
  .element .statusBar []
    [.permanent (.element .progressBar
      [(.fixedWidth, .int 300), (.visible, .bool w.progress.visible)] []),
     label w.progress.label]

/-- The window. -/
def mainWindow (w : Window) : Part :=
  .element .mainWindow [(.windowTitle, .str w.title), (.minimumSize, numbers [1100, 650])]
    [.element .splitter [(.orientation, word "Horizontal"), (.sizes, numbers [250, 850])]
      [.element .list [] [], unitTable w.bench.table],
     statusBar w]

end Part

namespace Window

/-- Milliseconds between two looks for documents whose lifetime has ended. -/
def purgeInterval : Nat := 60000

/-- Milliseconds from a change of the query until the rows follow. -/
def filterDelay : Nat := 250

/-- The style sheet. -/
def styleSheet (w : Window) : Text := StyleRule.ofMode w.settings.darkMode

end Window

end GameText
