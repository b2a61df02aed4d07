import GameText.Text.Keyword

/-!
# The dark style

The colours of the dark mode, as rules of a style sheet: each rule names the parts of the window
that it is for and what is declared of them.
-/

namespace GameText

/-- A rule of a style sheet. -/
structure StyleRule where
  selectors : List Text
  declarations : List (Text × Text)
deriving DecidableEq, Repr

namespace StyleRule

/-- A rule of written selectors and declarations. -/
def of (selectors : List String) (declarations : List (String × String)) : StyleRule :=
  ⟨selectors.map String.toList, declarations.map fun (k, v) => (k.toList, v.toList)⟩

/-- A declaration on a line of its own. -/
def declaration (property value : Text) : Text :=
  "    ".toList ++ property ++ ": " ++ value ++ ";\n"

/-- The text of a rule. -/
def text (r : StyleRule) : Text :=
  Text.join ", " r.selectors ++ " \x7b\n" ++
    (r.declarations.flatMap fun (property, value) => declaration property value) ++ "\x7d\n"

/-- The text of a style sheet, which begins on a new line. -/
def sheet (rules : List StyleRule) : Text := '\n' :: rules.flatMap text

/-- The rules of the dark mode. -/
def dark : List StyleRule :=
  [of ["QMainWindow", "QDialog", "QWidget"]
    [("background-color", "#1e1e2e"), ("color", "#cdd6f4")],
   of ["QMenuBar", "QToolBar"]
    [("background-color", "#181825"), ("color", "#cdd6f4"),
     ("border-bottom", "1px solid #313244")],
   of ["QMenuBar::item:selected", "QToolBar QToolButton:hover"]
    [("background-color", "#313244")],
   of ["QMenu"]
    [("background-color", "#1e1e2e"), ("color", "#cdd6f4"), ("border", "1px solid #313244")],
   of ["QMenu::item:selected"]
    [("background-color", "#45475a")],
   of ["QListWidget", "QTableView", "QTextEdit", "QLineEdit", "QComboBox", "QSpinBox"]
    [("background-color", "#181825"), ("color", "#cdd6f4"), ("border", "1px solid #313244"),
     ("selection-background-color", "#45475a")],
   of ["QHeaderView::section"]
    [("background-color", "#1e1e2e"), ("color", "#cdd6f4"), ("border", "1px solid #313244"),
     ("padding", "4px")],
   of ["QPushButton"]
    [("background-color", "#313244"), ("color", "#cdd6f4"), ("border", "1px solid #45475a"),
     ("padding", "5px 15px"), ("border-radius", "3px")],
   of ["QPushButton:hover"]
    [("background-color", "#45475a")],
   of ["QProgressBar"]
    [("border", "1px solid #313244"), ("background-color", "#181825"), ("text-align", "center"),
     ("color", "#cdd6f4")],
   of ["QProgressBar::chunk"]
    [("background-color", "#89b4fa")],
   of ["QStatusBar"]
    [("background-color", "#181825"), ("color", "#a6adc8")],
   of ["QGroupBox"]
    [("border", "1px solid #313244"), ("border-radius", "4px"), ("margin-top", "8px"),
     ("padding-top", "16px"), ("color", "#cdd6f4")],
   of ["QGroupBox::title"]
    [("subcontrol-origin", "margin"), ("left", "10px")],
   of ["QSplitter::handle"]
    [("background-color", "#313244")],
   of ["QCheckBox"]
    [("color", "#cdd6f4"), ("spacing", "6px")]]

/-- The style sheet of the program. -/
def ofMode (darkMode : Bool) : Text := if darkMode then sheet dark else []

end StyleRule

end GameText
