import GameText.Json.Loose
import GameText.Mapping

/-!
# Loose addresses

A file may hold an address whose fields have values of other kinds than extraction gives, or give
an address of one format to a document of another. Such an address is followed as far as it leads:
a field is looked at only when its turn comes, a place that is not there is passed over, and a value
is refused only where it cannot be used.

This module holds what all formats share: asking for a field, and the edited text of a unit.
-/

namespace GameText

namespace LooseAddress

/-- The value of a field that must be there. -/
def field (a : AddressFields) (name : String) : Except Misfit Json :=
  match lookup? name.toList a with
  | some v => .ok v
  | none => .error .noSuchPart

/-- The text of a field. -/
def textField (a : AddressFields) (name : String) : Except Misfit Text := do
  (← field a name).needText

/-- The edited text of the unit with an ordinal; a missing edit counts as empty. -/
def editAt (edits : List Json) (i : Nat) : Json :=
  match edits[i]? with
  | some .null => .str []
  | some v => v
  | none => .str []

end LooseAddress

end GameText
