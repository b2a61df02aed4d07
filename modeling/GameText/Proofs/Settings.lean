import GameText.Proofs.Bytes.Utf8
import GameText.Proofs.Json.Indented
import GameText.Proofs.Json.LongIntegers
import GameText.Settings

/-!
# Settings kept in a file

Whatever the settings file holds, the settings that are read from it have, field by field, the value
that is stored under the field's name if that is of the field's type, and the default otherwise
(`fields_of_load`). Settings that were saved are read back (`load_save`).

But reading does not always come to settings. Bytes that are no UTF-8 are not taken for a damaged
file, and neither is an integer with more digits than are read: both end the reading. These two are
all that does (`load_outcome`).
-/

namespace GameText

/-- Two values of one type. An integer, a floating point number and a truth value have different
types. -/
def Json.sameType : Json → Json → Bool
  | .null, .null | .bool _, .bool _ | .str _, .str _ | .arr _, .arr _ | .obj _, .obj _ => true
  | .num (.int _), .num (.int _) | .num (.float _), .num (.float _) => true
  | _, _ => false

namespace Settings

open Json (maxDigits ShortDigits)

/-! ## What a file holds -/

/-- The members of the JSON object that a settings file holds. A file that is missing, no text or no
object holds none. -/
def membersIn : Option Bytes → List (Text × Json)
  | none => []
  | some content =>
    match Utf8.decode content with
    | .ok text =>
      match Json.read text.unifyNewlines with
      | .ok (.obj members) => members
      | _ => []
    | .error _ => []

/-- A field with the value that is stored under its name, if that is of the type of the default, and
else with the default. -/
def stored (members : List (Text × Json)) : Text × Json → Text × Json
  | (name, fallback) => (name, ((lookup? name members).filter fallback.sameType).getD fallback)

section Stored

variable (members : List (Text × Json)) (name : Text)

theorem stored_text (fallback : Text) :
    stored members (name, .str fallback) = (name, .str (textOr members name fallback)) := by
  rw [stored, textOr]
  cases hvalue : lookup? name members with
  | none => rfl
  | some value => cases value <;> rfl

theorem stored_int (fallback : Int) :
    stored members (name, .int fallback) = (name, .int (intOr members name fallback)) := by
  rw [stored, intOr]
  cases hvalue : lookup? name members with
  | none => rfl
  | some value =>
    cases value with
    | num n => cases n <;> rfl
    | _ => rfl

theorem stored_bool (fallback : Bool) :
    stored members (name, .bool fallback) = (name, .bool (boolOr members name fallback)) := by
  rw [stored, boolOr]
  cases hvalue : lookup? name members with
  | none => rfl
  | some value => cases value <;> rfl

end Stored

/-- Each field of settings is taken from the members by itself. -/
theorem fields_ofMembers (s : Settings) (members : List (Text × Json)) :
    (s.ofMembers members).fields = s.fields.map (stored members) := by
  simp only [fields, ofMembers, List.map_cons, List.map_nil, stored_text, stored_int, stored_bool]

/-! ## Reading -/

/-- Settings that are read are those that the file's members make of the defaults. -/
theorem eq_ofMembers_of_load {file : Option Bytes} {s : Settings} (h : load file = .ok s) :
    s = ofMembers {} (membersIn file) := by
  cases file with
  | none =>
    cases h
    rfl
  | some content =>
    obtain ⟨text, hdecode, hread⟩ := bind_eq_ok h
    have hread := mapError_eq_ok hread
    rw [membersIn, mapError_eq_ok hdecode]
    unfold ofText at hread
    dsimp only
    split at hread
    next members hjson =>
      cases hread
      rw [hjson]
    next value hobject hjson =>
      cases hread
      rw [hjson]
      cases value with
      | obj members => exact absurd rfl (hobject members)
      | _ => rfl
    next refusal hjson =>
      split at hread
      next =>
        cases hread
        rw [hjson]
        rfl
      next => cases hread

/-- **What is read from a file**: each field has the value that is stored under its name if it is of
the field's type, and the default otherwise. -/
theorem fields_of_load {file : Option Bytes} {s : Settings} (h : load file = .ok s) :
    s.fields = ({} : Settings).fields.map (stored (membersIn file)) := by
  rw [eq_ofMembers_of_load h, fields_ofMembers]

/-- A text gives settings unless the reader comes to an integer that is too long. -/
theorem exists_ofText_iff (text : Text) : (∃ s, ofText text = .ok s) ↔
    ∀ digits rest, Json.read text.unifyNewlines ≠ .error ⟨.longInteger digits, rest⟩ := by
  unfold ofText
  cases hjson : Json.read text.unifyNewlines with
  | ok value =>
    refine ⟨fun _ => nofun, fun _ => ?_⟩
    cases value <;> exact ⟨_, rfl⟩
  | error refusal =>
    obtain ⟨problem, rest⟩ := refusal
    cases problem with
    | longInteger digits =>
      refine ⟨?_, fun h => absurd rfl (h digits rest)⟩
      rintro ⟨s, hs⟩
      cases hs
    | _ => exact ⟨fun _ => nofun, fun _ => ⟨_, rfl⟩⟩

/-- Bytes give settings if they are UTF-8 and their text gives them. -/
theorem exists_load_iff (content : Bytes) : (∃ s, load (some content) = .ok s) ↔
    ∃ text, content = Utf8.encode text ∧ ∃ s, ofText text = .ok s := by
  constructor
  · rintro ⟨s, h⟩
    obtain ⟨text, hdecode, hread⟩ := bind_eq_ok h
    exact ⟨text, (Utf8.encode_of_decode (mapError_eq_ok hdecode)).symm, s, mapError_eq_ok hread⟩
  · rintro ⟨text, rfl, s, hs⟩
    refine ⟨s, ?_⟩
    rw [load, Utf8.decode_encode]
    simp only [Except.mapError, bind, Except.bind, hs]

/-- **A UTF-8 file without more digits in a row than are read gives settings**, whatever else is
in it. -/
theorem exists_load_of_shortDigits {text : Text} (short : ShortDigits text.unifyNewlines) :
    ∃ s, load (some (Utf8.encode text)) = .ok s := by
  refine (exists_load_iff _).mpr ⟨text, rfl, (exists_ofText_iff text).mpr fun digits rest h => ?_⟩
  have hplace := short.hasPlace h
  cases hplace

/-! ## Saving -/

theorem writable_fields {s : Settings} (hbatch : s.batchSize.natAbs < 10 ^ maxDigits)
    (hlifetime : s.lifetime.natAbs < 10 ^ maxDigits) : (Json.obj s.fields).Writable := by
  refine .obj ?_ ?_
  · have hnames : s.fields.map (·.1) = ({} : Settings).fields.map (·.1) := rfl
    rw [hnames]
    decide
  · simp only [fields, List.map_cons, List.map_nil, List.forall_mem_cons]
    refine ⟨.str _, .str _, .str _, .str _, .int hbatch, .bool _, .int hlifetime, .str _, .bool _, ?_⟩
    intro entry hentry
    cases hentry

/-- **Saved settings are read back**, if their numbers have no more digits than are read. -/
theorem load_save {s : Settings} (hbatch : s.batchSize.natAbs < 10 ^ maxDigits)
    (hlifetime : s.lifetime.natAbs < 10 ^ maxDigits) :
    load (some (Utf8.encode s.save)) = .ok s := by
  have hwritable := writable_fields hbatch hlifetime
  have hjson : Json.read s.save = .ok (.obj s.fields) := hwritable.read_indented
  have hnewlines : s.save.unifyNewlines = s.save := hwritable.unifyNewlines_indented
  have hfields : ofMembers {} s.fields = s := rfl
  rw [load, Utf8.decode_encode]
  simp only [ofText, hnewlines, hjson, hfields, Except.mapError, bind, Except.bind]

/-- **What comes of a settings file.** Reading ends with settings exactly if the file is missing, or is
UTF-8 whose JSON reader comes to no integer that is too long, as it never does without so many digits
in a row; whatever else is wrong with the file does not matter. The settings then have in each field
the value that the file stores under its name, if it is of the field's type, and else the default.
Settings that were saved come back. -/
theorem load_outcome (file : Option Bytes) :
    ((∃ s, load file = .ok s) ↔ ∀ content, file = some content →
        ∃ text, content = Utf8.encode text ∧
          ∀ digits rest, Json.read text.unifyNewlines ≠ .error ⟨.longInteger digits, rest⟩) ∧
      (∀ text, file = some (Utf8.encode text) → ShortDigits text.unifyNewlines →
        ∃ s, load file = .ok s) ∧
      (∀ s, load file = .ok s →
        s.fields = ({} : Settings).fields.map (stored (membersIn file))) ∧
      ∀ s : Settings, s.batchSize.natAbs < 10 ^ maxDigits → s.lifetime.natAbs < 10 ^ maxDigits →
        load (some (Utf8.encode s.save)) = .ok s := by
  refine ⟨?_, ?_, fun s h => fields_of_load h, fun s hbatch hlifetime => load_save hbatch hlifetime⟩
  · cases file with
    | none => exact ⟨fun _ => nofun, fun _ => ⟨{}, rfl⟩⟩
    | some content =>
      simp only [exists_load_iff, exists_ofText_iff, Option.some_inj, forall_eq']
  · rintro text rfl short
    exact exists_load_of_shortDigits short

/-- Truth values and integers in each other's places are left out, in a file that ends too early
nothing is found, and a negative number and a name with a quotation mark come back. -/
theorem swapped_kinds_left_out :
    let content : Text := "\x7b\"batch_size\": true, \"dark_mode\": 0, \"model\": \"m\"\x7d".toList
    let file : Option Bytes := some (Utf8.encode content)
    let truncated : Text := "\x7b\"dark_mode\": fal".toList
    let saved : Settings := { lifetime := -5, lastFolder := "a\"b\n" }
    load file = .ok { model := "m" } ∧
      ({ model := "m" } : Settings).fields = ({} : Settings).fields.map (stored (membersIn file)) ∧
      ShortDigits truncated.unifyNewlines ∧
      (∃ s, load (some (Utf8.encode truncated)) = .ok s) ∧
      load (some (Utf8.encode saved.save)) = .ok saved := by
  intro content file truncated saved
  have hload : load file = .ok { model := "m" } := by decide +kernel
  have hshort : ShortDigits truncated.unifyNewlines := by
    have hlength : truncated.unifyNewlines.length = 17 := by decide +kernel
    exact Json.shortDigits_of_length_le (hlength ▸ by decide)
  have hsmall : ∀ n : Nat, n < 10 ^ 2 → n < 10 ^ maxDigits := fun n hn =>
    Nat.lt_of_lt_of_le hn (Nat.pow_le_pow_right (by decide) (by decide))
  obtain ⟨-, -, hfields, hsaved⟩ := load_outcome file
  obtain ⟨-, hexists, -, -⟩ := load_outcome (some (Utf8.encode truncated))
  exact ⟨hload, hfields _ hload, hshort, hexists truncated rfl hshort,
    hsaved saved (hsmall _ (by decide)) (hsmall _ (by decide))⟩

/-- A file that an editor saved as UTF-16 gives no settings, not even the defaults. -/
theorem utf16_file_ends_load :
    ¬ ∃ s, load (some [0xFF, 0xFE, 0x7B, 0x00, 0x7D, 0x00]) = .ok s := by
  have hload : load (some [0xFF, 0xFE, 0x7B, 0x00, 0x7D, 0x00]) =
      .error (.notUtf8 ⟨0, 0xFF, 0, .start⟩) := by
    decide +kernel
  rintro ⟨s, hs⟩
  rw [hload] at hs
  cases hs

end Settings

end GameText
