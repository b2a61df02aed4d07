import GameText.EventData.Extract
import GameText.Proofs.Json.Leaves
import GameText.Proofs.ScriptCall.Edits

/-!
# Where extracted texts stand

The traversal of event data gives each text an address, and the way back makes a path of it.
`target?` is that path. `Placed` says what stands there: a string that is the speaker's name with
the text, or a script call that holds the text as one of its values; and it allows for a command
whose parameters are a string instead of an array, where nothing is written. `Independent` says that
two addresses do not get in each other's way: their paths differ, or both are values of one script
call that share no character. These two are all that the way back needs to know of an extraction.
-/

namespace GameText

namespace EventData

open Json (Path Step valueAt?)

/-- The steps from the parameters of a command to a place among them. -/
def steps : ParameterPlace → Path
  | .single i => [.index i]
  | .element outer inner => [.index outer, .index inner]

/-- The path to the text of an address. -/
def target? (shape : Shape) (a : EventAddress) : Option Path :=
  (parametersPath? shape a.container (.index a.command)).map (· ++ steps a.parameter)

theorem target?_of_single {shape : Shape} {a : EventAddress} {base : Path} {i : Int}
    (hbase : parametersPath? shape a.container (.index a.command) = some base)
    (place : a.parameter = .single i) : target? shape a = some (base ++ [.index i]) := by
  rw [target?, hbase, place]
  rfl

/-- Nothing stands at a place of parameters that are a string. -/
theorem stringAt?_steps_of_str {root : Json} {base : Path} {characters : Text}
    (h : root.valueAt? base = some (.str characters)) (place : ParameterPlace) :
    root.stringAt? (base ++ steps place) = none := by
  rw [Json.stringAt?, Json.valueAt?_append, h]
  cases place with
  | single i => rfl
  | element outer inner => rfl

/-- How the text of an address stands in the data. -/
inductive Placed (shape : Shape) (root : Json) : EventUnit → Prop
  | plain {text : Text} {a : EventAddress} {base : Path} {parameters : List Json}
      (kind : a.kind = .plain)
      (path : parametersPath? shape a.container (.index a.command) = some base)
      (command : root.valueAt? base = some (.arr parameters))
      (parameter : (Json.arr parameters).valueAt? (steps a.parameter) =
        some (.str (a.speaker ++ text))) : Placed shape root (text, a)
  | embedded {a : EventAddress} {base : Path} {parameters : List Json} {i : Int} {source : Text}
      {u : ScriptCall.CallUnit} (place : a.parameter = .single i)
      (path : parametersPath? shape a.container (.index a.command) = some base)
      (command : root.valueAt? base = some (.arr parameters))
      (parameter : (Json.arr parameters).valueAt? [.index i] = some (.str source))
      (value : u ∈ ScriptCall.units source) : Placed shape root (u.text, embeddedAddress a u)
  | unreached {text : Text} {a : EventAddress} {base : Path} {characters : Text}
      (kind : a.kind = .plain)
      (path : parametersPath? shape a.container (.index a.command) = some base)
      (command : root.valueAt? base = some (.str characters)) : Placed shape root (text, a)

/-- An address is of a plain text, or of a value of a script call and knows the value. -/
theorem Placed.kind {shape : Shape} {root : Json} {u : EventUnit} (h : Placed shape root u) :
    u.2.kind = .plain ∨ u.2.kind = .embedded ∧ u.2.value = u.1 := by
  cases h with
  | plain kind => exact Or.inl kind
  | embedded => exact Or.inr ⟨rfl, rfl⟩
  | unreached kind => exact Or.inl kind

/-- Two addresses are of values of one script call that share no character. -/
structure Companions (a b : EventAddress) : Prop where
  embedded : a.kind = .embedded ∧ b.kind = .embedded
  container : a.container = b.container
  command : a.command = b.command
  parameter : a.parameter = b.parameter
  apart : ∀ x ∈ a.spans, ∀ y ∈ b.spans, x.2 ≤ y.1 ∨ y.2 ≤ x.1

theorem Companions.symm {a b : EventAddress} (h : Companions a b) : Companions b a :=
  ⟨⟨h.embedded.2, h.embedded.1⟩, h.container.symm, h.command.symm, h.parameter.symm,
    fun x hx y hy => (h.apart y hy x hx).symm⟩

/-- Two addresses lead to different places, or are of different values of one script call. -/
def Independent (shape : Shape) (a b : EventAddress) : Prop :=
  ∀ path, target? shape a = some path → target? shape b = some path → Companions a b

theorem Independent.symm {shape : Shape} {a b : EventAddress} (h : Independent shape a b) :
    Independent shape b a :=
  fun path hb ha => (h path ha hb).symm

/-! ## Paths of commands -/

/-- The path to the command list of a container. -/
def listPath? (shape : Shape) (container : List Step) : Option Path :=
  match shape, container with
  | .events, [event] => some [event, .key "list"]
  | .events, event :: page :: _ => some [event, .key "pages", page, .key "list"]
  | .map, event :: page :: _ => some [.key "events", event, .key "pages", page, .key "list"]
  | _, _ => none

theorem parametersPath?_eq (shape : Shape) (container : List Step) (command : Step) :
    parametersPath? shape container command =
      (listPath? shape container).map (· ++ [command, .key "parameters"]) := by
  cases shape with
  | events =>
    match container with
    | [] => rfl
    | [_] => rfl
    | _ :: _ :: _ => rfl
  | map =>
    match container with
    | [] => rfl
    | [_] => rfl
    | _ :: _ :: _ => rfl

/-- A path of a command list says which container it is of, whatever follows it. -/
theorem listPath?_injective {shape : Shape} {c c' : List Step} (hc : c.length ≤ 2)
    (hc' : c'.length ≤ 2) {l l' x y : Path} (hl : listPath? shape c = some l)
    (hl' : listPath? shape c' = some l') (h : l ++ x = l' ++ y) : c = c' ∧ x = y := by
  match c, c' with
  | [], _ => cases shape <;> cases hl
  | _, [] => cases shape <;> cases hl'
  | _ :: _ :: _ :: _, _ => simp at hc
  | _, _ :: _ :: _ :: _ => simp at hc'
  | [e], [e'] =>
    cases shape with
    | map => cases hl
    | events =>
      cases hl
      cases hl'
      simp at h
      simp [h]
  | [e], [e', p'] =>
    cases shape with
    | map => cases hl
    | events =>
      cases hl
      cases hl'
      simp at h
  | [e, p], [e'] =>
    cases shape with
    | map => cases hl'
    | events =>
      cases hl
      cases hl'
      simp at h
  | [e, p], [e', p'] =>
    cases shape <;> cases hl <;> cases hl' <;> simp at h <;> simp [h]

end EventData

end GameText
