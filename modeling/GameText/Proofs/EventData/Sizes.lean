import GameText.Proofs.EventData.Extraction
import GameText.Proofs.Json.Bounded

/-!
# How large the addresses of event data are

The indices of an address lead into arrays of the document, and its spans into a string of the
document. So no number in an address is larger than the source is long (`extract_sized`). An address
names its kinds, and the names tell them.
-/

namespace GameText

namespace EventData

open Json (Step Bounded)

/-- The numbers of an address lie within a bound, and its kinds are told by their names. -/
structure Sized (bound : Nat) (a : EventAddress) : Prop where
  container : ∀ s ∈ a.container, s.Below bound
  command : (Step.index a.command).Below bound
  place : ∀ s ∈ steps a.parameter, s.Below bound
  kind : .ofName a.kind.name = a.kind
  expression : .ofName a.expression.name = a.expression
  spans : ∀ span ∈ a.spans, span.1.natAbs ≤ bound ∧ span.2.natAbs ≤ bound

variable {scripts : Bool} {bound : Nat}

theorem below_natCast {i : Nat} : (Step.index (i : Int)).Below bound ↔ i < bound := by
  simp [Step.Below]

/-! ## The texts of a parameter -/

theorem Sized.element {a : EventAddress} (h : Sized bound a) {i k : Nat} (hi : i < bound)
    (hk : k < bound) : Sized bound { a with parameter := .element i k } where
  container := h.container
  command := h.command
  place := List.forall_mem_cons.mpr
    ⟨below_natCast.mpr hi, List.forall_mem_singleton.mpr (below_natCast.mpr hk)⟩
  kind := h.kind
  expression := h.expression
  spans := h.spans

/-- A value of a script call has its spans in the script. -/
theorem Sized.embedded {a : EventAddress} (h : Sized bound a) {source : Text}
    (hsource : source.length ≤ bound) {u : ScriptCall.CallUnit} (hu : u ∈ ScriptCall.units source) :
    Sized bound (embeddedAddress a u) where
  container := h.container
  command := h.command
  place := h.place
  kind := (by decide : EventTextKind.ofName EventTextKind.embedded.name = .embedded)
  expression := ScriptCall.named_of_mem_units hu
  spans := by
    intro span hspan
    obtain ⟨x, hx, rfl⟩ := List.mem_map.mp hspan
    have hwithin := (ScriptCall.units_sound source).within u hu x hx
    have hlt := hwithin.start_lt_stop
    have hle := hwithin.stop_le
    show (x.start : Int).natAbs ≤ bound ∧ (x.stop : Int).natAbs ≤ bound
    omega

theorem sized_of_mem_parameterUnits {a : EventAddress} (h : Sized bound a) {i : Nat}
    (hi : i < bound) {location : Location} {value : Json} (hvalue : value.Bounded bound)
    {u : EventUnit} (hu : u ∈ parameterUnits scripts a i location value) : Sized bound u.2 := by
  unfold parameterUnits at hu
  split at hu
  next s =>
    unfold dialogueUnit at hu
    split at hu
    next =>
      rw [List.mem_singleton.mp hu]
      exact ⟨h.container, h.command, h.place, h.kind, h.expression, h.spans⟩
    next => cases hu
  next s =>
    split at hu
    next =>
      rw [List.mem_singleton.mp hu]
      exact h
    next => cases hu
  next choices =>
    obtain ⟨⟨choice, k⟩, hmem, hchoice⟩ := List.mem_filterMap.mp hu
    obtain ⟨hk, -⟩ := List.getElem?_eq_some_iff.mp (List.mk_mem_zipIdx_iff_getElem?.mp hmem)
    cases hvalue with
    | arr size below =>
      cases choice with
      | str s =>
        obtain ⟨-, hs⟩ := Option.ite_none_right_eq_some.mp hchoice
        cases hs
        exact h.element hi (Nat.lt_of_lt_of_le hk size)
      | _ => cases hchoice
  next s =>
    cases hvalue with
    | str size =>
      split at hu
      next =>
        obtain ⟨x, hx, rfl⟩ := List.mem_map.mp hu
        exact h.embedded size hx
      next => cases hu
  next => cases hu

/-! ## The texts of a command -/

/-- A parameter that a command has lies within the command. -/
theorem bounded_of_parameter {command value : Json} (h : command.Bounded bound) {i : Nat}
    (hvalue : parameter command i = .ok (some value)) : i < bound ∧ value.Bounded bound := by
  rcases parameter_eq_ok hvalue with ⟨items, hget, hitem⟩ | ⟨s, c, hget, hat, rfl⟩
  · cases h.get? hget with
    | arr size below =>
      obtain ⟨hlt, rfl⟩ := List.getElem?_eq_some_iff.mp hitem
      exact ⟨Nat.lt_of_lt_of_le hlt size, below _ (List.getElem_mem hlt)⟩
  · cases h.get? hget with
    | str size =>
      obtain ⟨hlt, -⟩ := List.getElem?_eq_some_iff.mp hat
      exact ⟨Nat.lt_of_lt_of_le hlt size, .str (by rw [List.length_singleton]; omega)⟩

theorem sized_of_mem_commandUnits {container : List Step} {index : Nat} {command : Json}
    {units : List EventUnit} (h : commandUnits scripts container index command = .ok units)
    (hcontainer : ∀ s ∈ container, s.Below bound) (hindex : index < bound)
    (hcommand : command.Bounded bound) : ∀ u ∈ units, Sized bound u.2 := by
  intro u hu
  unfold commandUnits at h
  obtain ⟨location?, -, h⟩ := bind_eq_ok h
  cases location? with
  | none =>
    cases h
    cases hu
  | some found =>
    obtain ⟨i, location⟩ := found
    obtain ⟨value?, hparameter, h⟩ := bind_eq_ok h
    cases value? with
    | none =>
      cases h
      cases hu
    | some value =>
      cases h
      obtain ⟨hi, hvalue⟩ := bounded_of_parameter hcommand hparameter
      have hkind : EventTextKind.ofName EventTextKind.plain.name = .plain := by decide
      have hexpression : ScriptCall.Kind.ofName (ScriptCall.Kind.other []).name = .other [] := by
        decide
      refine sized_of_mem_parameterUnits ?_ hi hvalue hu
      exact ⟨hcontainer, below_natCast.mpr hindex,
        List.forall_mem_singleton.mpr (below_natCast.mpr hi), hkind, hexpression, nofun⟩

/-! ## The texts of a document -/

/-- The path to a command list has the steps of its container. -/
theorem mem_listPath? {shape : Shape} {c : List Step} (hc : c.length ≤ 2) {path : Json.Path}
    (h : listPath? shape c = some path) : ∀ s ∈ c, s ∈ path := by
  match c with
  | [] => nofun
  | [e] =>
    cases shape with
    | map => cases h
    | events =>
      cases h
      simp
  | [e, p] => cases shape <;> cases h <;> simp
  | _ :: _ :: _ :: _ => simp at hc

/-- **The addresses of an extraction are no larger than the source.** -/
theorem extract_sized {source : Text} {units : List EventUnit}
    (h : extract scripts source = .ok units) : ∀ u ∈ units, Sized source.length u.2 := by
  obtain ⟨shape, document, lists, hread, rfl, hlists⟩ := extract_eq_ok h
  obtain ⟨hreadable, rfl⟩ := document_of_read hread
  intro u hu
  obtain ⟨us, hus, hu⟩ := List.mem_flatten.mp hu
  obtain ⟨list, hmem, c, commands, blocks, rfl, rfl, hblocks⟩ := exists_of_forall₂ hlists hus
  obtain ⟨hlength, path, hpath, hcommands⟩ := commandLists_sound hreadable.wellKeyed hmem
  obtain ⟨hsteps, hlist⟩ := hreadable.bounded.valueAt hcommands
  obtain ⟨block, hblock, hu⟩ := List.mem_flatten.mp hu
  obtain ⟨⟨command, n⟩, hx, hunits⟩ := exists_of_forall₂ hblocks hblock
  obtain ⟨hn, hget⟩ := List.getElem?_eq_some_iff.mp (List.mk_mem_zipIdx_iff_getElem?.mp hx)
  cases hlist with
  | arr size below =>
    refine sized_of_mem_commandUnits hunits (fun s hs => hsteps s (mem_listPath? hlength hpath s hs))
      (Nat.lt_of_lt_of_le hn size) ?_ u hu
    exact below command (hget ▸ List.getElem_mem hn)

end EventData

end GameText
