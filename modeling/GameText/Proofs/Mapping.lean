import GameText.Mapping
import GameText.Proofs.EventData.Sizes
import GameText.Proofs.Json.Indented

/-!
# Addresses as values

An address is kept in files as an object of its fields. It is `Storable` if the object can be written
and the address read from it: its numbers are not too long, and its kinds are told by their names.
-/

namespace GameText

/-- A row is read back if each of its entries is. -/
theorem mapM_map_pure {m : Type → Type} [Monad m] [LawfulMonad m] {α β : Type} {f : β → m α}
    {g : α → β} {xs : List α} (h : ∀ x ∈ xs, f (g x) = pure x) : (xs.map g).mapM f = pure xs := by
  induction xs with
  | nil => rfl
  | cons x xs ih =>
    rw [List.map_cons, List.mapM_cons, h x List.mem_cons_self, pure_bind,
      ih fun y hy => h y (List.mem_cons_of_mem x hy), pure_bind]

namespace Address

open Json (Writable)

/-! ## Fields -/

/-- Fields under the names of a schema are complete. -/
theorem complete?_eq_some {schema : List (Text × Option Json)} {given own : AddressFields}
    (names : schema.map (·.1) = own.map (·.1))
    (found : ∀ field ∈ own, lookup? field.1 given = some field.2) :
    complete? schema given = some own := by
  induction schema generalizing own with
  | nil =>
    rw [List.map_nil, eq_comm, List.map_eq_nil_iff] at names
    rw [names]
    rfl
  | cons entry schema ih =>
    obtain ⟨name, fallback⟩ := entry
    cases own with
    | nil => cases names
    | cons field own =>
      obtain ⟨rfl, hrest⟩ := List.cons.inj names
      have hfound := found field List.mem_cons_self
      have htail := ih hrest fun f hf => found f (List.mem_cons_of_mem field hf)
      unfold complete? at htail ⊢
      simp only [List.mapM_cons, hfound, htail]
      rfl

theorem stepOfJson?_stepToJson (s : Json.Step) : stepOfJson? (stepToJson s) = some s := by
  cases s <;> rfl

theorem placeOfJson?_placeToJson (place : ParameterPlace) :
    placeOfJson? (placeToJson place) = some place := by
  cases place <;> rfl

theorem mapM_span? (spans : List (Int × Int)) :
    (spans.map fun (x, y) => Json.arr [.int x, .int y]).mapM span? = some spans :=
  mapM_map_pure fun _ _ => rfl

/-! ## Storable addresses -/

/-- The address can be written as a value, and is read from it. -/
structure Storable (format : Format) (a : Address) : Prop where
  read : ofMembers format false a.fields = .ok a
  writable : a.toJson.Writable

theorem storable_of_fields {format : Format} {schema : List (Text × Option Json)} {a : Address}
    (hschema : schema? format = some schema) (names : schema.map (·.1) = a.fields.map (·.1))
    (keys : (schema.map (·.1)).Nodup) (own : ofFields? format a.fields = some a)
    (below : ∀ field ∈ a.fields, field.2.Writable) : Storable format a where
  read := by
    have hcomplete : complete? schema a.fields = some a.fields :=
      complete?_eq_some names fun _ hfield => lookup?_of_mem (names ▸ keys) hfield
    rw [ofMembers, hschema]
    simp only [Bool.false_and, Bool.false_eq_true, if_false, hcomplete, own, Option.getD_some]
  writable := .obj (names ▸ keys) below

variable {bound : Nat} (small : bound < 10 ^ Json.maxDigits)

include small

theorem writable_int {n : Int} (h : n.natAbs ≤ bound) : (Json.int n).Writable :=
  .int (Nat.lt_of_le_of_lt h small)

theorem writable_step {s : Json.Step} (h : s.Below bound) : (stepToJson s).Writable := by
  cases s with
  | index i => exact writable_int small (Nat.le_of_lt (h i rfl))
  | key k => exact .str k

theorem writable_place {place : ParameterPlace} (h : ∀ s ∈ EventData.steps place, s.Below bound) :
    (placeToJson place).Writable := by
  cases place with
  | single i => exact writable_step small (h _ List.mem_cons_self)
  | element outer inner =>
    refine .arr (List.forall_mem_cons.mpr ⟨?_, List.forall_mem_singleton.mpr ?_⟩)
    · exact writable_step small (h (.index outer) List.mem_cons_self)
    · exact writable_step small (h (.index inner) (List.mem_cons_of_mem _ List.mem_cons_self))

theorem writable_spans {spans : List (Int × Int)}
    (h : ∀ span ∈ spans, span.1.natAbs ≤ bound ∧ span.2.natAbs ≤ bound) :
    (Json.arr (spans.map fun (x, y) => Json.arr [.int x, .int y])).Writable := by
  refine .arr (List.forall_mem_map.mpr fun span hspan => .arr ?_)
  obtain ⟨hstart, hstop⟩ := h span hspan
  exact List.forall_mem_cons.mpr ⟨writable_int small hstart,
    List.forall_mem_singleton.mpr (writable_int small hstop)⟩

theorem storable_event {a : EventAddress} (h : EventData.Sized bound a) :
    Storable .eventData (.event a) := by
  refine storable_of_fields rfl rfl (by decide) ?_ ?_
  · have hcontainer : (a.container.map stepToJson).mapM stepOfJson? = some a.container :=
      mapM_map_pure fun s _ => stepOfJson?_stepToJson s
    have hspans := mapM_span? a.spans
    have hlist : ∀ items, list? (.arr items) = some items := fun _ => rfl
    have hint : ∀ n, int? (.int n) = some n := fun _ => rfl
    simp only [fields, ofFields?, List.map_cons, List.map_nil, Option.bind_eq_bind,
      Option.bind_some, hlist, hint, Json.text?, hcontainer, hspans, placeOfJson?_placeToJson,
      h.kind, h.expression]
    rfl
  · have hcontainer : (Json.arr (a.container.map stepToJson)).Writable :=
      .arr (List.forall_mem_map.mpr fun s hs => writable_step small (h.container s hs))
    have hspans := writable_spans small h.spans
    have hcommand := writable_int small (Nat.le_of_lt (h.command _ rfl))
    have hplace := writable_place small h.place
    simp [fields, hcontainer, hspans, hcommand, hplace, Writable.str]

theorem storable_literal {a : LiteralAddress} (line : a.line.natAbs ≤ bound)
    (ordinal : a.ordinal.natAbs ≤ bound) : Storable .renpy (.literal a) :=
  storable_of_fields rfl rfl (by decide) rfl <| by
    simp [fields, writable_int small line, writable_int small ordinal, Writable.str]

theorem storable_prose {a : ProseAddress} (line : a.line.natAbs ≤ bound) :
    Storable .tyrano (.prose a) :=
  storable_of_fields rfl rfl (by decide) rfl <| by
    simp [fields, writable_int small line, Writable.str]

theorem storable_tagLine {a : TagLineAddress} (line : a.line.natAbs ≤ bound)
    (ordinal : a.ordinal.natAbs ≤ bound) (kind : .ofName a.kind.name = a.kind) :
    Storable .kag (.tagLine a) := by
  refine storable_of_fields rfl rfl (by decide) ?_ ?_
  · simp [ofFields?, fields, int?, Json.int, Json.text?, kind]
  · simp [fields, writable_int small line, writable_int small ordinal, Writable.str]

end Address

end GameText
