import GameText.Proofs.EventData.Extraction
import GameText.Proofs.Json.Outline

/-!
# Addresses taken to another document

An address says where its text stood when it was extracted. In another document the same steps may
lead to something else or nowhere, but what the addresses of one extraction are to each other does
not depend on the document: no two of them lead to places of which one contains the other, unless
they are of values of one script call (`Detached`). `Regular` is what one address is by itself: its
indices are natural numbers, and the spans of a value of a script call are as long as the recorded
literal and share no character. `extract_detached` proves both of every extraction.
-/

namespace GameText

namespace EventData

open Json (Path Step Natural valueAt? child?)

/-! ## One address -/

/-- The address of a value of a script call: a whole parameter, with spans that share no character
and are as long as the literal. -/
structure ScriptValue (a : EventAddress) : Prop where
  single : ∃ i, a.parameter = .single i
  measured : ∀ span ∈ a.spans,
    0 ≤ span.1 ∧ span.1 < span.2 ∧ (a.written.length : Int) = span.2 - span.1
  apart : a.spans.Pairwise fun x y => x.2 ≤ y.1 ∨ y.2 ≤ x.1

/-- An address as an extraction gives it. -/
structure Regular (a : EventAddress) : Prop where
  container : a.container.length ≤ 2
  natural : Natural (a.container ++ .index a.command :: steps a.parameter)
  kind : a.kind = .plain ∨ a.kind = .embedded ∧ ScriptValue a

/-- The path of the parameters has the indices of the container and of the command. -/
theorem natural_parametersPath? {shape : Shape} {c : List Step} {n : Int} {base : Path}
    (hc : c.length ≤ 2) (hbase : parametersPath? shape c (.index n) = some base) :
    Natural base ↔ Natural c ∧ 0 ≤ n := by
  match c with
  | [] => cases shape <;> cases hbase
  | [e] =>
    cases shape with
    | map => cases hbase
    | events =>
      cases hbase
      simp [Json.natural_cons, Json.natural_nil]
  | [e, p] => cases shape <;> cases hbase <;> simp [Json.natural_cons, Json.natural_nil, and_assoc]
  | _ :: _ :: _ :: _ => simp at hc

theorem Regular.natural_base {a : EventAddress} (h : Regular a) {shape : Shape} {base : Path}
    (hbase : parametersPath? shape a.container (.index a.command) = some base) :
    Natural base ∧ Natural (steps a.parameter) := by
  obtain ⟨hcontainer, hrest⟩ := Json.natural_append.mp h.natural
  obtain ⟨hcommand, hsteps⟩ := Json.natural_cons.mp hrest
  exact ⟨(natural_parametersPath? h.container hbase).mpr ⟨hcontainer, hcommand _ rfl⟩, hsteps⟩

/-! ## Two addresses -/

/-- In no document does one of two addresses lead to a place that contains the other's, unless they
are of values of one script call. -/
def Detached (a b : EventAddress) : Prop :=
  ∀ shape path path', target? shape a = some path → target? shape b = some path' →
    path <+: path' ∨ path' <+: path → Companions a b

theorem Detached.symm {a b : EventAddress} (h : Detached a b) : Detached b a :=
  fun shape path path' hb ha hor => (h shape path' path ha hb hor.symm).symm

theorem Detached.independent {a b : EventAddress} (h : Detached a b) (shape : Shape) :
    Independent shape a b :=
  fun path ha hb => h shape path path ha hb (Or.inl (List.prefix_refl path))

theorem exists_of_target? {shape : Shape} {a : EventAddress} {path : Path}
    (h : target? shape a = some path) : ∃ l, listPath? shape a.container = some l ∧
      path = l ++ (.index a.command :: .key "parameters" :: steps a.parameter) := by
  rw [target?, parametersPath?_eq, Option.map_map] at h
  obtain ⟨l, hl, rfl⟩ := Option.map_eq_some_iff.mp h
  refine ⟨l, hl, ?_⟩
  rw [Function.comp_apply, List.append_assoc]
  rfl

/-- A place that contains another is of the same command. -/
theorem of_target_prefix {shape : Shape} {a b : EventAddress} (ha : a.container.length ≤ 2)
    (hb : b.container.length ≤ 2) {path path' : Path} (hpath : target? shape a = some path)
    (hpath' : target? shape b = some path') (h : path <+: path') :
    a.container = b.container ∧ a.command = b.command ∧ steps a.parameter <+: steps b.parameter := by
  obtain ⟨l, hl, rfl⟩ := exists_of_target? hpath
  obtain ⟨l', hl', rfl⟩ := exists_of_target? hpath'
  obtain ⟨rest, hrest⟩ := h
  rw [List.append_assoc] at hrest
  obtain ⟨hcontainer, hsame⟩ := listPath?_injective ha hb hl hl' hrest
  obtain ⟨hcommand, hbelow⟩ := List.cons.inj hsame
  exact ⟨hcontainer, Step.index.inj hcommand, rest, (List.cons.inj hbelow).2⟩

/-- No text stands at the parameters of a command as a whole. -/
theorem not_target_prefix_base {shape : Shape} {a : EventAddress} (ha : a.container.length ≤ 2)
    {path : Path} (hpath : target? shape a = some path) {c : List Step} {n : Int} {base : Path}
    (hc : c.length ≤ 2) (hbase : parametersPath? shape c (.index n) = some base) :
    ¬ path <+: base := by
  rintro ⟨rest, hrest⟩
  obtain ⟨l, hl, rfl⟩ := exists_of_target? hpath
  rw [parametersPath?_eq] at hbase
  obtain ⟨l', hl', rfl⟩ := Option.map_eq_some_iff.mp hbase
  rw [List.append_assoc] at hrest
  have hsame := (listPath?_injective ha hc hl hl' hrest).2
  have hlength := congrArg List.length hsame
  have hsteps : 0 < (steps a.parameter).length := by cases a.parameter <;> simp [steps]
  simp only [List.cons_append, List.length_cons, List.length_append, List.length_nil] at hlength
  omega

/-! ## What an extraction gives -/

/-- A text of a parameter stands there as a whole, or in an array there. -/
theorem place_of_mem_parameterUnits {scripts : Bool} {address : EventAddress} {i : Nat}
    {location : Location} {value : Json} {u : EventUnit}
    (h : u ∈ parameterUnits scripts address i location value) :
    u.2.parameter = address.parameter ∨
      ∃ (k : Nat) (choices : List Json), u.2.parameter = .element i k ∧ value = .arr choices := by
  unfold parameterUnits at h
  split at h
  next s =>
    unfold dialogueUnit at h
    split at h
    next => exact Or.inl (by rw [List.mem_singleton.mp h])
    next => cases h
  next s =>
    split at h
    next => exact Or.inl (by rw [List.mem_singleton.mp h])
    next => cases h
  next choices =>
    obtain ⟨⟨choice, k⟩, -, hchoice⟩ := List.mem_filterMap.mp h
    cases choice with
    | str s =>
      obtain ⟨-, hs⟩ := Option.ite_none_right_eq_some.mp hchoice
      cases hs
      exact Or.inr ⟨k, choices, rfl, rfl⟩
    | _ => cases hchoice
  next s =>
    split at h
    next =>
      obtain ⟨cu, -, rfl⟩ := List.mem_map.mp h
      exact Or.inl rfl
    next => cases h
  next => cases h

/-- An address among the texts of a command: a whole parameter, or an element of an array in an
array of parameters. -/
inductive Site (root : Json) (base : Path) : ParameterPlace → Prop
  | single (i : Nat) : Site root base (.single i)
  | element (i k : Nat) {parameters choices : List Json}
      (command : root.valueAt? base = some (.arr parameters))
      (parameter : parameters[i]? = some (.arr choices)) : Site root base (.element i k)

theorem site_of_mem_commandUnits {scripts : Bool} {root command : Json} {container : List Step}
    {index : Nat} {units : List EventUnit} {path : Path}
    (h : commandUnits scripts container index command = .ok units)
    (hcommand : root.valueAt? path = some command) {u : EventUnit} (hu : u ∈ units) :
    Site root (path ++ [.key "parameters"]) u.2.parameter := by
  unfold commandUnits at h
  obtain ⟨location?, -, h⟩ := bind_eq_ok h
  cases location? with
  | none =>
    cases h
    cases hu
  | some found =>
    obtain ⟨i, location⟩ := found
    obtain ⟨value?, hvalue, h⟩ := bind_eq_ok h
    cases value? with
    | none =>
      cases h
      cases hu
    | some value =>
      cases h
      rcases place_of_mem_parameterUnits hu with hplace | ⟨k, choices, hplace, rfl⟩
      · rw [hplace]
        exact .single i
      · rw [hplace]
        rcases parameter_eq_ok hvalue with ⟨items, hget, hitem⟩ | ⟨s, c, -, -, hstr⟩
        · refine .element i k ?_ hitem
          rw [Json.valueAt?_append, hcommand, Option.bind_some, valueAt?, child?, hget]
          rfl
        · cases hstr

/-- Where an extracted address points, in the document that it was extracted from. -/
theorem exists_site_of_mem_extract {scripts : Bool} {source : Text} {units : List EventUnit}
    (h : extract scripts source = .ok units) {shape : Shape} {document : Json.Document}
    (hread : read source = .ok (shape, document)) {u : EventUnit} (hu : u ∈ units) :
    u.2.container.length ≤ 2 ∧ ∃ base,
      parametersPath? shape u.2.container (.index u.2.command) = some base ∧
        Site document.value base u.2.parameter := by
  obtain ⟨shape', document', lists, hread', rfl, hlists⟩ := extract_eq_ok h
  rw [hread] at hread'
  cases hread'
  have keyed : document.value.WellKeyed := (document_of_read hread).1.wellKeyed
  obtain ⟨us, hus, hu⟩ := List.mem_flatten.mp hu
  obtain ⟨list, hmem, c, cs, blocks, rfl, rfl, hblocks⟩ := exists_of_forall₂ hlists hus
  obtain ⟨hlength, l, hl, hcommands⟩ := commandLists_sound keyed hmem
  have hsound := listSound hl hcommands hblocks
  obtain ⟨block, hblock, hu⟩ := List.mem_flatten.mp hu
  obtain ⟨⟨command, n⟩, hx, hunits⟩ := exists_of_forall₂ hblocks hblock
  have hget := List.mk_mem_zipIdx_iff_getElem?.mp hx
  have hpos : ¬ (n : Int) < 0 := by omega
  have hcommand : document.value.valueAt? (l ++ [.index n]) = some command := by
    rw [Json.valueAt?_append, hcommands, Option.bind_some, valueAt?, child?, if_neg hpos,
      Int.toNat_natCast, hget]
    rfl
  have hat : parametersPath? shape c (.index n) =
      some (l ++ [.index n] ++ [.key "parameters".toList]) := by
    rw [parametersPath?_eq, hl]
    simp
  obtain ⟨hcontainer, hindex⟩ := (commandSound hunits hat hcommand).address u hu
  rw [hcontainer, hindex]
  exact ⟨hlength, _, hat, site_of_mem_commandUnits hunits hcommand hu⟩

theorem Site.natural {root : Json} {base : Path} {place : ParameterPlace}
    (h : Site root base place) : Natural (steps place) := by
  cases h <;> simp [steps, Json.natural_cons, Json.natural_nil]

/-- The value of a script call has spans as long as its literal. -/
theorem scriptValue_embeddedAddress {a : EventAddress} {source : Text} {u : ScriptCall.CallUnit}
    {i : Int} (place : a.parameter = .single i) (value : u ∈ ScriptCall.units source) :
    ScriptValue (embeddedAddress a u) where
  single := ⟨i, place⟩
  measured := by
    intro span hspan
    obtain ⟨x, hx, rfl⟩ := List.mem_map.mp hspan
    have hsound := ScriptCall.units_sound source
    have hwithin := hsound.within u value x hx
    have hlength := congrArg List.length (hsound.holds u value x hx)
    have hlt := hwithin.start_lt_stop
    have hle := hwithin.stop_le
    rw [ScriptCall.Span.of, List.length_drop, List.length_take] at hlength
    show 0 ≤ (x.start : Int) ∧ (x.start : Int) < x.stop ∧ (u.written.length : Int) = x.stop - x.start
    omega
  apart := by
    have hapart := (List.pairwise_flatMap.mp (ScriptCall.units_sound source).apart).1 u value
    refine List.pairwise_map.mpr (hapart.imp ?_)
    intro x y h
    exact h.imp Int.ofNat_le.mpr Int.ofNat_le.mpr

theorem regular_of_placed {shape : Shape} {root : Json} {u : EventUnit}
    (placed : Placed shape root u) (hlength : u.2.container.length ≤ 2) {base : Path}
    (hbase : parametersPath? shape u.2.container (.index u.2.command) = some base)
    (site : Site root base u.2.parameter) : Regular u.2 := by
  have hnatural : Natural base → Natural (u.2.container ++ .index u.2.command :: steps u.2.parameter) := by
    intro h
    obtain ⟨hcontainer, hcommand⟩ := (natural_parametersPath? hlength hbase).mp h
    refine Json.natural_append.mpr ⟨hcontainer, Json.natural_cons.mpr ⟨?_, site.natural⟩⟩
    rintro i hi
    cases hi
    exact hcommand
  cases placed with
  | plain kind path command =>
    obtain rfl := Option.some.inj (hbase.symm.trans path)
    exact ⟨hlength, hnatural (Json.natural_of_valueAt? command), Or.inl kind⟩
  | embedded place path command parameter value =>
    obtain rfl := Option.some.inj (hbase.symm.trans path)
    exact ⟨hlength, hnatural (Json.natural_of_valueAt? command),
      Or.inr ⟨rfl, scriptValue_embeddedAddress place value⟩⟩
  | unreached kind path command =>
    obtain rfl := Option.some.inj (hbase.symm.trans path)
    exact ⟨hlength, hnatural (Json.natural_of_valueAt? command), Or.inl kind⟩

/-- What stands at a whole parameter with a text is a string, so no text stands inside it. -/
theorem Placed.not_array {shape : Shape} {root : Json} {u : EventUnit} (placed : Placed shape root u)
    {base : Path} (hbase : parametersPath? shape u.2.container (.index u.2.command) = some base)
    {i : Nat} (place : u.2.parameter = .single i) {parameters choices : List Json}
    (command : root.valueAt? base = some (.arr parameters)) :
    parameters[i]? ≠ some (.arr choices) := by
  intro harray
  have hchild : (Json.arr parameters).valueAt? [.index (i : Int)] = some (.arr choices) := by
    have hpos : ¬ (i : Int) < 0 := by omega
    simp [valueAt?, child?, hpos, harray]
  cases placed with
  | plain kind path command' parameter =>
    obtain rfl := Option.some.inj (hbase.symm.trans path)
    cases command.symm.trans command'
    dsimp only at place
    rw [place, steps, hchild] at parameter
    cases parameter
  | embedded place' path command' parameter =>
    obtain rfl := Option.some.inj (hbase.symm.trans path)
    cases command.symm.trans command'
    cases place'.symm.trans place
    rw [hchild] at parameter
    cases parameter
  | unreached kind path command' =>
    obtain rfl := Option.some.inj (hbase.symm.trans path)
    cases command.symm.trans command'

/-- If one of two places of an extraction contains the other in some document, they are one place. -/
theorem steps_eq_of_contained {shape : Shape} {root : Json} {u v : EventUnit}
    (placed : Placed shape root u) {base : Path}
    (hbase : parametersPath? shape u.2.container (.index u.2.command) = some base)
    (site : Site root base u.2.parameter) (site' : Site root base v.2.parameter)
    (h : steps u.2.parameter <+: steps v.2.parameter) :
    steps u.2.parameter = steps v.2.parameter := by
  cases hplace : u.2.parameter with
  | element i k =>
    rw [hplace] at h
    cases hplace' : v.2.parameter with
    | element i' k' =>
      rw [hplace'] at h
      exact h.eq_of_length rfl
    | single j =>
      rw [hplace'] at h
      exact absurd h.length_le (by simp [steps])
  | single i =>
    rw [hplace] at h site
    cases hplace' : v.2.parameter with
    | single j =>
      rw [hplace'] at h
      exact h.eq_of_length rfl
    | element j k =>
      rw [hplace'] at h site'
      obtain ⟨hij, -⟩ := List.cons_prefix_cons.mp h
      cases hij
      cases site' with
      | element j k command parameter =>
        exact absurd parameter (placed.not_array hbase hplace command)

theorem detached_of_placed {shape : Shape} {root : Json} {u v : EventUnit}
    (placed : Placed shape root u) (placed' : Placed shape root v)
    (hlength : u.2.container.length ≤ 2) (hlength' : v.2.container.length ≤ 2)
    {base base' : Path}
    (hbase : parametersPath? shape u.2.container (.index u.2.command) = some base)
    (hbase' : parametersPath? shape v.2.container (.index v.2.command) = some base')
    (site : Site root base u.2.parameter) (site' : Site root base' v.2.parameter)
    (independent : Independent shape u.2 v.2) : Detached u.2 v.2 := by
  have hsame : u.2.container = v.2.container → u.2.command = v.2.command →
      steps u.2.parameter = steps v.2.parameter → Companions u.2 v.2 := by
    intro hcontainer hcommand hsteps
    refine independent (base ++ steps u.2.parameter) (by rw [target?, hbase]; rfl) ?_
    rw [target?, ← hcontainer, ← hcommand, ← hsteps, hbase]
    rfl
  intro shape' path path' hpath hpath' hor
  rcases hor with h | h
  · obtain ⟨hcontainer, hcommand, hprefix⟩ := of_target_prefix hlength hlength' hpath hpath' h
    obtain rfl : base = base' := by
      rw [← hcontainer, ← hcommand, hbase] at hbase'
      exact Option.some.inj hbase'
    exact hsame hcontainer hcommand (steps_eq_of_contained placed hbase site site' hprefix)
  · obtain ⟨hcontainer, hcommand, hprefix⟩ := of_target_prefix hlength' hlength hpath' hpath h
    obtain rfl : base' = base := by
      rw [← hcontainer, ← hcommand, hbase'] at hbase
      exact Option.some.inj hbase
    exact hsame hcontainer.symm hcommand.symm
      (steps_eq_of_contained placed' hbase' site' site hprefix).symm

/-- **The addresses of an extraction are regular and detached**, whatever document they are taken
to. -/
theorem extract_detached {scripts : Bool} {source : Text} {units : List EventUnit}
    (h : extract scripts source = .ok units) :
    (∀ u ∈ units, Regular u.2) ∧ units.Pairwise fun u v => Detached u.2 v.2 := by
  obtain ⟨shape, document, hread, placed, independent⟩ := extract_sound h
  constructor
  · intro u hu
    obtain ⟨hlength, base, hbase, site⟩ := exists_site_of_mem_extract h hread hu
    exact regular_of_placed (placed u hu) hlength hbase site
  · refine independent.imp_of_mem ?_
    intro u v hu hv hind
    obtain ⟨hlength, base, hbase, site⟩ := exists_site_of_mem_extract h hread hu
    obtain ⟨hlength', base', hbase', site'⟩ := exists_site_of_mem_extract h hread hv
    exact detached_of_placed (placed u hu) (placed v hv) hlength hlength' hbase hbase' site site' hind

end EventData

end GameText
