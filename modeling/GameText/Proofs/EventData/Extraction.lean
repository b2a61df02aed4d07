import GameText.Proofs.EventData.Address
import GameText.Proofs.Json.SpliceValue

/-!
# Extraction places its texts

Every text that extraction gives is `Placed`, and the addresses of any two are `Independent`
(`extract_sound`): the containers of the command lists are all different, within a list the commands
have different indices, and within a command the texts stand at different parameters or are values
of one script call.
-/

namespace GameText

namespace EventData

open Json (Path Step valueAt? child?)

/-! ## The texts of a parameter -/

theorem splitSpeaker_append (s : Text) :
    (Classify.splitSpeaker s).1 ++ (Classify.splitSpeaker s).2 = s := by
  cases s with
  | nil => rfl
  | cons c cs =>
    simp only [Classify.splitSpeaker]
    split
    next =>
      split
      next d rest hname =>
        split
        next => rfl
        next =>
          have hcs : cs.takeWhile Classify.isSpeakerChar ++ '.' :: d :: rest = cs := by
            rw [← hname, List.takeWhile_append_dropWhile]
          simp [hcs]
      next => rfl
    next => rfl

/-- What a text of a parameter is: a string in it, or a value of a script call. -/
inductive FromParameter (address : EventAddress) (i : Nat) (value : Json) : EventUnit → Prop
  | plain {text : Text} {a : EventAddress} {below : Path} (container : a.container = address.container)
      (command : a.command = address.command) (kind : a.kind = .plain)
      (place : steps a.parameter = .index i :: below)
      (holds : value.valueAt? below = some (.str (a.speaker ++ text))) :
      FromParameter address i value (text, a)
  | embedded {source : Text} {u : ScriptCall.CallUnit} (holds : value = .str source)
      (mem : u ∈ ScriptCall.units source) :
      FromParameter address i value (u.text, embeddedAddress address u)

variable {scripts : Bool} {address : EventAddress} {i : Nat}

theorem fromParameter_of_mem (hkind : address.kind = .plain) (hspeaker : address.speaker = [])
    (hplace : address.parameter = .single i) {location : Location} {value : Json} {u : EventUnit}
    (h : u ∈ parameterUnits scripts address i location value) : FromParameter address i value u := by
  unfold parameterUnits at h
  split at h
  next s =>
    unfold dialogueUnit at h
    split at h
    next =>
      obtain rfl := List.mem_singleton.mp h
      refine .plain rfl rfl hkind (by rw [hplace]; rfl) ?_
      exact congrArg (fun t => some (Json.str t)) (splitSpeaker_append s).symm
    next => cases h
  next s =>
    split at h
    next =>
      obtain rfl := List.mem_singleton.mp h
      exact .plain rfl rfl hkind (by rw [hplace]; rfl) (by rw [hspeaker]; rfl)
    next => cases h
  next choices =>
    obtain ⟨⟨choice, k⟩, hmem, hchoice⟩ := List.mem_filterMap.mp h
    have hget := List.mk_mem_zipIdx_iff_getElem?.mp hmem
    cases choice with
    | str s =>
      obtain ⟨-, hs⟩ := Option.ite_none_right_eq_some.mp hchoice
      cases hs
      refine .plain rfl rfl hkind rfl ?_
      have hpos : ¬ (k : Int) < 0 := by omega
      simp [valueAt?, child?, hpos, hget, hspeaker]
    | _ => cases hchoice
  next s =>
    split at h
    next =>
      obtain ⟨cu, hcu, rfl⟩ := List.mem_map.mp h
      exact .embedded rfl hcu
    next => cases h
  next => cases h

theorem independent_of_place_ne {shape : Shape} {a b : EventAddress}
    (container : a.container = b.container) (command : a.command = b.command)
    (place : steps a.parameter ≠ steps b.parameter) : Independent shape a b := by
  intro path ha hb
  rw [target?, container, command] at ha
  obtain ⟨base, hbase, rfl⟩ := Option.map_eq_some_iff.mp ha
  rw [target?, hbase, Option.map_some, Option.some_inj, List.append_cancel_left_eq] at hb
  exact absurd hb.symm place

theorem units_apart (source : Text) :
    (ScriptCall.units source).Pairwise fun u v =>
      ∀ x ∈ u.spans, ∀ y ∈ v.spans, ScriptCall.Span.Apart x y :=
  (List.pairwise_flatMap.mp (ScriptCall.units_sound source).apart).2

theorem parameterUnits_independent (shape : Shape) (location : Location) (value : Json) :
    (parameterUnits scripts address i location value).Pairwise fun u v =>
      Independent shape u.2 v.2 := by
  unfold parameterUnits
  split
  next s =>
    unfold dialogueUnit
    split
    next => exact List.pairwise_singleton _ _
    next => exact List.Pairwise.nil
  next s =>
    split
    next => exact List.pairwise_singleton _ _
    next => exact List.Pairwise.nil
  next choices =>
    refine List.pairwise_filterMap.mpr ((pairwise_zipIdx choices 0).imp ?_)
    rintro ⟨choice, k⟩ ⟨choice', k'⟩ hlt u hu v hv
    cases choice with
    | str s =>
      cases choice' with
      | str s' =>
        obtain ⟨-, hu⟩ := Option.ite_none_right_eq_some.mp hu
        obtain ⟨-, hv⟩ := Option.ite_none_right_eq_some.mp hv
        cases hu
        cases hv
        have hne : k ≠ k' := Nat.ne_of_lt hlt
        refine independent_of_place_ne rfl rfl fun h => hne ?_
        simp [steps] at h
        omega
      | _ => cases hv
    | _ => cases hu
  next s =>
    split
    next =>
      refine List.pairwise_map.mpr ((units_apart s).imp ?_)
      intro u v hapart path _ _
      refine ⟨⟨rfl, rfl⟩, rfl, rfl, rfl, ?_⟩
      intro x hx y hy
      obtain ⟨x', hx', rfl⟩ := List.mem_map.mp hx
      obtain ⟨y', hy', rfl⟩ := List.mem_map.mp hy
      exact (hapart x' hx' y' hy').imp Int.ofNat_le.mpr Int.ofNat_le.mpr
    next => exact List.Pairwise.nil
  next => exact List.Pairwise.nil

/-! ## The texts of a command -/

/-- The texts of a command belong to it, stand in its parameters, and are independent. -/
structure CommandSound (shape : Shape) (root : Json) (container : List Step) (index : Nat)
    (units : List EventUnit) : Prop where
  address : ∀ u ∈ units, u.2.container = container ∧ u.2.command = index
  placed : ∀ u ∈ units, Placed shape root u
  independent : units.Pairwise fun u v => Independent shape u.2 v.2

/-- A single character holds no values of a script call. -/
theorem units_singleton (c : Char) : ScriptCall.units [c] = [] := by
  have hliterals : ScriptCall.literals [c] = [] := by
    simp [ScriptCall.literals, ScriptCall.literalsFrom, ScriptCall.close?]
  have harguments : (ScriptCall.pluginArguments [c] []).1 = [] := by
    unfold ScriptCall.pluginArguments
    split
    next => rfl
    next =>
      split
      next => rfl
      next => rfl
  have hclaimed : ScriptCall.claimed [c] = [] := by
    simp [ScriptCall.claimed, hliterals, harguments, ScriptCall.chains, ScriptCall.chainsFrom]
  simp [ScriptCall.units, hclaimed]

/-- A value that a command has as a parameter is an element of an array of parameters, or a
character of a string in its place. -/
theorem parameter_eq_ok {command value : Json} {i : Nat}
    (h : parameter command i = .ok (some value)) :
    (∃ items, command.get? "parameters" = some (.arr items) ∧ items[i]? = some value) ∨
      ∃ s c, command.get? "parameters" = some (.str s) ∧ s[i]? = some c ∧ value = .str [c] := by
  unfold parameter at h
  split at h
  next items hget => exact Or.inl ⟨items, hget, Except.ok.inj h⟩
  next s hget =>
    obtain ⟨c, hat, hc⟩ := Option.map_eq_some_iff.mp (Except.ok.inj h)
    exact Or.inr ⟨s, c, hget, hat, hc.symm⟩
  next =>
    split at h
    next => cases h
    next => cases h
  next =>
    split at h
    next => cases h
    next => cases h
  next => cases h
  next => cases h

theorem commandSound {scripts : Bool} {shape : Shape} {root command : Json} {container : List Step}
    {index : Nat} {units : List EventUnit} {path : Path}
    (h : commandUnits scripts container index command = .ok units)
    (hpath : parametersPath? shape container (.index index) = some (path ++ [.key "parameters"]))
    (hcommand : root.valueAt? path = some command) :
    CommandSound shape root container index units := by
  unfold commandUnits at h
  obtain ⟨location?, -, h⟩ := bind_eq_ok h
  cases location? with
  | none =>
    cases h
    exact ⟨fun _ hu => (nomatch hu), fun _ hu => (nomatch hu), .nil⟩
  | some found =>
    obtain ⟨i, location⟩ := found
    obtain ⟨value?, hvalue, h⟩ := bind_eq_ok h
    cases value? with
    | none =>
      cases h
      exact ⟨fun _ hu => (nomatch hu), fun _ hu => (nomatch hu), .nil⟩
    | some value =>
      cases h
      have hbase : ∀ {v : Json}, command.get? "parameters" = some v →
          root.valueAt? (path ++ [.key "parameters".toList]) = some v := by
        intro v hv
        rw [Json.valueAt?_append, hcommand, Option.bind_some, valueAt?, child?, hv]
        rfl
      refine ⟨?_, ?_, parameterUnits_independent shape location value⟩
      · intro u hu
        cases fromParameter_of_mem rfl rfl rfl hu with
        | plain hcontainer hindex => exact ⟨hcontainer, hindex⟩
        | embedded => exact ⟨rfl, rfl⟩
      · intro u hu
        cases fromParameter_of_mem rfl rfl rfl hu with
        | @plain text a below hcontainer hindex hkind hplace hholds =>
          have hat : parametersPath? shape a.container (.index a.command) =
              some (path ++ [.key "parameters".toList]) := by
            rw [hcontainer, hindex]
            exact hpath
          rcases parameter_eq_ok hvalue with ⟨items, hget, hitem⟩ | ⟨s, c, hget, -⟩
          · refine .plain hkind hat (hbase hget) ?_
            have hpos : ¬ (i : Int) < 0 := by omega
            rw [hplace]
            simp [valueAt?, child?, hpos, hitem, hholds]
          · exact .unreached hkind hat (hbase hget)
        | embedded hholds hmem =>
          rcases parameter_eq_ok hvalue with ⟨items, hget, hitem⟩ | ⟨s, c, -, -, rfl⟩
          · have hpos : ¬ (i : Int) < 0 := by omega
            exact .embedded rfl hpath (hbase hget)
              (by simp [valueAt?, child?, hpos, hitem, hholds]) hmem
          · cases hholds
            rw [units_singleton] at hmem
            cases hmem

/-! ## Command lists -/

/-- Two command lists are those of different containers. -/
def Different (a b : CommandList) : Prop :=
  ∀ c cs c' cs', a = .ok (c, cs) → b = .ok (c', cs') → c ≠ c'

theorem commands?_eq_some {v : Json} {commands : List Json} (h : commands? v = some commands) :
    v.valueAt? [.key "list"] = some (.arr commands) := by
  unfold commands? at h
  split at h
  next hget =>
    cases h
    rw [valueAt?, child?, hget]
    rfl
  next => cases h

theorem mem_pageLists {event : Step} {v : Json} {c : List Step} {cs : List Json}
    (h : .ok (c, cs) ∈ pageLists event v) : ∃ j : Nat, c = [event, .index j] ∧
      v.valueAt? [.key "pages", .index j, .key "list"] = some (.arr cs) := by
  unfold pageLists at h
  split at h
  next pages hget =>
    obtain ⟨⟨page, j⟩, hmem, hpage⟩ := List.mem_filterMap.mp h
    obtain ⟨commands, hcommands, heq⟩ := Option.map_eq_some_iff.mp hpage
    cases heq
    have hj := List.mk_mem_zipIdx_iff_getElem?.mp hmem
    have hpos : ¬ (j : Int) < 0 := by omega
    refine ⟨j, rfl, ?_⟩
    rw [valueAt?, child?, hget, Option.bind_some, valueAt?, child?, if_neg hpos, Int.toNat_natCast, hj]
    exact commands?_eq_some hcommands
  next =>
    split at h
    next => cases h
    next => cases List.mem_singleton.mp h
  next => cases List.mem_singleton.mp h
  next => cases h

theorem pageLists_different (event : Step) (v : Json) :
    (pageLists event v).Pairwise Different := by
  unfold pageLists
  split
  next pages _ =>
    refine List.pairwise_filterMap.mpr ((pairwise_zipIdx pages 0).imp ?_)
    rintro ⟨page, j⟩ ⟨page', j'⟩ hlt l hl l' hl' c cs c' cs' rfl rfl
    obtain ⟨_, _, heq⟩ := Option.map_eq_some_iff.mp hl
    obtain ⟨_, _, heq'⟩ := Option.map_eq_some_iff.mp hl'
    cases heq
    cases heq'
    intro h
    have hne : j ≠ j' := Nat.ne_of_lt hlt
    simp at h
    omega
  next =>
    split
    next => exact List.Pairwise.nil
    next => exact List.pairwise_singleton _ _
  next => exact List.pairwise_singleton _ _
  next => exact List.Pairwise.nil

/-- Command lists of different events are different. -/
theorem different_of_event_ne {e e' : Step} (hne : e ≠ e') {ls ls' : List CommandList}
    (h : ∀ c cs, .ok (c, cs) ∈ ls → c.head? = some e)
    (h' : ∀ c cs, .ok (c, cs) ∈ ls' → c.head? = some e') : ∀ a ∈ ls, ∀ b ∈ ls', Different a b := by
  rintro a ha b hb c cs c' cs' rfl rfl rfl
  exact hne (Option.some.inj ((h c cs ha).symm.trans (h' c cs' hb)))

theorem head?_of_mem_pageLists {event : Step} {v : Json} :
    ∀ c cs, .ok (c, cs) ∈ pageLists event v → c.head? = some event := by
  intro c cs h
  obtain ⟨j, rfl, -⟩ := mem_pageLists h
  rfl

theorem index_ne {i i' : Nat} (h : i < i') : Step.index (i : Int) ≠ .index (i' : Int) := by
  intro heq
  have := Step.index.inj heq
  omega

theorem head?_of_mem_itemLists {i : Nat} {item : Json} : ∀ c cs,
    .ok (c, cs) ∈ ((commands? item).map fun commands =>
        (.ok ([.index i], commands) : CommandList)).toList ++ pageLists (.index i) item →
      c.head? = some (.index i) := by
  intro c cs h
  rcases List.mem_append.mp h with h | h
  · obtain ⟨commands, -, heq⟩ := Option.map_eq_some_iff.mp (Option.mem_toList.mp h)
    cases heq
    rfl
  · exact head?_of_mem_pageLists c cs h

theorem commandLists_different {shape : Shape} {root : Json} (keyed : root.WellKeyed) :
    (commandLists shape root).Pairwise Different := by
  unfold commandLists
  split
  next items =>
    refine List.pairwise_flatMap.mpr ⟨?_, (pairwise_zipIdx items 0).imp ?_⟩
    · rintro ⟨item, i⟩ -
      refine List.pairwise_append.mpr ⟨?_, pageLists_different _ _, ?_⟩
      · cases commands? item with
        | none => exact List.Pairwise.nil
        | some commands => exact List.pairwise_singleton _ _
      · rintro a ha b hb c cs c' cs' rfl rfl rfl
        obtain ⟨commands, -, heq⟩ := Option.map_eq_some_iff.mp (Option.mem_toList.mp ha)
        obtain ⟨j, hj, -⟩ := mem_pageLists hb
        cases heq
        cases hj
    · rintro ⟨item, i⟩ ⟨item', i'⟩ hlt
      exact different_of_event_ne (index_ne hlt) head?_of_mem_itemLists head?_of_mem_itemLists
  next root =>
    split
    next events hget =>
      refine List.pairwise_flatMap.mpr ⟨fun a _ => pageLists_different _ _,
        (pairwise_zipIdx events 0).imp ?_⟩
      rintro ⟨event, i⟩ ⟨event', i'⟩ hlt
      exact different_of_event_ne (index_ne hlt) head?_of_mem_pageLists head?_of_mem_pageLists
    next events hget =>
      have hkeyed : (Json.obj events).WellKeyed :=
        keyed.child (s := .key "events".toList) hget
      cases hkeyed with
      | obj keys _ =>
        refine List.pairwise_flatMap.mpr ⟨fun a _ => pageLists_different _ _,
          (List.pairwise_map.mp keys).imp ?_⟩
        intro a b hne
        exact different_of_event_ne (fun h => hne (Step.key.inj h)) head?_of_mem_pageLists
          head?_of_mem_pageLists
    next => exact List.Pairwise.nil
  next => exact List.Pairwise.nil

theorem commandLists_sound {shape : Shape} {root : Json} {c : List Step} {cs : List Json}
    (keyed : root.WellKeyed) (h : .ok (c, cs) ∈ commandLists shape root) :
    c.length ≤ 2 ∧ ∃ path, listPath? shape c = some path ∧ root.valueAt? path = some (.arr cs) := by
  unfold commandLists at h
  split at h
  next items =>
    obtain ⟨⟨item, i⟩, hmem, hlist⟩ := List.mem_flatMap.mp h
    have hitem := List.mk_mem_zipIdx_iff_getElem?.mp hmem
    have hpos : ¬ (i : Int) < 0 := by omega
    have hstep : (Json.arr items).child? (.index i) = some item := by
      rw [child?, if_neg hpos, Int.toNat_natCast, hitem]
    rcases List.mem_append.mp hlist with hlist | hlist
    · obtain ⟨commands, hcommands, heq⟩ := Option.map_eq_some_iff.mp (Option.mem_toList.mp hlist)
      cases heq
      refine ⟨by simp, _, rfl, ?_⟩
      rw [valueAt?, hstep]
      exact commands?_eq_some hcommands
    · obtain ⟨j, rfl, hpage⟩ := mem_pageLists hlist
      refine ⟨by simp, _, rfl, ?_⟩
      rw [valueAt?, hstep]
      exact hpage
  next root =>
    split at h
    next events hget =>
      obtain ⟨⟨event, i⟩, hmem, hlist⟩ := List.mem_flatMap.mp h
      have hevent := List.mk_mem_zipIdx_iff_getElem?.mp hmem
      have hpos : ¬ (i : Int) < 0 := by omega
      obtain ⟨j, rfl, hpage⟩ := mem_pageLists hlist
      refine ⟨by simp, _, rfl, ?_⟩
      rw [valueAt?, child?, hget, Option.bind_some, valueAt?, child?, if_neg hpos,
        Int.toNat_natCast, hevent]
      exact hpage
    next events hget =>
      obtain ⟨⟨name, event⟩, hmem, hlist⟩ := List.mem_flatMap.mp h
      have hkeyed : (Json.obj events).WellKeyed :=
        keyed.child (s := .key "events".toList) hget
      obtain ⟨j, rfl, hpage⟩ := mem_pageLists hlist
      refine ⟨by simp, _, rfl, ?_⟩
      cases hkeyed with
      | obj keys _ =>
        rw [valueAt?, child?, hget, Option.bind_some, valueAt?, child?, Json.get?,
          lookup?_of_mem keys hmem]
        exact hpage
    next => cases h
  next => cases h

/-! ## The texts of a document -/

/-- What extraction makes of a command list. -/
def ListUnits (scripts : Bool) (list : CommandList) (units : List EventUnit) : Prop :=
  ∃ container commands blocks, list = .ok (container, commands) ∧ units = blocks.flatten ∧
    List.Forall₂ (fun (c : Json × Nat) block => commandUnits scripts container c.2 c.1 = .ok block)
      commands.zipIdx blocks

theorem extract_eq_ok {scripts : Bool} {source : Text} {units : List EventUnit}
    (h : extract scripts source = .ok units) : ∃ shape document lists,
      read source = .ok (shape, document) ∧ units = lists.flatten ∧
        List.Forall₂ (ListUnits scripts) (commandLists shape document.value) lists := by
  unfold extract at h
  obtain ⟨⟨shape, document⟩, hread, h⟩ := bind_eq_ok h
  obtain ⟨lists, hlists, hret⟩ := bind_eq_ok h
  cases hret
  refine ⟨shape, document, lists, mapError_eq_ok hread, rfl, (mapM_eq_ok hlists).imp ?_⟩
  intro list units hlist
  obtain ⟨⟨container, commands⟩, hcommands, hlist⟩ := bind_eq_ok hlist
  obtain ⟨blocks, hblocks, hret⟩ := bind_eq_ok hlist
  cases hret
  exact ⟨container, commands, blocks, mapError_eq_ok hcommands, rfl,
    (mapM_eq_ok hblocks).imp fun c block hblock => mapError_eq_ok hblock⟩

/-- Texts of different containers are independent. -/
theorem independent_of_container_ne {shape : Shape} {a b : EventAddress} {l l' : Path}
    (ha : a.container.length ≤ 2) (hb : b.container.length ≤ 2)
    (hl : listPath? shape a.container = some l) (hl' : listPath? shape b.container = some l')
    (hne : a.container ≠ b.container) : Independent shape a b := by
  intro path hpath hpath'
  rw [target?, parametersPath?_eq, hl] at hpath
  rw [target?, parametersPath?_eq, hl'] at hpath'
  cases hpath
  simp only [Option.map_some, Option.some_inj, List.append_assoc] at hpath'
  exact absurd (listPath?_injective hb ha hl' hl hpath').1.symm hne

theorem independent_of_command_ne {shape : Shape} {a b : EventAddress}
    (container : a.container = b.container) (hne : a.command ≠ b.command) :
    Independent shape a b := by
  intro path hpath hpath'
  rw [target?, parametersPath?_eq, container] at hpath
  rw [target?, parametersPath?_eq] at hpath'
  cases hl : listPath? shape b.container with
  | none =>
    rw [hl] at hpath
    cases hpath
  | some l =>
    rw [hl] at hpath hpath'
    cases hpath
    simp at hpath'
    exact absurd hpath'.1.symm hne

/-- What holds of the texts of a command list. -/
structure ListSound (shape : Shape) (root : Json) (container : List Step)
    (units : List EventUnit) : Prop where
  address : ∀ u ∈ units, u.2.container = container
  placed : ∀ u ∈ units, Placed shape root u
  independent : units.Pairwise fun u v => Independent shape u.2 v.2

theorem listSound {scripts : Bool} {shape : Shape} {root : Json} {c : List Step} {cs : List Json}
    {blocks : List (List EventUnit)} {path : Path} (hpath : listPath? shape c = some path)
    (hcommands : root.valueAt? path = some (.arr cs))
    (h : List.Forall₂ (fun (x : Json × Nat) block => commandUnits scripts c x.2 x.1 = .ok block)
      cs.zipIdx blocks) : ListSound shape root c blocks.flatten := by
  have hblock : ∀ {x : Json × Nat} {block : List EventUnit}, x ∈ cs.zipIdx →
      commandUnits scripts c x.2 x.1 = .ok block → CommandSound shape root c x.2 block := by
    intro x block hx hunits
    have hget := List.mk_mem_zipIdx_iff_getElem?.mp hx
    have hat : parametersPath? shape c (.index x.2) =
        some (path ++ [.index x.2] ++ [.key "parameters".toList]) := by
      rw [parametersPath?_eq, hpath]
      simp
    have hpos : ¬ (x.2 : Int) < 0 := by omega
    have hcommand : root.valueAt? (path ++ [.index x.2]) = some x.1 := by
      rw [Json.valueAt?_append, hcommands, Option.bind_some, valueAt?, child?, if_neg hpos,
        Int.toNat_natCast, hget]
      rfl
    exact commandSound hunits hat hcommand
  have hunits : ∀ u ∈ blocks.flatten, ∃ n : Nat, ∃ block, CommandSound shape root c n block ∧
      u ∈ block := by
    intro u hu
    obtain ⟨block, hmem, hu⟩ := List.mem_flatten.mp hu
    obtain ⟨x, hx, hunits⟩ := exists_of_forall₂ h hmem
    exact ⟨x.2, block, hblock hx hunits, hu⟩
  refine ⟨?_, ?_, List.pairwise_flatten.mpr ⟨?_, ?_⟩⟩
  · intro u hu
    obtain ⟨n, block, hsound, hu⟩ := hunits u hu
    exact (hsound.address u hu).1
  · intro u hu
    obtain ⟨n, block, hsound, hu⟩ := hunits u hu
    exact hsound.placed u hu
  · intro block hmem
    obtain ⟨x, hx, hunits⟩ := exists_of_forall₂ h hmem
    exact (hblock hx hunits).independent
  · refine pairwise_of_forall₂ h (pairwise_zipIdx cs 0) ?_
    intro x x' block block' hx hx' hlt hunits hunits' u hu v hv
    have ha := (hblock hx hunits).address u hu
    have hb := (hblock hx' hunits').address v hv
    refine independent_of_command_ne (ha.1.trans hb.1.symm) ?_
    intro heq
    rw [ha.2, hb.2] at heq
    omega

/-- Event data that was read is readable, and its text is what was read. -/
theorem document_of_read {source : Text} {shape : Shape} {document : Json.Document}
    (h : read source = .ok (shape, document)) : document.Readable ∧ document.text = source := by
  unfold read at h
  split at h
  next => cases h
  next hread =>
    split at h
    next =>
      cases h
      exact Json.Document.readable_of_read hread
    next => cases h

/-- **Extraction places its texts**, and the addresses of any two are independent. -/
theorem extract_sound {scripts : Bool} {source : Text} {units : List EventUnit}
    (h : extract scripts source = .ok units) : ∃ shape document,
      read source = .ok (shape, document) ∧ (∀ u ∈ units, Placed shape document.value u) ∧
        units.Pairwise fun u v => Independent shape u.2 v.2 := by
  obtain ⟨shape, document, lists, hread, rfl, hlists⟩ := extract_eq_ok h
  have keyed : document.value.WellKeyed := (document_of_read hread).1.wellKeyed
  -- every list of texts is that of one container
  have hlist : ∀ {list us}, list ∈ commandLists shape document.value → ListUnits scripts list us →
      ∃ c cs l, list = .ok (c, cs) ∧ c.length ≤ 2 ∧ listPath? shape c = some l ∧
        ListSound shape document.value c us := by
    rintro list us hmem ⟨c, cs, blocks, rfl, rfl, hblocks⟩
    obtain ⟨hlength, l, hl, hcommands⟩ := commandLists_sound keyed hmem
    exact ⟨c, cs, l, rfl, hlength, hl, listSound hl hcommands hblocks⟩
  refine ⟨shape, document, hread, ?_, List.pairwise_flatten.mpr ⟨?_, ?_⟩⟩
  · intro u hu
    obtain ⟨us, hmem, hu⟩ := List.mem_flatten.mp hu
    obtain ⟨list, hmem, hunits⟩ := exists_of_forall₂ hlists hmem
    obtain ⟨c, cs, l, -, -, -, hsound⟩ := hlist hmem hunits
    exact hsound.placed u hu
  · intro us hmem
    obtain ⟨list, hmem, hunits⟩ := exists_of_forall₂ hlists hmem
    obtain ⟨c, cs, l, -, -, -, hsound⟩ := hlist hmem hunits
    exact hsound.independent
  · refine pairwise_of_forall₂ hlists (commandLists_different keyed) ?_
    intro list list' us us' hmem hmem' hdiff hunits hunits' u hu v hv
    obtain ⟨c, cs, l, rfl, hlength, hl, hsound⟩ := hlist hmem hunits
    obtain ⟨c', cs', l', rfl, hlength', hl', hsound'⟩ := hlist hmem' hunits'
    obtain rfl := hsound.address u hu
    obtain rfl := hsound'.address v hv
    exact independent_of_container_ne hlength hlength' hl hl' (hdiff _ _ _ _ rfl rfl)

end EventData

end GameText
