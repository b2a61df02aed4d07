import GameText.Proofs.Json.Splice
import Mathlib.Data.List.Forall2

/-!
# Strings of a document written anew: the value

Writing new texts into a tree maps the leaves of its value (`Node.Readable.splice_value`). A
repeated key makes this more than a reading of the definitions: an object takes the value of the
last member with a key, and only that member's strings are written anew. A leaf of the value has one
string token, at the place that `locate` gives (`Document.Readable.token_of_stringAt?`), and the
value of a document that was read has no key twice (`Node.Readable.wellKeyed`).
-/

namespace GameText

namespace Json

/-! ## The member that counts -/

/-- The value of the last member with a key. -/
def Members.last? (key : Text) : Members → Option Node
  | .nil => none
  | .cons _ _ k _ _ node _ rest => (rest.last? key).or (if k = key then some node else none)

theorem Members.lookup?_values (key : Text) : ∀ (members : Members) (soFar : List (Text × Json)),
    lookup? key (members.values soFar) =
      ((members.last? key).map Node.value).or (lookup? key soFar)
  | .nil, soFar => rfl
  | .cons _ _ k _ _ node _ rest, soFar => by
    rw [Members.values, Members.lookup?_values key rest, lookup?_assign, Members.last?]
    cases rest.last? key with
    | some => rfl
    | none =>
      simp only [Option.map_none, Option.none_or]
      split <;> rfl

theorem Members.locate_eq_none {key : Text} (path : Path) : ∀ {members : Members} {offset : Nat},
    members.last? key = none → members.locate key path offset = none
  | .nil, _, _ => rfl
  | .cons _ _ k _ _ node _ rest, _, h => by
    obtain ⟨hrest, hkey⟩ := Option.or_eq_none_iff.mp h
    rw [Members.locate_cons, Members.locate_eq_none path hrest, Option.none_or]
    split at hkey
    next => cases hkey
    next hne => exact if_neg hne

mutual

/-- A value that was read has no key twice. -/
theorem Node.Readable.wellKeyed : ∀ {node : Node}, node.Readable → node.value.WellKeyed
  | .scalar _ value, h => by
    have hscalar := Scalar.isScalar h
    rw [Node.value]
    cases value with
    | null => exact .null
    | bool b => exact .bool b
    | num n => exact .num n
    | str _ | arr _ | obj _ => cases hscalar
  | .string _ text, _ => .str text
  | .array _ _, ⟨_, _, hitems⟩ => .arr (Elements.Readable.wellKeyed hitems)
  | .object _ members, ⟨_, _, hmembers⟩ =>
    have h : ((members.values []).map (·.1)).Nodup ∧ ∀ m ∈ members.values [], m.2.WellKeyed :=
      Members.Readable.wellKeyed hmembers List.nodup_nil fun _ hm => (nomatch hm)
    .obj h.1 h.2

theorem Elements.Readable.wellKeyed : ∀ {items : Elements}, items.Readable →
    ∀ v ∈ items.values, v.WellKeyed
  | .nil, _, v, hv => nomatch hv
  | .cons _ _ _ _, ⟨_, hnode, _, hrest⟩, v, hv => by
    rcases List.mem_cons.mp hv with rfl | hv
    · exact Node.Readable.wellKeyed hnode
    · exact Elements.Readable.wellKeyed hrest v hv

theorem Members.Readable.wellKeyed : ∀ {members : Members}, members.Readable →
    ∀ {soFar : List (Text × Json)}, (soFar.map (·.1)).Nodup → (∀ m ∈ soFar, m.2.WellKeyed) →
      ((members.values soFar).map (·.1)).Nodup ∧ ∀ m ∈ members.values soFar, m.2.WellKeyed
  | .nil, _, _, hkeys, hbelow => ⟨hkeys, hbelow⟩
  | .cons _ _ key _ _ node _ rest, ⟨_, _, _, _, hnode, _, hrest⟩, soFar, hkeys, hbelow => by
    refine Members.Readable.wellKeyed hrest (nodup_assign hkeys) ?_
    intro m hm
    rcases mem_assign hm with rfl | hm
    · exact Node.Readable.wellKeyed hnode
    · exact hbelow m hm

end

/-! ## The mapped value -/

theorem NewTexts.edit_below (texts : NewTexts) (s : Step) :
    (texts.below s).edit = fun path => texts.edit (s :: path) := rfl

/-- Nothing is hidden below the last member with a key. -/
theorem NewTexts.notHidden_eq (texts : NewTexts) {key : Text} {later : Members}
    (h : later.last? key = none) : texts.notHidden key later = texts.below (.key key) := by
  funext path
  simp [NewTexts.notHidden, NewTexts.below, Members.locate_eq_none path h]

/-- Entries collected so far agree with those collected from the tree with new texts, but for those
that a later member replaces. -/
def Agree (texts : NewTexts) (later : Members) : List (Text × Json) → List (Text × Json) → Prop :=
  List.Forall₂ fun old new => new.1 = old.1 ∧ (later.last? old.1 = none →
    new.2 = old.2.mapStrings fun path => texts.edit (.key old.1 :: path))

theorem Agree.eq_mapMembers {texts : NewTexts} {old new : List (Text × Json)}
    (h : Agree texts .nil old new) : new = mapMembers texts.edit old := by
  induction h with
  | nil => rfl
  | @cons a b as bs hab _ ih =>
    obtain ⟨k, v⟩ := a
    obtain ⟨k', v'⟩ := b
    obtain ⟨hkey, hvalue⟩ := hab
    dsimp only at hkey hvalue
    rw [mapMembers, ← ih, ← hvalue rfl, hkey]

theorem Agree.of_not_mem {texts : NewTexts} {before rawKey key afterKey beforeValue after : Text}
    {node : Node} {rest : Members} {old new : List (Text × Json)} (hkey : key ∉ old.map (·.1))
    (h : Agree texts (.cons before rawKey key afterKey beforeValue node after rest) old new) :
    Agree texts rest old new := by
  induction h with
  | nil => exact .nil
  | @cons a b as bs hab _ ih =>
    rw [List.map_cons, List.mem_cons, not_or] at hkey
    refine .cons ⟨hab.1, fun hlater => hab.2 ?_⟩ (ih hkey.2)
    rw [Members.last?, hlater, Option.none_or, if_neg hkey.1]

theorem Agree.assign {texts : NewTexts} {before rawKey key afterKey beforeValue after : Text}
    {node : Node} {rest : Members} {old new : List (Text × Json)} {v w : Json}
    (keys : (old.map (·.1)).Nodup)
    (h : Agree texts (.cons before rawKey key afterKey beforeValue node after rest) old new)
    (hvalue : rest.last? key = none → w = v.mapStrings fun path => texts.edit (.key key :: path)) :
    Agree texts rest (assign key v old) (assign key w new) := by
  induction h with
  | nil => exact .cons ⟨rfl, hvalue⟩ .nil
  | @cons a b as bs hab htail ih =>
    obtain ⟨k, x⟩ := a
    obtain ⟨k', y⟩ := b
    obtain ⟨hkey, hold⟩ := hab
    obtain ⟨hnew, hkeys⟩ := List.nodup_cons.mp keys
    dsimp only at hkey hold hnew
    subst hkey
    by_cases hk : k' = key
    · subst hk
      rw [GameText.assign, GameText.assign, if_pos rfl, if_pos rfl]
      exact .cons ⟨rfl, hvalue⟩ (Agree.of_not_mem hnew htail)
    · rw [GameText.assign, GameText.assign, if_neg hk, if_neg hk]
      refine .cons ⟨rfl, fun hlater => hold ?_⟩ (ih hkeys)
      rw [Members.last?, hlater, Option.none_or, if_neg (fun heq => hk heq.symm)]

mutual

/-- **Writing new texts maps the leaves of the value.** -/
theorem Node.Readable.splice_value (texts : NewTexts) : ∀ {node : Node}, node.Readable →
    (node.splice texts.changes).value = node.value.mapStrings texts.edit
  | .scalar _ value, h => by
    have hscalar := Scalar.isScalar h
    rw [Node.splice, Node.value]
    cases value with
    | str _ | arr _ | obj _ => cases hscalar
    | _ => rfl
  | .string _ text, _ => by
    simp only [Node.splice, Node.value, NewTexts.changes, mapStrings, NewTexts.edit]
    cases texts [] <;> rfl
  | .array _ _, ⟨_, _, hitems⟩ => congrArg Json.arr (Elements.Readable.splice_values texts 0 hitems)
  | .object _ _, ⟨_, _, hmembers⟩ =>
    congrArg Json.obj (Members.Readable.splice_values texts hmembers List.nodup_nil .nil)

theorem Elements.Readable.splice_values (texts : NewTexts) (index : Nat) : ∀ {items : Elements},
    items.Readable →
      (items.splice texts.changes index).values = mapItems texts.edit index items.values
  | .nil, _ => rfl
  | .cons _ node _ rest, ⟨_, hnode, _, hrest⟩ => by
    rw [Elements.splice, Elements.values, Elements.values, mapItems, NewTexts.changes_below,
      Node.Readable.splice_value _ hnode, Elements.Readable.splice_values texts (index + 1) hrest,
      NewTexts.edit_below]

theorem Members.Readable.splice_values (texts : NewTexts) : ∀ {members : Members},
    members.Readable → ∀ {old new : List (Text × Json)}, (old.map (·.1)).Nodup →
      Agree texts members old new →
        (members.splice texts.changes).values new = mapMembers texts.edit (members.values old)
  | .nil, _, _, _, _, h => h.eq_mapMembers
  | .cons _ _ key _ _ node _ rest, ⟨_, _, _, _, hnode, _, hrest⟩, old, new, hkeys, h => by
    rw [Members.splice, Members.values, Members.values, NewTexts.changes_notHidden]
    refine Members.Readable.splice_values texts hrest (nodup_assign hkeys) (h.assign hkeys ?_)
    intro hlast
    rw [Node.Readable.splice_value _ hnode, texts.notHidden_eq hlast, NewTexts.edit_below]

end

/-! ## The token of a leaf -/

/-- The element with an index. -/
def Elements.get? : Elements → Nat → Option Node
  | .nil, _ => none
  | .cons _ node _ _, 0 => some node
  | .cons _ _ _ rest, n + 1 => rest.get? n

theorem Elements.getElem?_values : ∀ (items : Elements) (k : Nat),
    items.values[k]? = (items.get? k).map Node.value
  | .nil, _ => rfl
  | .cons _ _ _ _, 0 => rfl
  | .cons _ _ _ rest, k + 1 => Elements.getElem?_values rest k

/-- An element stands somewhere among the characters, and its strings are looked for there. -/
theorem Elements.exists_of_get? : ∀ {items : Elements} {k : Nat} {node : Node}, items.Readable →
    items.get? k = some node → node.Readable ∧ ∃ front back, items.text = front ++ (node.text ++ back) ∧
      ∀ path offset, items.locate path k offset = (node.locate path).map fun span =>
        (offset + front.length + span.1, offset + front.length + span.2)
  | .cons before node after rest, 0, _, ⟨_, hnode, _, _⟩, rfl =>
    ⟨hnode, before, after ++ rest.textAfter, by simp [Elements.text], fun _ _ => rfl⟩
  | .cons before node after rest, k + 1, child, ⟨_, _, _, hrest⟩, h => by
    obtain ⟨hchild, front, back, htext, hlocate⟩ := Elements.exists_of_get? hrest h
    refine ⟨hchild, before ++ node.text ++ after ++ rest.comma ++ front, back, ?_, ?_⟩
    · simp [Elements.text, Elements.textAfter_eq_comma, htext]
    · intro path offset
      have hoffset := Elements.locate_comma path rest k
        (offset + before.length + node.text.length + after.length)
      rw [hlocate] at hoffset
      rw [Elements.locate, ← hoffset]
      simp [Nat.add_assoc]

theorem Members.exists_of_last? : ∀ {members : Members} {key : Text} {node : Node},
    members.Readable → members.last? key = some node →
      node.Readable ∧ ∃ front back, members.text = front ++ (node.text ++ back) ∧
        ∀ path span, node.locate path = some span → ∀ offset,
          members.locate key path offset =
            some (offset + front.length + span.1, offset + front.length + span.2)
  | .cons before rawKey k afterKey beforeValue node after rest, key, child,
      ⟨_, _, _, _, hnode, _, hrest⟩, h => by
    cases hlast : rest.last? key with
    | none =>
      rw [Members.last?, hlast, Option.none_or] at h
      split at h
      next hkey =>
        cases h
        refine ⟨hnode, before ++ rawKey ++ afterKey ++ ':' :: beforeValue, after ++ rest.textAfter,
          ?_, ?_⟩
        · simp [Members.text]
        · intro path span hspan offset
          have hnone : (rest.locate key path 0).isSome = false := by
            rw [Members.locate_eq_none path hlast]
            rfl
          refine Members.locate_cons_eq_some.mpr (Or.inr ⟨hkey, hnone, span, hspan, ?_⟩)
          simp only [valueStart, Prod.mk.injEq, List.length_append, List.length_cons]
          omega
      next => cases h
    | some last =>
      rw [Members.last?, hlast] at h
      cases h
      obtain ⟨hchild, front, back, htext, hlocate⟩ := Members.exists_of_last? hrest hlast
      refine ⟨hchild, before ++ rawKey ++ afterKey ++ ':' :: beforeValue ++ node.text ++ after ++
        rest.comma ++ front, back, ?_, ?_⟩
      · simp [Members.text, Members.textAfter_eq_comma, htext]
      · intro path span hspan offset
        have hoffset := Members.locate_comma key path rest
          (valueStart offset before rawKey afterKey beforeValue + node.text.length + after.length)
        rw [hlocate path span hspan] at hoffset
        refine Members.locate_cons_eq_some.mpr (Or.inl (hoffset.symm.trans ?_))
        simp only [valueStart, Option.some.injEq, Prod.mk.injEq, List.length_append,
          List.length_cons]
        omega

/-- A child of the value is written somewhere among the characters, and what lies below it is looked
for there. -/
theorem Node.Readable.exists_of_child? {node : Node} (h : node.Readable) {s : Step} {w : Json}
    (hw : node.value.child? s = some w) :
    ∃ child : Node, child.value = w ∧ child.Readable ∧
      ∃ front back, node.text = front ++ (child.text ++ back) ∧
        ∀ path span, child.locate path = some span →
          node.locate (s :: path) = some (front.length + span.1, front.length + span.2) := by
  cases node with
  | scalar raw value =>
    have hscalar := Scalar.isScalar h
    cases value with
    | str _ | arr _ | obj _ => cases hscalar
    | _ => cases s <;> cases hw
  | string raw text => cases s <;> cases hw
  | array blanks items =>
    cases s with
    | key k => cases hw
    | index i =>
      simp only [Node.value, child?] at hw
      split at hw
      next => cases hw
      next hi =>
        rw [Elements.getElem?_values] at hw
        obtain ⟨child, hchild, rfl⟩ := Option.map_eq_some_iff.mp hw
        obtain ⟨hreadable, front, back, htext, hlocate⟩ := Elements.exists_of_get? h.2.2 hchild
        refine ⟨child, rfl, hreadable, '[' :: blanks ++ front, back ++ [']'], ?_, ?_⟩
        · simp [Node.text, htext]
        · intro path span hspan
          rw [Node.locate, if_neg hi, hlocate, hspan]
          simp [Nat.add_comm 1, Nat.add_right_comm]
  | object blanks members =>
    cases s with
    | index i => cases hw
    | key k =>
      rw [Node.value, child?, get?, Members.lookup?_values, lookup?, Option.or_none] at hw
      obtain ⟨child, hchild, rfl⟩ := Option.map_eq_some_iff.mp hw
      obtain ⟨hreadable, front, back, htext, hlocate⟩ := Members.exists_of_last? h.2.2 hchild
      refine ⟨child, rfl, hreadable, '\x7b' :: blanks ++ front, back ++ ['\x7d'], ?_, ?_⟩
      · simp [Node.text, htext]
      · intro path span hspan
        rw [Node.locate, hlocate path span hspan]
        simp [Nat.add_comm 1, Nat.add_right_comm]

/-- The characters at a place of a text are a string token that stands for a string. -/
def TokenAt (text : Text) (span : Nat × Nat) (old : Text) : Prop :=
  ∃ front raw back, text = front ++ (raw ++ back) ∧
    span = (front.length, front.length + raw.length) ∧ IsStringToken raw old

theorem TokenAt.within {text old : Text} {span : Nat × Nat} (h : TokenAt text span old)
    (front back : Text) :
    TokenAt (front ++ (text ++ back)) (front.length + span.1, front.length + span.2) old := by
  obtain ⟨front', raw, back', rfl, rfl, htoken⟩ := h
  refine ⟨front ++ front', raw, back' ++ back, ?_, ?_, htoken⟩
  · simp
  · simp [Nat.add_assoc]

/-- **A leaf of the value has a string token**, at the place where its path leads. -/
theorem Node.Readable.token_of_stringAt? {path : Path} {old : Text} : ∀ {node : Node},
    node.Readable → node.value.stringAt? path = some old →
      ∃ span, node.locate path = some span ∧ TokenAt node.text span old := by
  induction path with
  | nil =>
    intro node h hold
    cases node with
    | scalar raw value =>
      have hscalar := Scalar.isScalar h
      cases value with
      | str _ | arr _ | obj _ => cases hscalar
      | _ => cases hold
    | string raw text =>
      cases hold
      exact ⟨(0, raw.length), rfl, [], raw, [], by simp [Node.text], by simp, h⟩
    | array _ _ | object _ _ => cases hold
  | cons s path ih =>
    intro node h hold
    rw [stringAt?_cons] at hold
    obtain ⟨w, hw, hold⟩ := Option.bind_eq_some_iff.mp hold
    obtain ⟨child, rfl, hchild, front, back, htext, hlocate⟩ := h.exists_of_child? hw
    obtain ⟨span, hspan, htoken⟩ := ih hchild hold
    exact ⟨_, hlocate path span hspan, htext ▸ htoken.within front back⟩

/-! ## Documents -/

namespace Document

theorem Readable.wellKeyed {d : Document} (h : d.Readable) : d.value.WellKeyed := h.root.wellKeyed

theorem Readable.token_of_stringAt? {d : Document} (h : d.Readable) {path : Path} {old : Text}
    (hold : d.value.stringAt? path = some old) :
    ∃ span, d.locate path = some span ∧ TokenAt d.text span old := by
  obtain ⟨span, hspan, htoken⟩ := h.root.token_of_stringAt? hold
  refine ⟨(d.before.length + span.1, d.before.length + span.2), by rw [locate, hspan]; rfl, ?_⟩
  rw [text, List.append_assoc]
  exact htoken.within d.before d.after

/-- **The text with new strings is that of the mapped value.** -/
theorem read_splice {d : Document} (h : d.Readable) (texts : NewTexts) :
    Json.read (d.splice texts.changes).text = .ok (d.value.mapStrings texts.edit) := by
  have hvalue : (d.splice texts.changes).value = d.value.mapStrings texts.edit :=
    h.root.splice_value texts
  rw [Json.read, (h.splice texts).read, ← hvalue]
  rfl

end Document

end Json

end GameText
