import GameText.Proofs.Json.Tokens

/-!
# String tokens written anew by their places

`Node.splice` writes the strings at some paths anew, and of several strings at one path the last.
A tool that goes by places in the text may also meet the others: the tokens that a later member with
the same key hides. `Node.retext` writes any string tokens anew, each named by its span. The tree
stays readable, its text is the old text with those tokens replaced (`Node.Readable.retext_rewritten`),
and its value depends only on the tokens that a path leads to: it is the old value with new texts for
the strings at these paths (`Node.Readable.retext_value`). What is written in the place of a hidden
token is hidden as well.
-/

namespace GameText

namespace Json

open Text (Rewritten)

/-- New texts for the string tokens at some spans of a text. -/
abbrev SpanTexts := Nat × Nat → Option Text

mutual

/-- A value that begins at an offset, with string tokens written anew. -/
def Node.retext (texts : SpanTexts) (offset : Nat) : Node → Node
  | .scalar raw value => .scalar raw value
  | .string raw text =>
    match texts (offset, offset + raw.length) with
    | some new => .string (quote new) new
    | none => .string raw text
  | .array blanks items => .array blanks (items.retext texts (offset + (1 + blanks.length)))
  | .object blanks members => .object blanks (members.retext texts (offset + (1 + blanks.length)))

/-- Elements that begin at an offset, with string tokens written anew. -/
def Elements.retext (texts : SpanTexts) (offset : Nat) : Elements → Elements
  | .nil => .nil
  | .cons before node after rest =>
    .cons before (node.retext texts (offset + before.length)) after
      (rest.retext texts (offset + before.length + node.text.length + after.length + 1))

/-- Members that begin at an offset, with string tokens written anew. -/
def Members.retext (texts : SpanTexts) (offset : Nat) : Members → Members
  | .nil => .nil
  | .cons before rawKey key afterKey beforeValue node after rest =>
    .cons before rawKey key afterKey beforeValue
      (node.retext texts (valueStart offset before rawKey afterKey beforeValue)) after
      (rest.retext texts (valueStart offset before rawKey afterKey beforeValue + node.text.length +
        after.length + 1))

end

/-- The replacement of a token, if its span has a new text. -/
def SpanTexts.replacement? (texts : SpanTexts) (t : PlacedToken) : Option Replacement :=
  (texts t.span).map fun new => ⟨t.span.1, t.span.2, quote new⟩

/-! ## The tree stays readable -/

mutual

theorem Node.Readable.retext (texts : SpanTexts) : ∀ {node : Node}, node.Readable →
    ∀ offset, (node.retext texts offset).Readable
  | .scalar _ _, h, _ => h
  | .string raw text, h, offset => by
    rw [Node.retext]
    cases texts (offset, offset + raw.length) with
    | none => exact h
    | some new => exact isStringToken_quote new
  | .array _ items, ⟨hblanks, hempty, hitems⟩, offset => by
    refine ⟨hblanks, hempty.imp_left ?_, Elements.Readable.retext texts hitems _⟩
    rintro rfl
    rfl
  | .object _ members, ⟨hblanks, hempty, hmembers⟩, offset => by
    refine ⟨hblanks, hempty.imp_left ?_, Members.Readable.retext texts hmembers _⟩
    rintro rfl
    rfl

theorem Elements.Readable.retext (texts : SpanTexts) : ∀ {items : Elements}, items.Readable →
    ∀ offset, (items.retext texts offset).Readable
  | .nil, _, _ => trivial
  | .cons _ _ _ _, ⟨hbefore, hnode, hafter, hrest⟩, _ =>
    ⟨hbefore, Node.Readable.retext texts hnode _, hafter, Elements.Readable.retext texts hrest _⟩

theorem Members.Readable.retext (texts : SpanTexts) : ∀ {members : Members}, members.Readable →
    ∀ offset, (members.retext texts offset).Readable
  | .nil, _, _ => trivial
  | .cons _ _ _ _ _ _ _ _, ⟨hbefore, hkey, hafterKey, hbeforeValue, hnode, hafter, hrest⟩, _ =>
    ⟨hbefore, hkey, hafterKey, hbeforeValue, Node.Readable.retext texts hnode _, hafter,
      Members.Readable.retext texts hrest _⟩

end

/-! ## The characters -/

theorem Elements.retext_comma (texts : SpanTexts) (items : Elements) (offset : Nat) :
    items.retext texts (offset + items.comma.length) = items.retext texts (offset + 1) := by
  cases items <;> rfl

theorem Members.retext_comma (texts : SpanTexts) (members : Members) (offset : Nat) :
    members.retext texts (offset + members.comma.length) = members.retext texts (offset + 1) := by
  cases members <;> rfl

theorem Elements.comma_retext (texts : SpanTexts) (items : Elements) (offset : Nat) :
    (items.retext texts offset).comma = items.comma := by
  cases items <;> rfl

theorem Members.comma_retext (texts : SpanTexts) (members : Members) (offset : Nat) :
    (members.retext texts offset).comma = members.comma := by
  cases members <;> rfl

namespace SpanTexts

variable (texts : SpanTexts)

/-- The replacements of the tokens whose spans have a new text. -/
def replacements (ts : List PlacedToken) : List Replacement := ts.filterMap texts.replacement?

theorem replacements_append (ts us : List PlacedToken) :
    texts.replacements (ts ++ us) = texts.replacements ts ++ texts.replacements us :=
  List.filterMap_append

/-- A replacement does not depend on the path of the token. -/
theorem replacements_under (s : Step) (offset : Nat) (ts : List PlacedToken) :
    texts.replacements (ts.map (.under s offset)) = texts.replacements (ts.map (.shift offset)) := by
  rw [replacements, replacements, List.filterMap_map, List.filterMap_map]
  rfl

end SpanTexts

mutual

/-- **The text of the tree is the old one with the tokens replaced.** -/
theorem Node.Readable.retext_rewritten (texts : SpanTexts) : ∀ {node : Node}, node.Readable →
    ∀ offset, Rewritten offset node.text (node.retext texts offset).text
      (texts.replacements (node.tokens.map (.shift offset)))
  | .scalar raw _, _, offset => .refl offset raw
  | .string raw text, h, offset => by
    have hspan : (PlacedToken.shift offset ⟨[], 0, raw, text⟩).span =
        (offset, offset + raw.length) := rfl
    rw [Node.retext, Node.tokens, List.map_singleton, SpanTexts.replacements, List.filterMap_cons,
      SpanTexts.replacement?, hspan]
    cases texts (offset, offset + raw.length) with
    | none => exact .refl offset raw
    | some new => exact .single offset (IsStringToken.ne_nil h) (quote new)
  | .array blanks items, ⟨_, _, hitems⟩, offset => by
    rw [Node.tokens, ← Elements.tokens_add]
    have hinner := Elements.Readable.retext_rewritten texts hitems 0 (offset + (1 + blanks.length))
    have henclosed := Rewritten.enclosed ('[' :: blanks) [']']
      (Nat.add_comm 1 blanks.length ▸ hinner)
    rwa [← List.append_assoc, ← List.append_assoc, Nat.add_comm blanks.length] at henclosed
  | .object blanks members, ⟨_, _, hmembers⟩, offset => by
    rw [Node.tokens, ← Members.tokens_add]
    have hinner := Members.Readable.retext_rewritten texts hmembers (offset + (1 + blanks.length))
    have henclosed := Rewritten.enclosed ('\x7b' :: blanks) ['\x7d']
      (Nat.add_comm 1 blanks.length ▸ hinner)
    rwa [← List.append_assoc, ← List.append_assoc, Nat.add_comm blanks.length] at henclosed

theorem Elements.Readable.retext_rewritten (texts : SpanTexts) : ∀ {items : Elements},
    items.Readable → ∀ index offset, Rewritten offset items.text
      (items.retext texts offset).text (texts.replacements (items.tokens index offset))
  | .nil, _, _, offset => .refl offset []
  | .cons before node after rest, ⟨_, hnode, _, hrest⟩, index, offset => by
    have hhead := Node.Readable.retext_rewritten texts hnode (offset + before.length)
    have htail := Elements.Readable.retext_rewritten texts hrest (index + 1)
      (offset + before.length + node.text.length + after.length + rest.comma.length)
    rw [Elements.retext_comma, Elements.tokens_comma, Nat.add_assoc _ after.length,
      ← List.length_append] at htail
    rw [Elements.tokens, SpanTexts.replacements_append, SpanTexts.replacements_under]
    have hboth := hhead.follow before (after ++ rest.comma) htail
    simpa only [Elements.retext, Elements.text, Elements.textAfter_eq_comma,
      Elements.comma_retext, List.append_assoc] using hboth

theorem Members.Readable.retext_rewritten (texts : SpanTexts) : ∀ {members : Members},
    members.Readable → ∀ offset, Rewritten offset members.text
      (members.retext texts offset).text (texts.replacements (members.tokens offset))
  | .nil, _, offset => .refl offset []
  | .cons before rawKey key afterKey beforeValue node after rest,
      ⟨_, _, _, _, hnode, _, hrest⟩, offset => by
    have hstart : valueStart offset before rawKey afterKey beforeValue =
        offset + (before ++ (rawKey ++ (afterKey ++ ':' :: beforeValue))).length := by
      simp only [valueStart, List.length_append, List.length_cons]
      omega
    have hhead := Node.Readable.retext_rewritten texts hnode
      (valueStart offset before rawKey afterKey beforeValue)
    have htail := Members.Readable.retext_rewritten texts hrest
      (valueStart offset before rawKey afterKey beforeValue + node.text.length + after.length +
        rest.comma.length)
    rw [Members.retext_comma, Members.tokens_comma, Nat.add_assoc _ after.length,
      ← List.length_append] at htail
    rw [Members.tokens, SpanTexts.replacements_append, SpanTexts.replacements_under]
    rw [hstart] at hhead htail
    have hboth := hhead.follow _ (after ++ rest.comma) htail
    simpa only [Members.retext, Members.text, Members.textAfter_eq_comma, Members.comma_retext,
      hstart, List.append_assoc, List.cons_append] using hboth

end

/-! ## The value -/

mutual

/-- **Only the tokens that a path leads to count for the value.** -/
theorem Node.Readable.retext_value {texts : SpanTexts} : ∀ {newTexts : NewTexts} {node : Node}
    {offset : Nat}, node.Readable →
      (∀ path span, node.locate path = some span →
        newTexts path = texts (offset + span.1, offset + span.2)) →
      (node.retext texts offset).value = node.value.mapStrings newTexts.edit
  | _, .scalar _ value, _, h, _ => by
    have hscalar := Scalar.isScalar h
    rw [Node.retext, Node.value]
    cases value with
    | str _ | arr _ | obj _ => cases hscalar
    | _ => rfl
  | newTexts, .string raw text, offset, _, hplaces => by
    have hnew : newTexts [] = texts (offset, offset + raw.length) :=
      hplaces [] (0, raw.length) rfl
    simp only [Node.retext, Node.value, mapStrings, NewTexts.edit, hnew]
    cases texts (offset, offset + raw.length) <;> rfl
  | newTexts, .array blanks items, offset, ⟨_, _, hitems⟩, hplaces => by
    refine congrArg Json.arr (Elements.Readable.retext_values hitems ?_)
    intro k path span hspan
    rw [Elements.locate_add] at hspan
    obtain ⟨inner, hinner, rfl⟩ := Option.map_eq_some_iff.mp hspan
    rw [Nat.zero_add]
    exact hplaces _ inner (Node.locate_array_eq_some.mpr ⟨k, path, rfl, hinner⟩)
  | newTexts, .object blanks members, offset, ⟨_, _, hmembers⟩, hplaces => by
    refine congrArg Json.obj (Members.Readable.retext_values hmembers ?_ List.nodup_nil .nil)
    intro key path span hspan
    rw [Members.locate_add] at hspan
    obtain ⟨inner, hinner, rfl⟩ := Option.map_eq_some_iff.mp hspan
    exact hplaces _ inner (Node.locate_object_eq_some.mpr ⟨key, path, rfl, hinner⟩)

theorem Elements.Readable.retext_values {texts : SpanTexts} {newTexts : NewTexts} :
    ∀ {items : Elements} {index offset : Nat}, items.Readable →
      (∀ k path span, items.locate path k offset = some span →
        newTexts (.index ((index + k : Nat) : Int) :: path) = texts span) →
      (items.retext texts offset).values = mapItems newTexts.edit index items.values
  | .nil, _, _, _, _ => rfl
  | .cons before node after rest, index, offset, ⟨_, hnode, _, hrest⟩, hplaces => by
    have hhead : (node.retext texts (offset + before.length)).value =
        node.value.mapStrings (newTexts.below (.index index)).edit := by
      refine Node.Readable.retext_value hnode ?_
      intro path span hspan
      apply hplaces 0 path
      rw [Elements.locate, hspan]
      rfl
    have htail : (rest.retext texts (offset + before.length + node.text.length + after.length +
        1)).values = mapItems newTexts.edit (index + 1) rest.values := by
      refine Elements.Readable.retext_values hrest ?_
      intro k path span hspan
      rw [Nat.add_right_comm]
      exact hplaces (k + 1) path span hspan
    rw [Elements.retext, Elements.values, Elements.values, mapItems, hhead, htail,
      NewTexts.edit_below]

theorem Members.Readable.retext_values {texts : SpanTexts} {newTexts : NewTexts} :
    ∀ {members : Members} {offset : Nat}, members.Readable →
      (∀ key path span, members.locate key path offset = some span →
        newTexts (.key key :: path) = texts span) →
      ∀ {old new : List (Text × Json)}, (old.map (·.1)).Nodup → Agree newTexts members old new →
        (members.retext texts offset).values new = mapMembers newTexts.edit (members.values old)
  | .nil, _, _, _, _, _, _, h => h.eq_mapMembers
  | .cons before rawKey key afterKey beforeValue node after rest, offset,
      ⟨_, _, _, _, hnode, _, hrest⟩, hplaces, old, new, hkeys, h => by
    have hhead : rest.last? key = none →
        (node.retext texts (valueStart offset before rawKey afterKey beforeValue)).value =
          node.value.mapStrings (newTexts.below (.key key)).edit := by
      intro hlast
      refine Node.Readable.retext_value hnode ?_
      intro path span hspan
      have hnone : (rest.locate key path 0).isSome = false := by
        rw [Members.locate_eq_none path hlast]
        rfl
      exact hplaces key path _ (Members.locate_cons_eq_some.mpr
        (.inr ⟨rfl, hnone, span, hspan, rfl⟩))
    rw [Members.retext, Members.values, Members.values]
    refine Members.Readable.retext_values hrest ?_ (nodup_assign hkeys) (h.assign hkeys hhead)
    intro key' path span hspan
    exact hplaces key' path span (Members.locate_cons_eq_some.mpr (.inl hspan))

end

/-! ## Documents -/

namespace Document

/-- A document that begins at an offset, with string tokens written anew. -/
def retext (d : Document) (texts : SpanTexts) (offset : Nat) : Document :=
  { d with root := d.root.retext texts (offset + d.before.length) }

theorem Readable.retext {d : Document} (h : d.Readable) (texts : SpanTexts) (offset : Nat) :
    (d.retext texts offset).Readable :=
  ⟨h.before, h.root.retext texts _, h.after⟩

theorem Readable.retext_rewritten {d : Document} (h : d.Readable) (texts : SpanTexts)
    (offset : Nat) : Rewritten offset d.text (d.retext texts offset).text
      (texts.replacements (d.tokens.map (.shift offset))) := by
  have hshift : PlacedToken.shift offset ∘ PlacedToken.shift d.before.length =
      PlacedToken.shift (offset + d.before.length) := by
    funext t
    simp only [Function.comp_apply, PlacedToken.shift, Nat.add_assoc]
  have hroot := (h.root.retext_rewritten texts (offset + d.before.length)).enclosed d.before d.after
  rwa [← List.append_assoc, ← List.append_assoc, ← hshift, ← List.map_map] at hroot

/-- **The document with tokens written anew is read as the mapped value**, for the new texts of the
places that paths lead to. -/
theorem Readable.read_retext {d : Document} (h : d.Readable) {texts : SpanTexts} {offset : Nat}
    {newTexts : NewTexts} (hplaces : ∀ path span, d.locate path = some span →
      newTexts path = texts (offset + span.1, offset + span.2)) :
    Json.read (d.retext texts offset).text = .ok (d.value.mapStrings newTexts.edit) := by
  have hvalue : (d.retext texts offset).value = d.value.mapStrings newTexts.edit := by
    refine h.root.retext_value ?_
    intro path span hspan
    have hroot : d.locate path = some (d.before.length + span.1, d.before.length + span.2) := by
      rw [locate, hspan]
      rfl
    rw [hplaces path _ hroot, Nat.add_assoc, Nat.add_assoc]
  rw [Json.read, (h.retext texts offset).read, ← hvalue]
  rfl

end Document

end Json

end GameText
