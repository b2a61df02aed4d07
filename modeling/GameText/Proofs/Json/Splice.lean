import GameText.Proofs.Json.Leaves
import GameText.Proofs.Json.Reading
import GameText.Proofs.Text.Replacement

/-!
# Strings of a document written anew: the characters

`NewTexts` names new texts for the strings at some paths of a document. The tree with the new texts
is readable (`Node.Readable.splice`), and its text is the text of the document in which the string
tokens at those paths, and nothing else, are replaced by the tokens that `quote` writes
(`Document.splice_text`). The places are those that `locate` finds: of several strings at one path,
when a key is repeated, the last.
-/

namespace GameText

namespace Json

open Text (Stretch)

/-- New texts for the strings at some of the paths of a document. -/
abbrev NewTexts := Path → Option Text

namespace NewTexts

/-- The new texts as changes of a tree. -/
def changes (texts : NewTexts) : Changes := fun path => (texts path).map .str

/-- What becomes of the string at a path. -/
def edit (texts : NewTexts) (path : Path) (old : Text) : Text := (texts path).getD old

/-- The new texts below one step of a path. -/
def below (texts : NewTexts) (s : Step) : NewTexts := fun path => texts (s :: path)

/-- The new texts below a key, less those for strings of a later member with the key. -/
def notHidden (texts : NewTexts) (key : Text) (later : Members) : NewTexts := fun path =>
  if (later.locate key path 0).isSome then none else texts (.key key :: path)

theorem changes_below (texts : NewTexts) (s : Step) :
    texts.changes.below s = (texts.below s).changes := rfl

theorem changes_notHidden (texts : NewTexts) (key : Text) (later : Members) :
    texts.changes.notHidden key later = (texts.notHidden key later).changes := by
  funext path
  simp only [Changes.notHidden, changes, notHidden]
  split
  next => rfl
  next => rfl

theorem notHidden_eq_some {texts : NewTexts} {key : Text} {later : Members} {path : Path}
    {new : Text} : texts.notHidden key later path = some new ↔
      (later.locate key path 0).isSome = false ∧ texts (.key key :: path) = some new := by
  unfold notHidden
  split
  next h => simp [h]
  next h => simp [h]

end NewTexts

/-! ## The tree stays readable -/

mutual

theorem Node.Readable.splice (texts : NewTexts) : ∀ {node : Node}, node.Readable →
    (node.splice texts.changes).Readable
  | .scalar _ _, h => h
  | .string raw text, h => by
    simp only [Node.splice, NewTexts.changes]
    cases texts [] with
    | none => exact h
    | some new => exact isStringToken_quote new
  | .array blanks items, ⟨hblanks, hempty, hitems⟩ => by
    refine ⟨hblanks, ?_, Elements.Readable.splice texts 0 hitems⟩
    rcases hempty with rfl | h
    · exact Or.inl rfl
    · exact Or.inr h
  | .object blanks members, ⟨hblanks, hempty, hmembers⟩ => by
    refine ⟨hblanks, ?_, Members.Readable.splice texts hmembers⟩
    rcases hempty with rfl | h
    · exact Or.inl rfl
    · exact Or.inr h

theorem Elements.Readable.splice (texts : NewTexts) (index : Nat) : ∀ {items : Elements},
    items.Readable → (items.splice texts.changes index).Readable
  | .nil, _ => trivial
  | .cons _ _ _ _, ⟨hbefore, hnode, hafter, hrest⟩ =>
    ⟨hbefore, Node.Readable.splice (texts.below (.index index)) hnode, hafter,
      Elements.Readable.splice texts (index + 1) hrest⟩

theorem Members.Readable.splice (texts : NewTexts) : ∀ {members : Members}, members.Readable →
    (members.splice texts.changes).Readable
  | .nil, _ => trivial
  | .cons _ _ key _ _ _ _ rest,
      ⟨hbefore, hkey, hafterKey, hbeforeValue, hnode, hafter, hrest⟩ => by
    refine ⟨hbefore, hkey, hafterKey, hbeforeValue, ?_, hafter,
      Members.Readable.splice texts hrest⟩
    rw [NewTexts.changes_notHidden]
    exact Node.Readable.splice (texts.notHidden key rest) hnode

end

/-! ## The characters -/

/-- The comma before further elements. -/
def Elements.comma : Elements → Text
  | .nil => []
  | .cons _ _ _ _ => [',']

/-- The comma before further members. -/
def Members.comma : Members → Text
  | .nil => []
  | .cons _ _ _ _ _ _ _ _ => [',']

theorem Elements.textAfter_eq_comma (items : Elements) :
    items.textAfter = items.comma ++ items.text := by
  cases items with
  | nil => rfl
  | cons => exact Elements.textAfter_eq fun h => (nomatch h)

theorem Members.textAfter_eq_comma (members : Members) :
    members.textAfter = members.comma ++ members.text := by
  cases members with
  | nil => rfl
  | cons => exact Members.textAfter_eq fun h => (nomatch h)

mutual

/-- A tree in stretches: each string at a path with a new text is one that is written anew. -/
def Node.stretches (texts : NewTexts) : Node → List Stretch
  | .scalar raw _ => [⟨raw, none⟩]
  | .string raw _ => [⟨raw, (texts []).map quote⟩]
  | .array blanks items =>
    ⟨'[' :: blanks, none⟩ :: (items.stretches texts 0 ++ [⟨[']'], none⟩])
  | .object blanks members =>
    ⟨'\x7b' :: blanks, none⟩ :: (members.stretches texts ++ [⟨['\x7d'], none⟩])

/-- Elements in stretches, from `index` on. -/
def Elements.stretches (texts : NewTexts) (index : Nat) : Elements → List Stretch
  | .nil => []
  | .cons before node after rest =>
    ⟨before, none⟩ :: (node.stretches (texts.below (.index index)) ++
      ⟨after ++ rest.comma, none⟩ :: rest.stretches texts (index + 1))

/-- Members in stretches. -/
def Members.stretches (texts : NewTexts) : Members → List Stretch
  | .nil => []
  | .cons before rawKey key afterKey beforeValue node after rest =>
    ⟨before ++ rawKey ++ afterKey ++ ':' :: beforeValue, none⟩ ::
      (node.stretches (texts.notHidden key rest) ++
        ⟨after ++ rest.comma, none⟩ :: rest.stretches texts)

end

mutual

theorem Node.stretches_raw (texts : NewTexts) : ∀ node : Node,
    (node.stretches texts).flatMap Stretch.raw = node.text
  | .scalar raw _ => by simp [Node.stretches, Node.text]
  | .string raw _ => by simp [Node.stretches, Node.text]
  | .array blanks items => by
    simp [Node.stretches, Node.text, Elements.stretches_raw texts 0 items]
  | .object blanks members => by
    simp [Node.stretches, Node.text, Members.stretches_raw texts members]

theorem Elements.stretches_raw (texts : NewTexts) (index : Nat) : ∀ items : Elements,
    (items.stretches texts index).flatMap Stretch.raw = items.text
  | .nil => rfl
  | .cons before node after rest => by
    simp [Elements.stretches, Elements.text, Elements.textAfter_eq_comma,
      Node.stretches_raw (texts.below (.index index)) node,
      Elements.stretches_raw texts (index + 1) rest]

theorem Members.stretches_raw (texts : NewTexts) : ∀ members : Members,
    (members.stretches texts).flatMap Stretch.raw = members.text
  | .nil => rfl
  | .cons before rawKey key afterKey beforeValue node after rest => by
    simp [Members.stretches, Members.text, Members.textAfter_eq_comma,
      Node.stretches_raw (texts.notHidden key rest) node, Members.stretches_raw texts rest]

end

mutual

theorem Node.stretches_written (texts : NewTexts) : ∀ node : Node,
    (node.stretches texts).flatMap Stretch.written = (node.splice texts.changes).text
  | .scalar raw _ => by simp [Node.stretches, Stretch.written, Node.splice, Node.text]
  | .string raw _ => by
    simp only [Node.stretches, Node.splice, NewTexts.changes]
    cases texts [] <;> simp [Stretch.written, Node.ofValue, Node.text]
  | .array blanks items => by
    simp [Node.stretches, Stretch.written, Node.splice, Node.text,
      Elements.stretches_written texts 0 items]
  | .object blanks members => by
    simp [Node.stretches, Stretch.written, Node.splice, Node.text,
      Members.stretches_written texts members]

theorem Elements.stretches_written (texts : NewTexts) (index : Nat) : ∀ items : Elements,
    (items.stretches texts index).flatMap Stretch.written = (items.splice texts.changes index).text
  | .nil => rfl
  | .cons before node after rest => by
    have hcomma : (rest.splice texts.changes (index + 1)).comma = rest.comma := by
      cases rest <;> rfl
    have hnode := Node.stretches_written (texts.below (.index index)) node
    have hrest := Elements.stretches_written texts (index + 1) rest
    simp [Elements.stretches, Stretch.written, Elements.splice, Elements.text,
      Elements.textAfter_eq_comma, hcomma, hrest, hnode, NewTexts.changes_below]

theorem Members.stretches_written (texts : NewTexts) : ∀ members : Members,
    (members.stretches texts).flatMap Stretch.written = (members.splice texts.changes).text
  | .nil => rfl
  | .cons before rawKey key afterKey beforeValue node after rest => by
    have hcomma : (rest.splice texts.changes).comma = rest.comma := by
      cases rest <;> rfl
    have hnode := Node.stretches_written (texts.notHidden key rest) node
    have hrest := Members.stretches_written texts rest
    simp [Members.stretches, Stretch.written, Members.splice, Members.text,
      Members.textAfter_eq_comma, hcomma, hrest, hnode, NewTexts.changes_notHidden]

end

theorem IsStringToken.ne_nil {raw text : Text} (h : IsStringToken raw text) : raw ≠ [] := by
  obtain ⟨written, rfl, -⟩ := h
  exact List.cons_ne_nil _ _

mutual

theorem Node.Readable.ne_nil_of_mem_stretches (texts : NewTexts) : ∀ {node : Node}, node.Readable →
    ∀ s ∈ node.stretches texts, s.new?.isSome → s.raw ≠ []
  | .scalar raw _, _, s, hs, hnew => by
    obtain rfl := List.mem_singleton.mp hs
    cases hnew
  | .string raw _, h, s, hs, _ => by
    obtain rfl := List.mem_singleton.mp hs
    exact IsStringToken.ne_nil h
  | .array blanks items, ⟨_, _, hitems⟩, s, hs, hnew => by
    simp only [Node.stretches, List.mem_cons, List.mem_append, List.not_mem_nil, or_false] at hs
    rcases hs with rfl | hs | rfl
    · cases hnew
    · exact Elements.Readable.ne_nil_of_mem_stretches texts 0 hitems s hs hnew
    · cases hnew
  | .object blanks members, ⟨_, _, hmembers⟩, s, hs, hnew => by
    simp only [Node.stretches, List.mem_cons, List.mem_append, List.not_mem_nil, or_false] at hs
    rcases hs with rfl | hs | rfl
    · cases hnew
    · exact Members.Readable.ne_nil_of_mem_stretches texts hmembers s hs hnew
    · cases hnew

theorem Elements.Readable.ne_nil_of_mem_stretches (texts : NewTexts) (index : Nat) :
    ∀ {items : Elements}, items.Readable →
      ∀ s ∈ items.stretches texts index, s.new?.isSome → s.raw ≠ []
  | .nil, _, s, hs, _ => nomatch hs
  | .cons _ _ _ _, ⟨_, hnode, _, hrest⟩, s, hs, hnew => by
    simp only [Elements.stretches, List.mem_cons, List.mem_append] at hs
    rcases hs with rfl | hs | rfl | hs
    · cases hnew
    · exact Node.Readable.ne_nil_of_mem_stretches _ hnode s hs hnew
    · cases hnew
    · exact Elements.Readable.ne_nil_of_mem_stretches texts (index + 1) hrest s hs hnew

theorem Members.Readable.ne_nil_of_mem_stretches (texts : NewTexts) : ∀ {members : Members},
    members.Readable → ∀ s ∈ members.stretches texts, s.new?.isSome → s.raw ≠ []
  | .nil, _, s, hs, _ => nomatch hs
  | .cons _ _ _ _ _ _ _ _, ⟨_, _, _, _, hnode, _, hrest⟩, s, hs, hnew => by
    simp only [Members.stretches, List.mem_cons, List.mem_append] at hs
    rcases hs with rfl | hs | rfl | hs
    · cases hnew
    · exact Node.Readable.ne_nil_of_mem_stretches _ hnode s hs hnew
    · cases hnew
    · exact Members.Readable.ne_nil_of_mem_stretches texts hrest s hs hnew

end

/-! ## The places of the strings -/

theorem Elements.locate_add (path : Path) (m : Nat) : ∀ (items : Elements) (k offset : Nat),
    items.locate path k (m + offset) =
      (items.locate path k offset).map fun span => (m + span.1, m + span.2)
  | .nil, _, _ => rfl
  | .cons before node after rest, 0, offset => by
    simp only [Elements.locate, Option.map_map]
    congr 1
    funext span
    simp only [Function.comp_apply, Nat.add_assoc]
  | .cons before node after rest, k + 1, offset => by
    simp only [Elements.locate, ← Elements.locate_add path m rest, Nat.add_assoc]

/-- Where the value of the first of some members begins. -/
def valueStart (offset : Nat) (before rawKey afterKey beforeValue : Text) : Nat :=
  offset + before.length + rawKey.length + afterKey.length + 1 + beforeValue.length

theorem Members.locate_cons {before rawKey k afterKey beforeValue after key : Text} {node : Node}
    {rest : Members} {path : Path} {offset : Nat} :
    (Members.cons before rawKey k afterKey beforeValue node after rest).locate key path offset =
      (rest.locate key path (valueStart offset before rawKey afterKey beforeValue +
        node.text.length + after.length + 1)).or
      (if k = key then (node.locate path).map fun inner =>
        (valueStart offset before rawKey afterKey beforeValue + inner.1,
          valueStart offset before rawKey afterKey beforeValue + inner.2)
      else none) := by
  rw [Members.locate]
  unfold valueStart
  cases rest.locate key path (offset + before.length + rawKey.length + afterKey.length + 1 +
      beforeValue.length + node.text.length + after.length + 1) with
  | none => rfl
  | some span => rfl

theorem Members.locate_add (key : Text) (path : Path) (m : Nat) : ∀ (members : Members)
    (offset : Nat), members.locate key path (m + offset) =
      (members.locate key path offset).map fun span => (m + span.1, m + span.2)
  | .nil, _ => rfl
  | .cons before rawKey k afterKey beforeValue node after rest, offset => by
    have hstart : valueStart (m + offset) before rawKey afterKey beforeValue =
        m + valueStart offset before rawKey afterKey beforeValue := by
      unfold valueStart
      omega
    simp only [Members.locate_cons, hstart, Nat.add_assoc m, Members.locate_add key path m rest,
      Option.map_or]
    congr 1
    split
    next => simp only [Option.map_map, Function.comp_def]
    next => rfl

theorem Members.isSome_locate (key : Text) (path : Path) (members : Members) (offset : Nat) :
    (members.locate key path offset).isSome = (members.locate key path 0).isSome := by
  rw [← Nat.add_zero offset, Members.locate_add, Option.isSome_map]

/-- Where further elements stand does not depend on the comma if there are none. -/
theorem Elements.locate_comma (path : Path) (items : Elements) (k offset : Nat) :
    items.locate path k (offset + items.comma.length) = items.locate path k (offset + 1) := by
  cases items <;> rfl

theorem Members.locate_comma (key : Text) (path : Path) (members : Members) (offset : Nat) :
    members.locate key path (offset + members.comma.length) =
      members.locate key path (offset + 1) := by
  cases members <;> rfl

/-- A string below a key is in the last member with the key. -/
theorem Members.locate_cons_eq_some {before rawKey k afterKey beforeValue after key : Text}
    {node : Node} {rest : Members} {path : Path} {offset : Nat} {span : Nat × Nat} :
    (Members.cons before rawKey k afterKey beforeValue node after rest).locate key path offset =
        some span ↔
      rest.locate key path (valueStart offset before rawKey afterKey beforeValue +
        node.text.length + after.length + 1) = some span ∨
      k = key ∧ (rest.locate key path 0).isSome = false ∧ ∃ inner, node.locate path = some inner ∧
        span = (valueStart offset before rawKey afterKey beforeValue + inner.1,
          valueStart offset before rawKey afterKey beforeValue + inner.2) := by
  rw [← Members.isSome_locate key path rest (valueStart offset before rawKey afterKey beforeValue +
    node.text.length + after.length + 1), Members.locate_cons, Option.or_eq_some_iff,
    Option.isSome_eq_false_iff, Option.isNone_iff_eq_none]
  refine or_congr_right ?_
  by_cases hkey : k = key
  · simp only [hkey, if_true, true_and, Option.map_eq_some_iff, @eq_comm _ span]
  · simp only [hkey, if_false, false_and, and_false, reduceCtorEq]

theorem Members.replacements_cons (texts : NewTexts) (before rawKey key afterKey beforeValue : Text)
    (node : Node) (after : Text) (rest : Members) (offset : Nat) : Stretch.replacements offset
      ((Members.cons before rawKey key afterKey beforeValue node after rest).stretches texts) =
    Stretch.replacements (valueStart offset before rawKey afterKey beforeValue)
        (node.stretches (texts.notHidden key rest)) ++
      Stretch.replacements (valueStart offset before rawKey afterKey beforeValue +
        node.text.length + after.length + rest.comma.length) (rest.stretches texts) := by
  simp only [valueStart, Members.stretches, Stretch.replacements, Stretch.replacements_append,
    Node.stretches_raw, List.length_append, List.length_cons, Nat.add_assoc,
    Nat.add_comm beforeValue.length 1]

theorem Elements.replacements_cons (texts : NewTexts) (before : Text) (node : Node) (after : Text)
    (rest : Elements) (index offset : Nat) : Stretch.replacements offset
      ((Elements.cons before node after rest).stretches texts index) =
    Stretch.replacements (offset + before.length) (node.stretches (texts.below (.index index))) ++
      Stretch.replacements (offset + before.length + node.text.length + after.length +
        rest.comma.length) (rest.stretches texts (index + 1)) := by
  simp only [Elements.stretches, Stretch.replacements, Stretch.replacements_append,
    Node.stretches_raw, List.length_append, Nat.add_assoc]

/-- A path leads below an array by an index that is not negative. -/
theorem Node.locate_array_eq_some {blanks : Text} {items : Elements} {path : Path}
    {span : Nat × Nat} : (Node.array blanks items).locate path = some span ↔
      ∃ (k : Nat) (below : Path), path = .index k :: below ∧
        items.locate below k (1 + blanks.length) = some span := by
  unfold Node.locate
  constructor
  · intro h
    split at h
    next i below =>
      split at h
      next => cases h
      next hi =>
        obtain ⟨k, rfl⟩ := Int.eq_ofNat_of_zero_le (Int.not_lt.mp hi)
        exact ⟨k, below, rfl, h⟩
    next => cases h
  · rintro ⟨k, below, rfl, h⟩
    have hpos : ¬ (k : Int) < 0 := by omega
    simp only [hpos, if_false, Int.toNat_natCast]
    exact h

theorem Node.locate_object_eq_some {blanks : Text} {members : Members} {path : Path}
    {span : Nat × Nat} : (Node.object blanks members).locate path = some span ↔
      ∃ (key : Text) (below : Path), path = .key key :: below ∧
        members.locate key below (1 + blanks.length) = some span := by
  unfold Node.locate
  constructor
  · intro h
    split at h
    next key below => exact ⟨key, below, rfl, h⟩
    next => cases h
  · rintro ⟨key, below, rfl, h⟩
    exact h

/-- A string is replaced if the empty path has a new text. -/
theorem Node.mem_replacements_string (texts : NewTexts) (raw text : Text) {offset : Nat}
    {r : Replacement} :
    r ∈ Stretch.replacements offset ((Node.string raw text).stretches texts) ↔
      ∃ path new span, texts path = some new ∧ (Node.string raw text).locate path = some span ∧
        r = ⟨offset + span.1, offset + span.2, quote new⟩ := by
  simp only [Node.stretches, Node.locate]
  cases hnew : texts [] with
  | none =>
    simp only [Option.map_none, Stretch.replacements, List.not_mem_nil, false_iff]
    rintro ⟨path, new, span, hpath, hspan, -⟩
    cases path with
    | nil =>
      rw [hnew] at hpath
      cases hpath
    | cons => cases hspan
  | some new =>
    simp only [Option.map_some, Stretch.replacements, List.mem_singleton]
    constructor
    · rintro rfl
      exact ⟨[], new, (0, raw.length), hnew, rfl, rfl⟩
    · rintro ⟨path, new', span, hpath, hspan, rfl⟩
      cases path with
      | nil =>
        rw [hnew] at hpath
        cases hpath
        cases hspan
        rfl
      | cons => cases hspan

mutual

/-- The replacements of a tree are at the places of the strings with a new text. -/
theorem Node.mem_replacements_stretches (texts : NewTexts) : ∀ (node : Node) {offset : Nat}
    {r : Replacement}, r ∈ Stretch.replacements offset (node.stretches texts) ↔
      ∃ path text span, texts path = some text ∧ node.locate path = some span ∧
        r = ⟨offset + span.1, offset + span.2, quote text⟩
  | .scalar raw _, offset, r => by
    simp [Node.stretches, Stretch.replacements, Node.locate]
  | .string raw text, offset, r => Node.mem_replacements_string texts raw text
  | .array blanks items, offset, r => by
    rw [Node.stretches, Stretch.replacements_enclosed, List.length_cons, Nat.add_comm _ 1,
      Elements.mem_replacements_stretches texts 0 items]
    simp only [Elements.locate_add, Option.map_eq_some_iff, Node.locate_array_eq_some]
    constructor
    · rintro ⟨k, path, text, _, hnew, ⟨span, hspan, rfl⟩, rfl⟩
      rw [Nat.zero_add] at hnew
      exact ⟨.index k :: path, text, span, hnew, ⟨k, path, rfl, hspan⟩, rfl⟩
    · rintro ⟨_, text, span, hnew, ⟨k, path, rfl, hspan⟩, rfl⟩
      rw [← Nat.zero_add k] at hnew
      exact ⟨k, path, text, _, hnew, ⟨span, hspan, rfl⟩, rfl⟩
  | .object blanks members, offset, r => by
    rw [Node.stretches, Stretch.replacements_enclosed, List.length_cons, Nat.add_comm _ 1,
      Members.mem_replacements_stretches texts members]
    simp only [Members.locate_add, Option.map_eq_some_iff, Node.locate_object_eq_some]
    constructor
    · rintro ⟨key, path, text, _, hnew, ⟨span, hspan, rfl⟩, rfl⟩
      exact ⟨.key key :: path, text, span, hnew, ⟨key, path, rfl, hspan⟩, rfl⟩
    · rintro ⟨_, text, span, hnew, ⟨key, path, rfl, hspan⟩, rfl⟩
      exact ⟨key, path, text, _, hnew, ⟨span, hspan, rfl⟩, rfl⟩

theorem Elements.mem_replacements_stretches (texts : NewTexts) (index : Nat) : ∀ (items : Elements)
    {offset : Nat} {r : Replacement},
    r ∈ Stretch.replacements offset (items.stretches texts index) ↔
      ∃ (k : Nat) (path : Path) (text : Text) (span : Nat × Nat),
        texts (.index ((index + k : Nat) : Int) :: path) = some text ∧
          items.locate path k offset = some span ∧ r = ⟨span.1, span.2, quote text⟩
  | .nil, offset, r => by
    simp [Elements.stretches, Stretch.replacements, Elements.locate]
  | .cons before node after rest, offset, r => by
    rw [Elements.replacements_cons, List.mem_append, Node.mem_replacements_stretches _ node,
      Elements.mem_replacements_stretches texts (index + 1) rest]
    simp only [Elements.locate_comma]
    constructor
    · rintro (⟨path, text, span, hnew, hspan, rfl⟩ | ⟨k, path, text, span, hnew, hspan, rfl⟩)
      · refine ⟨0, path, text,
          (offset + before.length + span.1, offset + before.length + span.2), hnew, ?_, rfl⟩
        simp only [Elements.locate, hspan]
        rfl
      · refine ⟨k + 1, path, text, span, ?_, hspan, rfl⟩
        rw [show index + (k + 1) = index + 1 + k by omega]
        exact hnew
    · rintro ⟨k, path, text, span, hnew, hspan, rfl⟩
      cases k with
      | zero =>
        obtain ⟨span', hspan', rfl⟩ := Option.map_eq_some_iff.mp hspan
        exact Or.inl ⟨path, text, span', hnew, hspan', rfl⟩
      | succ k =>
        refine Or.inr ⟨k, path, text, span, ?_, hspan, rfl⟩
        rw [show index + 1 + k = index + (k + 1) by omega]
        exact hnew

theorem Members.mem_replacements_stretches (texts : NewTexts) : ∀ (members : Members)
    {offset : Nat} {r : Replacement},
    r ∈ Stretch.replacements offset (members.stretches texts) ↔
      ∃ (key : Text) (path : Path) (text : Text) (span : Nat × Nat),
        texts (.key key :: path) = some text ∧ members.locate key path offset = some span ∧
          r = ⟨span.1, span.2, quote text⟩
  | .nil, offset, r => by
    simp [Members.stretches, Stretch.replacements, Members.locate]
  | .cons before rawKey key afterKey beforeValue node after rest, offset, r => by
    rw [Members.replacements_cons, List.mem_append, Node.mem_replacements_stretches _ node,
      Members.mem_replacements_stretches texts rest]
    simp only [Members.locate_comma, Members.locate_cons_eq_some]
    constructor
    · rintro (⟨path, text, span, hnew, hspan, rfl⟩ | ⟨k, path, text, span, hnew, hspan, rfl⟩)
      · obtain ⟨hlast, hnew⟩ := NewTexts.notHidden_eq_some.mp hnew
        exact ⟨key, path, text, _, hnew, Or.inr ⟨rfl, hlast, span, hspan, rfl⟩, rfl⟩
      · exact ⟨k, path, text, span, hnew, Or.inl hspan, rfl⟩
    · rintro ⟨k, path, text, _, hnew, hspan | ⟨rfl, hlast, span, hspan, rfl⟩, rfl⟩
      · exact Or.inr ⟨k, path, text, _, hnew, hspan, rfl⟩
      · exact Or.inl ⟨path, text, span, NewTexts.notHidden_eq_some.mpr ⟨hlast, hnew⟩, hspan, rfl⟩

end

/-! ## Documents -/

namespace Document

/-- The spans of the strings with a new text, each with its token. -/
def replacements (d : Document) (texts : NewTexts) : List Replacement :=
  Stretch.replacements d.before.length (d.root.stretches texts)

theorem mem_replacements {d : Document} {texts : NewTexts} {r : Replacement} :
    r ∈ d.replacements texts ↔ ∃ path text span, texts path = some text ∧
      d.locate path = some span ∧ r = ⟨span.1, span.2, quote text⟩ := by
  rw [replacements, Node.mem_replacements_stretches]
  constructor
  · rintro ⟨path, text, span, hnew, hspan, rfl⟩
    exact ⟨path, text, (d.before.length + span.1, d.before.length + span.2), hnew,
      by rw [locate, hspan]; rfl, rfl⟩
  · rintro ⟨path, text, span, hnew, hspan, rfl⟩
    obtain ⟨span', hspan', rfl⟩ := Option.map_eq_some_iff.mp hspan
    exact ⟨path, text, span', hnew, hspan', rfl⟩

theorem replacements_none (d : Document) : d.replacements (fun _ => none) = [] := by
  refine List.eq_nil_iff_forall_not_mem.mpr ?_
  intro r hr
  obtain ⟨path, text, span, hnew, -⟩ := mem_replacements.mp hr
  cases hnew

theorem replacements_pairwise {d : Document} (h : d.Readable) (texts : NewTexts) :
    (d.replacements texts).Pairwise fun a b => a.stop ≤ b.start :=
  Stretch.replacements_pairwise (h.root.ne_nil_of_mem_stretches texts)

/-- **Only the string tokens with a new text are replaced.** -/
theorem splice_text {d : Document} (h : d.Readable) (texts : NewTexts) :
    (d.splice texts.changes).text = d.text.replaceSpans (d.replacements texts) := by
  let ss : List Stretch := ⟨d.before, none⟩ :: (d.root.stretches texts ++ [⟨d.after, none⟩])
  have hne : ∀ s ∈ ss, s.new?.isSome → s.raw ≠ [] := by
    intro s hs hnew
    simp only [ss, List.mem_cons, List.mem_append, List.not_mem_nil, or_false] at hs
    rcases hs with rfl | hs | rfl
    · cases hnew
    · exact h.root.ne_nil_of_mem_stretches texts s hs hnew
    · cases hnew
  have hraw : ss.flatMap Stretch.raw = d.text := by
    simp [ss, Node.stretches_raw, text]
  have hwritten : ss.flatMap Stretch.written = (d.splice texts.changes).text := by
    simp [ss, Stretch.written, Node.stretches_written, splice, text]
  have hreplacements : Stretch.replacements 0 ss = d.replacements texts := by
    simp [ss, Stretch.replacements, Stretch.replacements_append, replacements]
  rw [← hwritten, ← hraw, ← hreplacements]
  exact (Text.replaceSpans_stretches hne).symm

/-- The document with new texts is readable. -/
theorem Readable.splice {d : Document} (h : d.Readable) (texts : NewTexts) :
    (d.splice texts.changes).Readable :=
  ⟨h.before, Node.Readable.splice texts h.root, h.after⟩

end Document

end Json

end GameText
