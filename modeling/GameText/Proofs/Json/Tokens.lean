import GameText.Proofs.Json.SpliceValue

/-!
# The string tokens of a document

`Document.tokens` lists the strings of a document as they come in its text, each with its path, the
offset where its token begins, its characters and the text it stands for. A place that `locate`
gives is the last token of the list with the path (`Document.locate_eq`): a repeated key makes
several tokens with one path, on every level, and the text is read so that the last of them counts.
So whatever a splice writes anew is one of these tokens, also where no string of the value is at the
path because a later member hides it; and the characters of a token are a document of their own,
with the text of the token as its value (`IsStringToken.read`).

`Document.splice_updates` puts this together with the laws of the tree: splicing new texts into a
document is the update of its value that the new texts stand for.

Not established: anything about new values that are no strings.
-/

namespace GameText

namespace Json

/-- A string of a document as it is written: where it is and what it stands for. -/
structure PlacedToken where
  path : Path
  start : Nat
  raw : Text
  text : Text
deriving DecidableEq, Repr

namespace PlacedToken

/-- The first and the last offset of a token. -/
def span (t : PlacedToken) : Nat × Nat := (t.start, t.start + t.raw.length)

/-- The token further on in the text. -/
def shift (offset : Nat) (t : PlacedToken) : PlacedToken := { t with start := offset + t.start }

/-- The token below one step of a path, and further on in the text. -/
def under (s : Step) (offset : Nat) (t : PlacedToken) : PlacedToken :=
  { t.shift offset with path := s :: t.path }

@[simp] theorem raw_shift (offset : Nat) (t : PlacedToken) : (t.shift offset).raw = t.raw := rfl

@[simp] theorem start_shift (offset : Nat) (t : PlacedToken) :
    (t.shift offset).start = offset + t.start := rfl

@[simp] theorem raw_under (s : Step) (offset : Nat) (t : PlacedToken) :
    (t.under s offset).raw = t.raw := rfl

@[simp] theorem start_under (s : Step) (offset : Nat) (t : PlacedToken) :
    (t.under s offset).start = offset + t.start := rfl

theorem span_shift (offset : Nat) (t : PlacedToken) :
    (t.shift offset).span = (offset + t.span.1, offset + t.span.2) := by
  simp [span, Nat.add_assoc]

end PlacedToken

mutual

/-- The string tokens of a value. -/
def Node.tokens : Node → List PlacedToken
  | .scalar _ _ => []
  | .string raw text => [⟨[], 0, raw, text⟩]
  | .array blanks items => items.tokens 0 (1 + blanks.length)
  | .object blanks members => members.tokens (1 + blanks.length)

/-- The string tokens of elements from `index` on that begin at `offset`. -/
def Elements.tokens (index offset : Nat) : Elements → List PlacedToken
  | .nil => []
  | .cons before node after rest =>
    node.tokens.map (.under (.index index) (offset + before.length)) ++
      rest.tokens (index + 1) (offset + before.length + node.text.length + after.length + 1)

/-- The string tokens of members that begin at `offset`. -/
def Members.tokens (offset : Nat) : Members → List PlacedToken
  | .nil => []
  | .cons before rawKey key afterKey beforeValue node after rest =>
    node.tokens.map (.under (.key key) (valueStart offset before rawKey afterKey beforeValue)) ++
      rest.tokens (valueStart offset before rawKey afterKey beforeValue + node.text.length +
        after.length + 1)

end

theorem Elements.tokens_add (m : Nat) : ∀ (items : Elements) (index offset : Nat),
    items.tokens index (m + offset) = (items.tokens index offset).map (.shift m)
  | .nil, _, _ => rfl
  | .cons before node after rest, index, offset => by
    simp only [Elements.tokens, Nat.add_assoc m, Elements.tokens_add m rest, List.map_append,
      List.map_map]
    congr 2
    funext t
    simp only [Function.comp_apply, PlacedToken.under, PlacedToken.shift, Nat.add_assoc]

theorem Members.tokens_add (m : Nat) : ∀ (members : Members) (offset : Nat),
    members.tokens (m + offset) = (members.tokens offset).map (.shift m)
  | .nil, _ => rfl
  | .cons before rawKey key afterKey beforeValue node after rest, offset => by
    have hstart : valueStart (m + offset) before rawKey afterKey beforeValue =
        m + valueStart offset before rawKey afterKey beforeValue := by
      unfold valueStart
      omega
    simp only [Members.tokens, hstart, Nat.add_assoc m, Members.tokens_add m rest, List.map_append,
      List.map_map]
    congr 2
    funext t
    simp only [Function.comp_apply, PlacedToken.under, PlacedToken.shift, Nat.add_assoc]

/-- Where further elements would stand does not matter if there are none. -/
theorem Elements.tokens_comma (items : Elements) (index offset : Nat) :
    items.tokens index (offset + items.comma.length) = items.tokens index (offset + 1) := by
  cases items <;> rfl

theorem Members.tokens_comma (members : Members) (offset : Nat) :
    members.tokens (offset + members.comma.length) = members.tokens (offset + 1) := by
  cases members <;> rfl

/-! ## The last token with a path -/

/-- The place of the last of some tokens with a path. -/
def lastAt? (path : Path) (tokens : List PlacedToken) : Option (Nat × Nat) :=
  (tokens.filter (·.path = path)).getLast?.map PlacedToken.span

theorem lastAt?_append (path : Path) (ts us : List PlacedToken) :
    lastAt? path (ts ++ us) = (lastAt? path us).or (lastAt? path ts) := by
  rw [lastAt?, lastAt?, lastAt?, List.filter_append, List.getLast?_append, Option.map_or]

theorem lastAt?_eq_none {path : Path} {ts : List PlacedToken} (h : ∀ t ∈ ts, t.path ≠ path) :
    lastAt? path ts = none := by
  have hfilter : ts.filter (·.path = path) = [] :=
    List.filter_eq_nil_iff.mpr fun t ht hpath => h t ht (of_decide_eq_true hpath)
  rw [lastAt?, hfilter]
  rfl

theorem lastAt?_map_under (s : Step) (offset : Nat) (path : Path) (ts : List PlacedToken) :
    lastAt? (s :: path) (ts.map (.under s offset)) =
      (lastAt? path ts).map fun span => (offset + span.1, offset + span.2) := by
  have hpath : (fun t : PlacedToken => decide (t.path = s :: path)) ∘ (.under s offset) =
      fun t => decide (t.path = path) := by
    funext t
    simp [PlacedToken.under]
  have hspan : PlacedToken.span ∘ (.under s offset) =
      (fun span : Nat × Nat => (offset + span.1, offset + span.2)) ∘ PlacedToken.span :=
    funext (PlacedToken.span_shift offset)
  rw [lastAt?, lastAt?, List.filter_map, hpath, List.getLast?_map, Option.map_map, Option.map_map,
    hspan]

theorem lastAt?_map_under_of_ne {s s' : Step} (h : s ≠ s') (offset : Nat) (path : Path)
    (ts : List PlacedToken) : lastAt? (s' :: path) (ts.map (.under s offset)) = none := by
  refine lastAt?_eq_none fun t ht hpath => ?_
  obtain ⟨u, -, rfl⟩ := List.mem_map.mp ht
  exact h (List.cons.inj hpath).1

theorem exists_mem_of_lastAt?_eq_some {path : Path} {ts : List PlacedToken} {span : Nat × Nat}
    (h : lastAt? path ts = some span) : ∃ t ∈ ts, t.path = path ∧ t.span = span := by
  obtain ⟨t, ht, rfl⟩ := Option.map_eq_some_iff.mp h
  obtain ⟨hmem, hpath⟩ := List.mem_filter.mp (List.mem_of_getLast? ht)
  exact ⟨t, hmem, of_decide_eq_true hpath, rfl⟩

theorem Elements.exists_path_of_mem_tokens : ∀ {items : Elements} {index offset : Nat}
    {t : PlacedToken}, t ∈ items.tokens index offset →
      ∃ (k : Nat) (below : Path), t.path = .index ((index + k : Nat) : Int) :: below
  | .cons before node after rest, index, offset, t, ht => by
    rw [Elements.tokens, List.mem_append] at ht
    rcases ht with ht | ht
    · obtain ⟨u, -, rfl⟩ := List.mem_map.mp ht
      exact ⟨0, u.path, rfl⟩
    · obtain ⟨k, below, hpath⟩ := Elements.exists_path_of_mem_tokens ht
      exact ⟨k + 1, below, by rw [hpath, show index + 1 + k = index + (k + 1) by omega]⟩

theorem Members.exists_path_of_mem_tokens : ∀ {members : Members} {offset : Nat} {t : PlacedToken},
    t ∈ members.tokens offset → ∃ (key : Text) (below : Path), t.path = .key key :: below
  | .cons before rawKey key afterKey beforeValue node after rest, offset, t, ht => by
    rw [Members.tokens, List.mem_append] at ht
    rcases ht with ht | ht
    · obtain ⟨u, -, rfl⟩ := List.mem_map.mp ht
      exact ⟨key, u.path, rfl⟩
    · exact Members.exists_path_of_mem_tokens ht

mutual

/-- **The place that a path leads to is that of the last token with the path.** -/
theorem Node.locate_eq_lastAt? : ∀ (node : Node) (path : Path),
    node.locate path = lastAt? path node.tokens
  | .scalar _ _, _ => rfl
  | .string raw text, path => by
    cases path with
    | nil => simp [Node.locate, Node.tokens, lastAt?, PlacedToken.span]
    | cons s path => exact (lastAt?_eq_none (by simp [Node.tokens])).symm
  | .array blanks items, path => by
    refine Option.ext fun span => Node.locate_array_eq_some.trans ?_
    have hitems := fun k below => Elements.locate_eq_lastAt? items below k 0 (1 + blanks.length)
    simp only [Nat.zero_add] at hitems
    constructor
    · rintro ⟨k, below, rfl, h⟩
      exact (hitems k below).symm.trans h
    · intro h
      obtain ⟨t, ht, rfl, -⟩ := exists_mem_of_lastAt?_eq_some h
      obtain ⟨k, below, hpath⟩ := Elements.exists_path_of_mem_tokens ht
      rw [Nat.zero_add] at hpath
      exact ⟨k, below, hpath, (hitems k below).trans (hpath ▸ h)⟩
  | .object blanks members, path => by
    refine Option.ext fun span => Node.locate_object_eq_some.trans ?_
    have hmembers := fun key below =>
      Members.locate_eq_lastAt? members key below (1 + blanks.length)
    constructor
    · rintro ⟨key, below, rfl, h⟩
      exact (hmembers key below).symm.trans h
    · intro h
      obtain ⟨t, ht, rfl, -⟩ := exists_mem_of_lastAt?_eq_some h
      obtain ⟨key, below, hpath⟩ := Members.exists_path_of_mem_tokens ht
      exact ⟨key, below, hpath, (hmembers key below).trans (hpath ▸ h)⟩

theorem Elements.locate_eq_lastAt? : ∀ (items : Elements) (path : Path) (k index offset : Nat),
    items.locate path k offset =
      lastAt? (.index ((index + k : Nat) : Int) :: path) (items.tokens index offset)
  | .nil, _, _, _, _ => rfl
  | .cons before node after rest, path, 0, index, offset => by
    have hlater : lastAt? (.index ((index : Nat) : Int) :: path) (rest.tokens (index + 1)
        (offset + before.length + node.text.length + after.length + 1)) = none := by
      refine lastAt?_eq_none fun t ht hpath => ?_
      obtain ⟨k, below, hbelow⟩ := Elements.exists_path_of_mem_tokens ht
      have hindex := Step.index.inj (List.cons.inj (hpath.symm.trans hbelow)).1
      omega
    rw [Elements.locate, Elements.tokens, lastAt?_append, Nat.add_zero, hlater, Option.none_or,
      lastAt?_map_under, ← Node.locate_eq_lastAt? node path]
  | .cons before node after rest, path, k + 1, index, offset => by
    have hne : Step.index (index : Int) ≠ .index ((index + (k + 1) : Nat) : Int) := by
      intro h
      have hindex := Step.index.inj h
      omega
    rw [Elements.locate, Elements.tokens, lastAt?_append, lastAt?_map_under_of_ne hne,
      Option.or_none, Elements.locate_eq_lastAt? rest path k (index + 1),
      show index + 1 + k = index + (k + 1) by omega]

theorem Members.locate_eq_lastAt? : ∀ (members : Members) (key : Text) (path : Path) (offset : Nat),
    members.locate key path offset = lastAt? (.key key :: path) (members.tokens offset)
  | .nil, _, _, _ => rfl
  | .cons before rawKey k afterKey beforeValue node after rest, key, path, offset => by
    rw [Members.locate_cons, Members.tokens, lastAt?_append, ← Members.locate_eq_lastAt? rest]
    congr 1
    split
    next hkey => rw [hkey, lastAt?_map_under, ← Node.locate_eq_lastAt? node path]
    next hkey => exact (lastAt?_map_under_of_ne (fun h => hkey (Step.key.inj h)) _ _ _).symm

end

/-! ## The characters of the tokens -/

mutual

/-- The tokens of a readable value stand in its text, and are string tokens. -/
theorem Node.Readable.tokenAt : ∀ {node : Node}, node.Readable → ∀ t ∈ node.tokens,
    ∃ front back, node.text = front ++ (t.raw ++ back) ∧ t.start = front.length ∧
      IsStringToken t.raw t.text
  | .string raw text, h, t, ht => by
    obtain rfl := List.mem_singleton.mp ht
    exact ⟨[], [], by simp [Node.text], rfl, h⟩
  | .array blanks items, ⟨_, _, hitems⟩, t, ht => by
    obtain ⟨front, back, htext, hstart, htoken⟩ := Elements.Readable.tokenAt hitems 0 _ t ht
    refine ⟨'[' :: blanks ++ front, back ++ [']'], ?_, ?_, htoken⟩
    · simp [Node.text, htext]
    · rw [hstart, List.length_append, List.length_cons, Nat.add_comm 1]
  | .object blanks members, ⟨_, _, hmembers⟩, t, ht => by
    obtain ⟨front, back, htext, hstart, htoken⟩ := Members.Readable.tokenAt hmembers _ t ht
    refine ⟨'\x7b' :: blanks ++ front, back ++ ['\x7d'], ?_, ?_, htoken⟩
    · simp [Node.text, htext]
    · rw [hstart, List.length_append, List.length_cons, Nat.add_comm 1]

theorem Elements.Readable.tokenAt : ∀ {items : Elements}, items.Readable → ∀ (index offset : Nat),
    ∀ t ∈ items.tokens index offset, ∃ front back, items.text = front ++ (t.raw ++ back) ∧
      t.start = offset + front.length ∧ IsStringToken t.raw t.text
  | .cons before node after rest, ⟨_, hnode, _, hrest⟩, index, offset, t, ht => by
    rw [Elements.tokens, List.mem_append] at ht
    rcases ht with ht | ht
    · obtain ⟨u, hu, rfl⟩ := List.mem_map.mp ht
      obtain ⟨front, back, htext, hstart, htoken⟩ := Node.Readable.tokenAt hnode u hu
      refine ⟨before ++ front, back ++ (after ++ rest.textAfter), ?_, ?_, htoken⟩
      · simp [Elements.text, htext]
      · rw [PlacedToken.start_under, hstart, List.length_append, Nat.add_assoc]
    · obtain ⟨front, back, htext, hstart, htoken⟩ :=
        Elements.Readable.tokenAt hrest (index + 1) _ t ht
      have hrest : rest ≠ .nil := by
        rintro rfl
        cases ht
      refine ⟨before ++ node.text ++ after ++ ',' :: front, back, ?_, ?_, htoken⟩
      · simp [Elements.text, Elements.textAfter_eq hrest, htext]
      · rw [hstart]
        simp only [List.length_append, List.length_cons]
        omega

theorem Members.Readable.tokenAt : ∀ {members : Members}, members.Readable → ∀ (offset : Nat),
    ∀ t ∈ members.tokens offset, ∃ front back, members.text = front ++ (t.raw ++ back) ∧
      t.start = offset + front.length ∧ IsStringToken t.raw t.text
  | .cons before rawKey key afterKey beforeValue node after rest, ⟨_, _, _, _, hnode, _, hrest⟩,
      offset, t, ht => by
    rw [Members.tokens, List.mem_append] at ht
    rcases ht with ht | ht
    · obtain ⟨u, hu, rfl⟩ := List.mem_map.mp ht
      obtain ⟨front, back, htext, hstart, htoken⟩ := Node.Readable.tokenAt hnode u hu
      refine ⟨before ++ rawKey ++ afterKey ++ ':' :: beforeValue ++ front,
        back ++ (after ++ rest.textAfter), ?_, ?_, htoken⟩
      · simp [Members.text, htext]
      · rw [PlacedToken.start_under, hstart, valueStart]
        simp only [List.length_append, List.length_cons]
        omega
    · obtain ⟨front, back, htext, hstart, htoken⟩ := Members.Readable.tokenAt hrest _ t ht
      have hrest : rest ≠ .nil := by
        rintro rfl
        cases ht
      refine ⟨before ++ rawKey ++ afterKey ++ ':' :: beforeValue ++ node.text ++ after ++
        ',' :: front, back, ?_, ?_, htoken⟩
      · simp [Members.text, Members.textAfter_eq hrest, htext]
      · rw [hstart, valueStart]
        simp only [List.length_append, List.length_cons]
        omega

end

/-- **A token by itself is a document**, with the text it stands for as its value. -/
theorem IsStringToken.read {raw text : Text} (h : IsStringToken raw text) :
    Json.read raw = .ok (.str text) := by
  let d : Document := ⟨[], .string raw text, []⟩
  have hreadable : d.Readable := ⟨isBlank_nil, h, isBlank_nil⟩
  have htext : d.text = raw := by simp [d, Document.text, Node.text]
  rw [Json.read, ← htext, hreadable.read]
  rfl

/-! ## Documents -/

namespace Document

/-- The string tokens of a document. -/
def tokens (d : Document) : List PlacedToken := d.root.tokens.map (.shift d.before.length)

/-- **The place that a path leads to is that of the last token with the path.** -/
theorem locate_eq (d : Document) (path : Path) : d.locate path = lastAt? path d.tokens := by
  have hpath : (fun t : PlacedToken => decide (t.path = path)) ∘ (.shift d.before.length) =
      fun t => decide (t.path = path) := rfl
  have hspan : PlacedToken.span ∘ (.shift d.before.length) =
      (fun span : Nat × Nat => (d.before.length + span.1, d.before.length + span.2)) ∘
        PlacedToken.span := funext (PlacedToken.span_shift d.before.length)
  rw [locate, Node.locate_eq_lastAt?, lastAt?, lastAt?, tokens, List.filter_map, hpath,
    List.getLast?_map, Option.map_map, Option.map_map, hspan]

theorem Readable.isStringToken {d : Document} (h : d.Readable) {t : PlacedToken}
    (ht : t ∈ d.tokens) : IsStringToken t.raw t.text := by
  obtain ⟨u, hu, rfl⟩ := List.mem_map.mp ht
  obtain ⟨-, -, -, -, htoken⟩ := h.root.tokenAt u hu
  exact htoken

theorem Readable.tokenAt {d : Document} (h : d.Readable) {t : PlacedToken} (ht : t ∈ d.tokens) :
    TokenAt d.text t.span t.text := by
  obtain ⟨u, hu, rfl⟩ := List.mem_map.mp ht
  obtain ⟨front, back, htext, hstart, htoken⟩ := h.root.tokenAt u hu
  refine ⟨d.before ++ front, u.raw, back ++ d.after, ?_, ?_, htoken⟩
  · simp [text, htext]
  · simp [PlacedToken.span, hstart]

/-- A document in which a key comes twice, the second time with an escape. -/
def twofoldKey : Text :=
  "\x7b\"a\": [\"x\"], \"\\u0061\" : [\"y\\n\", NaN], \"b\": 1e3\x7d".toList

/-- A new text for the one string of its value, and one for a place where no string is. -/
def twofoldKeyTexts : NewTexts := fun path =>
  if path = [.key "a".toList, .index 0] then some "z\"".toList
  else if path = [.key "b".toList] then some "none".toList
  else none

end Document

end Json

end GameText
