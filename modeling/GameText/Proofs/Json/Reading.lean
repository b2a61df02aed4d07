import GameText.Json.Reader
import GameText.Proofs.Json.NumberToken
import GameText.Proofs.Json.StringToken
import GameText.Proofs.Outcomes
import GameText.Text.Blank

/-!
# Trees read back

`Node.Readable` says of a tree that it could have been read: its blanks are blanks, its strings are
string tokens, and its numbers and words are read as such. The reader gives exactly the readable
trees, each with the text that it was read from (`Document.readable_of_read`), and reads the text of
a readable tree back (`Document.Readable.read`). So a tree that stays readable while some of its
strings are written anew has the value that its text has.

Not established: which refusal a text gets that is no document.
-/

namespace GameText

namespace Json

open Text (Stops stops_cons takeWhile_append_of_stops dropWhile_append_of_stops)

/-! ## Numbers and words -/

/-- A character that may stand behind a value. -/
def isDelimiter (c : Char) : Bool := isSpace c || c == ',' || c == ']' || c == '\x7d'

/-- A value that ends where the text begins has come to its end. -/
def Delimited (s : Text) : Prop := ∀ c ∈ s.head?, isDelimiter c = true

theorem delimited_cons {c : Char} {s : Text} : Delimited (c :: s) ↔ isDelimiter c = true := by
  simp only [Delimited, List.head?_cons, Option.mem_some_iff, forall_eq']

theorem Delimited.endsNumber {s : Text} (h : Delimited s) : EndsNumber s := by
  intro c hc
  have hdelimiter := h c hc
  simp only [isDelimiter, isSpace, Bool.or_eq_true, beq_iff_eq] at hdelimiter
  rcases hdelimiter with (((((rfl | rfl) | rfl) | rfl) | rfl) | rfl) | rfl <;> rfl

/-- The value is neither a string nor an array nor an object. -/
def isScalar : Json → Bool
  | .null | .bool _ | .num _ => true
  | .str _ | .arr _ | .obj _ => false

/-- A number or a word can begin with the character. -/
def startsScalar (c : Char) : Bool := c.isDigit || "-ntfNI".toList.contains c

/-- The characters are those of a number or a word, and stand for the value. -/
structure Scalar (raw : Text) (value : Json) : Prop where
  starts : ∃ c cs, raw = c :: cs ∧ startsScalar c = true
  reads : ∀ s, Delimited s → readScalar (raw ++ s) = .ok (.scalar raw value, s)
  isScalar : value.isScalar = true

theorem readWord_append {w : Text} {value : Json} (h : (w, value) ∈ words) (s : Text) :
    readWord (w ++ s) = some ((w, value), s) := by
  simp only [words, List.map_cons, List.map_nil, List.mem_cons, Prod.mk.injEq, List.not_mem_nil,
    or_false] at h
  rcases h with ⟨rfl, rfl⟩ | ⟨rfl, rfl⟩ | ⟨rfl, rfl⟩ | ⟨rfl, rfl⟩ | ⟨rfl, rfl⟩ | ⟨rfl, rfl⟩ <;> rfl

theorem readWord_eq_some {s rest w : Text} {value : Json}
    (h : readWord s = some ((w, value), rest)) : (w, value) ∈ words ∧ s = w ++ rest := by
  unfold readWord at h
  obtain ⟨⟨w', value'⟩, hmem, hfound⟩ := List.exists_of_findSome?_eq_some h
  obtain ⟨rest', hafter, heq⟩ := Option.map_eq_some_iff.mp hfound
  cases heq
  exact ⟨hmem, Text.after?_eq_some_iff.mp hafter⟩

/-- No word begins like a number. -/
theorem readWord_eq_none {t : NumberToken} (h : t.WellFormed) (s : Text) :
    readWord (t.raw ++ s) = none := by
  obtain ⟨negative, whole, fraction, exponent⟩ := t
  obtain ⟨c, cs, hwhole, hc⟩ := h.whole.exists_cons
  have hletter : ∀ d : Char, d.isDigit = false → c ≠ d := by
    intro d hd heq
    rw [heq, hd] at hc
    cases hc
  have hn := hletter 'n' rfl
  have ht := hletter 't' rfl
  have hf := hletter 'f' rfl
  have hN := hletter 'N' rfl
  have hI := hletter 'I' rfl
  have hdash := hletter '-' rfl
  dsimp only at hwhole
  cases negative <;>
    simp [readWord, words, NumberToken.raw, hwhole, Text.after?, hn, ht, hf, hN, hI, hdash]

theorem scalar_of_mem_words {w : Text} {value : Json} (h : (w, value) ∈ words) :
    Scalar w value := by
  have hreads : ∀ s, Delimited s → readScalar (w ++ s) = .ok (.scalar w value, s) := by
    intro s _
    rw [readScalar, readWord_append h]
  simp only [words, List.map_cons, List.map_nil, List.mem_cons, Prod.mk.injEq, List.not_mem_nil,
    or_false] at h
  rcases h with ⟨rfl, rfl⟩ | ⟨rfl, rfl⟩ | ⟨rfl, rfl⟩ | ⟨rfl, rfl⟩ | ⟨rfl, rfl⟩ | ⟨rfl, rfl⟩ <;>
    exact ⟨⟨_, _, rfl, by decide⟩, hreads, rfl⟩

theorem NumberToken.WellFormed.starts {t : NumberToken} (h : t.WellFormed) :
    ∃ c cs, t.raw = c :: cs ∧ startsScalar c = true := by
  obtain ⟨negative, whole, fraction, exponent⟩ := t
  obtain ⟨c, cs, hwhole, hc⟩ := h.whole.exists_cons
  dsimp only at hwhole
  cases negative with
  | true => exact ⟨'-', _, rfl, by decide⟩
  | false =>
    refine ⟨c, _, by rw [NumberToken.raw, hwhole]; rfl, ?_⟩
    rw [startsScalar, hc, Bool.true_or]

/-- A number is read back unless it is an integer with too many digits. -/
theorem NumberToken.WellFormed.scalar {t : NumberToken} (h : t.WellFormed)
    (hshort : ¬(t.isInteger && maxDigits < t.whole.length) = true) :
    Scalar t.raw (.num t.value) := by
  refine ⟨h.starts, ?_, rfl⟩
  intro s hs
  simp only [readScalar, readWord_eq_none h, h.readNumber hs.endsNumber, if_neg hshort]

/-- What is read as a number or a word is the beginning of the text. -/
theorem scalar_of_readScalar {s rest : Text} {node : Node} (h : readScalar s = .ok (node, rest)) :
    ∃ raw value, node = .scalar raw value ∧ Scalar raw value ∧ s = raw ++ rest := by
  unfold readScalar at h
  split at h
  next w value rest' hword =>
    cases h
    obtain ⟨hmem, hs⟩ := readWord_eq_some hword
    exact ⟨w, value, rfl, scalar_of_mem_words hmem, hs⟩
  next =>
    split at h
    next t rest' hnumber =>
      split at h
      next => cases h
      next hshort =>
        cases h
        obtain ⟨hformed, hs⟩ := wellFormed_of_readNumber hnumber
        exact ⟨t.raw, .num t.value, rfl, hformed.scalar hshort, hs⟩
    next => cases h

theorem Scalar.isScalarChar {raw : Text} {value : Json} (h : Scalar raw value) :
    ∀ c ∈ raw, isScalarChar c = true := by
  have hread := h.reads [] nofun
  rw [List.append_nil] at hread
  unfold readScalar at hread
  split at hread
  next w value' rest hword =>
    cases hread
    have hwords : words.all (fun entry => entry.1.all Json.isScalarChar) = true := by decide
    exact List.all_eq_true.mp (List.all_eq_true.mp hwords _ (readWord_eq_some hword).1)
  next =>
    split at hread
    next t rest hnumber =>
      split at hread
      next => cases hread
      next =>
        cases hread
        exact (wellFormed_of_readNumber hnumber).1.isScalarChar
    next => cases hread

theorem delimited_append {blanks s : Text} {c : Char} (hb : ∀ d ∈ blanks, isSpace d = true)
    (hc : isDelimiter c = true) : Delimited (blanks ++ c :: s) := by
  cases blanks with
  | nil => exact delimited_cons.mpr hc
  | cons d ds =>
    refine delimited_cons.mpr ?_
    simp only [isDelimiter, hb d List.mem_cons_self, Bool.true_or]

/-! ## Trees -/

/-- The text consists of blanks. -/
def IsBlank (s : Text) : Prop := ∀ c ∈ s, isSpace c = true

theorem isBlank_nil : IsBlank [] := nofun

theorem IsBlank.append {s t : Text} (hs : IsBlank s) (ht : IsBlank t) : IsBlank (s ++ t) :=
  List.forall_mem_append.mpr ⟨hs, ht⟩

theorem isBlank_of_isSpace {c : Char} (h : isSpace c = true) : isBlank c = true := by
  simp only [isSpace, Bool.or_eq_true, beq_iff_eq] at h
  rcases h with ((rfl | rfl) | rfl) | rfl <;> rfl

theorem exists_spaces (s : Text) :
    ∃ blanks rest, spaces s = (blanks, rest) ∧ IsBlank blanks ∧ s = blanks ++ rest :=
  ⟨_, _, rfl, fun c hc => List.all_eq_true.mp List.all_takeWhile c hc,
    List.takeWhile_append_dropWhile.symm⟩

theorem spaces_append {blanks s : Text} (hb : IsBlank blanks) (hs : Stops isSpace s) :
    spaces (blanks ++ s) = (blanks, s) := by
  rw [spaces, takeWhile_append_of_stops hb hs, dropWhile_append_of_stops hb hs]

mutual

/-- The tree could have been read. -/
def Node.Readable : Node → Prop
  | .scalar raw value => Scalar raw value
  | .string raw text => IsStringToken raw text
  | .array blanks items => IsBlank blanks ∧ (items = .nil ∨ blanks = []) ∧ items.Readable
  | .object blanks members => IsBlank blanks ∧ (members = .nil ∨ blanks = []) ∧ members.Readable

/-- The elements could have been read. -/
def Elements.Readable : Elements → Prop
  | .nil => True
  | .cons before node after rest => IsBlank before ∧ node.Readable ∧ IsBlank after ∧ rest.Readable

/-- The members could have been read. -/
def Members.Readable : Members → Prop
  | .nil => True
  | .cons before rawKey key afterKey beforeValue node after rest =>
    IsBlank before ∧ IsStringToken rawKey key ∧ IsBlank afterKey ∧ IsBlank beforeValue ∧
      node.Readable ∧ IsBlank after ∧ rest.Readable

end

/-- Further elements are written like the first ones, after a comma. -/
theorem Elements.textAfter_eq {items : Elements} (h : items ≠ .nil) :
    items.textAfter = ',' :: items.text := by
  cases items with
  | nil => exact absurd rfl h
  | cons => rw [Elements.textAfter, Elements.text]; simp

theorem Members.textAfter_eq {members : Members} (h : members ≠ .nil) :
    members.textAfter = ',' :: members.text := by
  cases members with
  | nil => exact absurd rfl h
  | cons => rw [Members.textAfter, Members.text]; simp

theorem isStringToken_of_readString {opened s rest : Text} {t : StringToken}
    (h : readString opened s = .ok (t, rest)) :
    IsStringToken t.raw t.text ∧ '"' :: s = t.raw ++ rest := by
  obtain ⟨hinside, rfl⟩ := inside_of_readString h
  exact ⟨⟨_, rfl, hinside⟩, rfl⟩

/-- What is read with the fuel as a value is readable, and is the beginning of the text. -/
def NodesSound (fuel : Nat) : Prop :=
  ∀ {s rest node}, readNode fuel s = .ok (node, rest) → node.Readable ∧ s = node.text ++ rest

def ElementsSound (fuel : Nat) : Prop :=
  ∀ {before s rest items}, readElements fuel before s = .ok (items, rest) → IsBlank before →
    items.Readable ∧ items ≠ .nil ∧ before ++ s = items.text ++ ']' :: rest

def MembersSound (fuel : Nat) : Prop :=
  ∀ {before s rest members}, readMembers fuel before s = .ok (members, rest) → IsBlank before →
    members.Readable ∧ members ≠ .nil ∧ before ++ s = members.text ++ '\x7d' :: rest

theorem nodesSound_succ {fuel : Nat} (ihElements : ElementsSound fuel)
    (ihMembers : MembersSound fuel) : NodesSound (fuel + 1) := by
  intro s rest node h
  unfold readNode at h
  split at h
  next cs =>
    obtain ⟨⟨t, rest'⟩, hread, hret⟩ := bind_eq_ok h
    cases hret
    obtain ⟨htoken, hs⟩ := isStringToken_of_readString hread
    exact ⟨htoken, hs⟩
  next cs =>
    obtain ⟨blanks, inside, hspaces, hblank, rfl⟩ := exists_spaces cs
    simp only [hspaces] at h
    split at h
    next =>
      cases h
      refine ⟨⟨hblank, Or.inl rfl, trivial⟩, ?_⟩
      simp [Node.text, Elements.text]
    next =>
      obtain ⟨⟨items, rest'⟩, hread, hret⟩ := bind_eq_ok h
      cases hret
      obtain ⟨hitems, -, htext⟩ := ihElements hread hblank
      refine ⟨⟨isBlank_nil, Or.inr rfl, hitems⟩, ?_⟩
      simp [Node.text, htext]
  next cs =>
    obtain ⟨blanks, inside, hspaces, hblank, rfl⟩ := exists_spaces cs
    simp only [hspaces] at h
    split at h
    next =>
      cases h
      refine ⟨⟨hblank, Or.inl rfl, trivial⟩, ?_⟩
      simp [Node.text, Members.text]
    next =>
      obtain ⟨⟨members, rest'⟩, hread, hret⟩ := bind_eq_ok h
      cases hret
      obtain ⟨hmembers, -, htext⟩ := ihMembers hread hblank
      refine ⟨⟨isBlank_nil, Or.inr rfl, hmembers⟩, ?_⟩
      simp [Node.text, htext]
  next =>
    obtain ⟨raw, value, rfl, hscalar, hs⟩ := scalar_of_readScalar h
    exact ⟨hscalar, hs⟩

theorem elementsSound_succ {fuel : Nat} (ihNode : NodesSound fuel)
    (ihElements : ElementsSound fuel) : ElementsSound (fuel + 1) := by
  intro before s rest items h hbefore
  unfold readElements at h
  obtain ⟨⟨node, rest₁⟩, hnode, hread⟩ := bind_eq_ok h
  obtain ⟨hreadable, rfl⟩ := ihNode hnode
  obtain ⟨after, rest₂, hspaces, hafter, rfl⟩ := exists_spaces rest₁
  simp only [hspaces] at hread
  split at hread
  next =>
    cases hread
    refine ⟨⟨hbefore, hreadable, hafter, trivial⟩, fun h => (nomatch h), ?_⟩
    simp [Elements.text, Elements.textAfter]
  next rest₃ =>
    obtain ⟨blanks, rest₄, hspaces, hblanks, rfl⟩ := exists_spaces rest₃
    simp only [hspaces] at hread
    obtain ⟨⟨items', rest₅⟩, hitems, hret⟩ := bind_eq_ok hread
    cases hret
    obtain ⟨hreadables, hne, htext⟩ := ihElements hitems hblanks
    refine ⟨⟨hbefore, hreadable, hafter, hreadables⟩, fun h => (nomatch h), ?_⟩
    simp [Elements.text, Elements.textAfter_eq hne, htext]
  next => cases hread

theorem membersSound_succ {fuel : Nat} (ihNode : NodesSound fuel)
    (ihMembers : MembersSound fuel) : MembersSound (fuel + 1) := by
  intro before s rest members h hbefore
  unfold readMembers at h
  split at h
  next cs =>
    obtain ⟨⟨t, rest₁⟩, hkey, hread⟩ := bind_eq_ok h
    obtain ⟨htoken, hs⟩ := isStringToken_of_readString hkey
    obtain ⟨afterKey, rest₂, hspaces₁, hafterKey, rfl⟩ := exists_spaces rest₁
    simp only [hspaces₁] at hread
    split at hread
    next rest₃ =>
      obtain ⟨beforeValue, rest₄, hspaces₂, hbeforeValue, rfl⟩ := exists_spaces rest₃
      simp only [hspaces₂] at hread
      obtain ⟨⟨node, rest₅⟩, hnode, hvalue⟩ := bind_eq_ok hread
      obtain ⟨hreadable, rfl⟩ := ihNode hnode
      obtain ⟨after, rest₆, hspaces₃, hafter, rfl⟩ := exists_spaces rest₅
      simp only [hspaces₃] at hvalue
      split at hvalue
      next =>
        cases hvalue
        refine ⟨⟨hbefore, htoken, hafterKey, hbeforeValue, hreadable, hafter, trivial⟩,
          fun h => (nomatch h), ?_⟩
        simp [hs, Members.text, Members.textAfter]
      next rest₇ =>
        obtain ⟨blanks, rest₈, hspaces₄, hblanks, rfl⟩ := exists_spaces rest₇
        simp only [hspaces₄] at hvalue
        obtain ⟨⟨members', rest₉⟩, hmembers, hret⟩ := bind_eq_ok hvalue
        cases hret
        obtain ⟨hreadables, hne, htext⟩ := ihMembers hmembers hblanks
        refine ⟨⟨hbefore, htoken, hafterKey, hbeforeValue, hreadable, hafter, hreadables⟩,
          fun h => (nomatch h), ?_⟩
        simp [hs, Members.text, Members.textAfter_eq hne, htext]
      next => cases hvalue
    next => cases hread
  next => cases h

/-- **What is read is readable, and is the beginning of the text.** -/
theorem read_sound (fuel : Nat) : NodesSound fuel ∧ ElementsSound fuel ∧ MembersSound fuel := by
  induction fuel with
  | zero =>
    refine ⟨fun h => ?_, fun h => ?_, fun h => ?_⟩
    · cases h
    · cases h
    · cases h
  | succ fuel ih =>
    obtain ⟨ihNode, ihElements, ihMembers⟩ := ih
    exact ⟨nodesSound_succ ihElements ihMembers, elementsSound_succ ihNode ihElements,
      membersSound_succ ihNode ihMembers⟩

/-! ## Reading back -/

/-- A value can begin with the character. -/
def startsNode (c : Char) : Bool := startsScalar c || "\"[\x7b".toList.contains c

theorem Node.Readable.starts {node : Node} (h : node.Readable) :
    ∃ c cs, node.text = c :: cs ∧ startsNode c = true := by
  cases node with
  | scalar raw value =>
    obtain ⟨c, cs, rfl, hc⟩ := Scalar.starts h
    exact ⟨c, cs, rfl, by rw [startsNode, hc, Bool.true_or]⟩
  | string raw text =>
    obtain ⟨written, rfl, -⟩ := h
    exact ⟨'"', written, rfl, by decide⟩
  | array blanks items => exact ⟨'[', _, rfl, by decide⟩
  | object blanks members => exact ⟨'\x7b', _, rfl, by decide⟩

theorem stops_of_startsNode {c : Char} {s : Text} (h : startsNode c = true) :
    Stops isSpace (c :: s) := by
  rw [stops_cons, Bool.eq_false_iff]
  intro hspace
  simp only [isSpace, Bool.or_eq_true, beq_iff_eq] at hspace
  rcases hspace with ((rfl | rfl) | rfl) | rfl <;> exact absurd h (by decide)

/-- With the fuel a readable value that is not too long is read back from its text. -/
def NodesReadBack (fuel : Nat) : Prop :=
  ∀ {node : Node} {s : Text}, node.Readable → 2 * node.text.length ≤ fuel + 1 → Delimited s →
    readNode fuel (node.text ++ s) = .ok (node, s)

def ElementsReadBack (fuel : Nat) : Prop :=
  ∀ {before after s : Text} {node : Node} {items : Elements},
    (Elements.cons before node after items).Readable →
      2 * (Elements.cons before node after items).text.length ≤ fuel →
        readElements fuel before (node.text ++ (after ++ (items.textAfter ++ ']' :: s))) =
          .ok (.cons before node after items, s)

def MembersReadBack (fuel : Nat) : Prop :=
  ∀ {before rawKey key afterKey beforeValue after s : Text} {node : Node} {members : Members},
    (Members.cons before rawKey key afterKey beforeValue node after members).Readable →
      2 * (Members.cons before rawKey key afterKey beforeValue node after members).text.length ≤
          fuel →
        readMembers fuel before (rawKey ++ (afterKey ++ ':' :: (beforeValue ++ (node.text ++
            (after ++ (members.textAfter ++ '\x7d' :: s)))))) =
          .ok (.cons before rawKey key afterKey beforeValue node after members, s)

theorem scalar_readBack {fuel : Nat} {raw s : Text} {value : Json} (h : Scalar raw value)
    (hs : Delimited s) : readNode (fuel + 1) ((Node.scalar raw value).text ++ s) =
      .ok (.scalar raw value, s) := by
  obtain ⟨c, cs, rfl, hc⟩ := Scalar.starts h
  have hreads := Scalar.reads h s hs
  rw [List.cons_append] at hreads
  rw [Node.text, List.cons_append, readNode]
  · exact hreads
  all_goals
    intro cs' heq
    rw [(List.cons.inj heq).1] at hc
    exact absurd hc (by decide)

theorem string_readBack {fuel : Nat} {raw text s : Text} (h : IsStringToken raw text) :
    readNode (fuel + 1) ((Node.string raw text).text ++ s) = .ok (.string raw text, s) := by
  obtain ⟨written, rfl, hinside⟩ := h
  rw [Node.text, List.cons_append, readNode, hinside.readString]
  rfl

theorem array_readBack {fuel : Nat} (ihElements : ElementsReadBack fuel) {blanks s : Text}
    {items : Elements} (h : (Node.array blanks items).Readable)
    (hfuel : 2 * (Node.array blanks items).text.length ≤ fuel + 1 + 1) :
    readNode (fuel + 1) ((Node.array blanks items).text ++ s) = .ok (.array blanks items, s) := by
  obtain ⟨hblanks, hempty, hitems⟩ := h
  cases items with
  | nil =>
    have hspaces : spaces (blanks ++ ']' :: s) = (blanks, ']' :: s) :=
      spaces_append hblanks (stops_cons.mpr rfl)
    simp [Node.text, Elements.text, readNode, hspaces]
  | cons before node after items =>
    obtain rfl : blanks = [] := hempty.resolve_left (fun h => (nomatch h))
    obtain ⟨c, cs, hnode, hc⟩ := hitems.2.1.starts
    have hread : readElements fuel before
        (c :: (cs ++ (after ++ (items.textAfter ++ ']' :: s)))) =
          .ok (.cons before node after items, s) := by
      rw [← List.cons_append, ← hnode]
      refine ihElements hitems ?_
      simp only [Node.text, List.length_append, List.length_cons] at hfuel
      omega
    have hspaces := spaces_append (s := c :: (cs ++ (after ++ (items.textAfter ++ ']' :: s))))
      hitems.1 (stops_of_startsNode hc)
    have htext : (Node.array [] (.cons before node after items)).text ++ s =
        '[' :: (before ++ c :: (cs ++ (after ++ (items.textAfter ++ ']' :: s)))) := by
      simp [Node.text, Elements.text, hnode]
    simp only [htext, readNode, hspaces]
    split
    next heq =>
      rw [(List.cons.inj heq).1] at hc
      exact absurd hc (by decide)
    next =>
      rw [hread]
      rfl

theorem object_readBack {fuel : Nat} (ihMembers : MembersReadBack fuel) {blanks s : Text}
    {members : Members} (h : (Node.object blanks members).Readable)
    (hfuel : 2 * (Node.object blanks members).text.length ≤ fuel + 1 + 1) :
    readNode (fuel + 1) ((Node.object blanks members).text ++ s) =
      .ok (.object blanks members, s) := by
  obtain ⟨hblanks, hempty, hmembers⟩ := h
  cases members with
  | nil =>
    have hspaces : spaces (blanks ++ '\x7d' :: s) = (blanks, '\x7d' :: s) :=
      spaces_append hblanks (stops_cons.mpr rfl)
    simp [Node.text, Members.text, readNode, hspaces]
  | cons before rawKey key afterKey beforeValue node after members =>
    obtain rfl : blanks = [] := hempty.resolve_left (fun h => (nomatch h))
    obtain ⟨written, rfl, hinside⟩ := hmembers.2.1
    have hread := ihMembers (s := s) hmembers (by
      simp only [Node.text, List.length_append, List.length_cons] at hfuel
      omega)
    have hspaces := spaces_append (s := '"' :: (written ++ (afterKey ++ ':' :: (beforeValue ++
      (node.text ++ (after ++ (members.textAfter ++ '\x7d' :: s))))))) hmembers.1
      (stops_cons.mpr rfl)
    have htext : (Node.object []
          (.cons before ('"' :: written) key afterKey beforeValue node after members)).text ++ s =
        '\x7b' :: (before ++ '"' :: (written ++ (afterKey ++ ':' :: (beforeValue ++
          (node.text ++ (after ++ (members.textAfter ++ '\x7d' :: s))))))) := by
      simp [Node.text, Members.text]
    simp only [htext, readNode, hspaces]
    rw [← List.cons_append, hread]
    rfl

theorem nodesReadBack_succ {fuel : Nat} (ihElements : ElementsReadBack fuel)
    (ihMembers : MembersReadBack fuel) : NodesReadBack (fuel + 1) := by
  intro node s h hfuel hs
  cases node with
  | scalar raw value => exact scalar_readBack h hs
  | string raw text => exact string_readBack h
  | array blanks items => exact array_readBack ihElements h hfuel
  | object blanks members => exact object_readBack ihMembers h hfuel

theorem elementsReadBack_succ {fuel : Nat} (ihNode : NodesReadBack fuel)
    (ihElements : ElementsReadBack fuel) : ElementsReadBack (fuel + 1) := by
  intro before after s node items h hfuel
  obtain ⟨hbefore, hnode, hafter, hitems⟩ := h
  have hlength : 2 * node.text.length ≤ fuel + 1 := by
    simp only [Elements.text, List.length_append] at hfuel
    omega
  cases items with
  | nil =>
    have hspaces : spaces (after ++ ']' :: s) = (after, ']' :: s) :=
      spaces_append hafter (stops_cons.mpr rfl)
    have hread := ihNode hnode hlength (delimited_append (s := s) hafter (by decide : isDelimiter ']'))
    simp only [Elements.textAfter, List.nil_append, readElements, hread, bind, Except.bind, hspaces]
    rfl
  | cons before' node' after' items =>
    obtain ⟨c, cs, hstart, hc⟩ := hitems.2.1.starts
    have hrest : readElements fuel before'
        (c :: (cs ++ (after' ++ (items.textAfter ++ ']' :: s)))) =
          .ok (.cons before' node' after' items, s) := by
      rw [← List.cons_append, ← hstart]
      refine ihElements hitems ?_
      simp only [Elements.text, Elements.textAfter, List.length_append, List.length_cons] at hfuel ⊢
      omega
    have htext : after ++ ((Elements.cons before' node' after' items).textAfter ++ ']' :: s) =
        after ++ ',' :: (before' ++ c :: (cs ++ (after' ++ (items.textAfter ++ ']' :: s)))) := by
      simp [Elements.textAfter, hstart]
    have hread := ihNode hnode hlength (delimited_append
      (s := before' ++ c :: (cs ++ (after' ++ (items.textAfter ++ ']' :: s)))) hafter
      (by decide : isDelimiter ','))
    have hafterNode := spaces_append
      (s := ',' :: (before' ++ c :: (cs ++ (after' ++ (items.textAfter ++ ']' :: s))))) hafter
      (stops_cons.mpr rfl)
    have hafterComma := spaces_append (s := c :: (cs ++ (after' ++ (items.textAfter ++ ']' :: s))))
      hitems.1 (stops_of_startsNode hc)
    simp only [htext, readElements, hread, bind, Except.bind, hafterNode, hafterComma, hrest]
    rfl

theorem membersReadBack_succ {fuel : Nat} (ihNode : NodesReadBack fuel)
    (ihMembers : MembersReadBack fuel) : MembersReadBack (fuel + 1) := by
  intro before rawKey key afterKey beforeValue after s node members h hfuel
  obtain ⟨hbefore, ⟨written, rfl, hinside⟩, hafterKey, hbeforeValue, hnode, hafter, hmembers⟩ := h
  have hlength : 2 * node.text.length ≤ fuel + 1 := by
    simp only [Members.text, List.length_append, List.length_cons] at hfuel
    omega
  obtain ⟨c, cs, hstart, hc⟩ := hnode.starts
  have hkey := fun s => hinside.readString ('"' :: (written ++ s)) s
  have hafterToken := fun s : Text =>
    spaces_append (s := ':' :: s) hafterKey (stops_cons.mpr rfl)
  have hafterColon := fun s : Text => spaces_append (s := c :: s) hbeforeValue (stops_of_startsNode hc)
  cases members with
  | nil =>
    have hread := ihNode hnode hlength
      (delimited_append (s := s) hafter (by decide : isDelimiter '\x7d'))
    have hafterNode : spaces (after ++ '\x7d' :: s) = (after, '\x7d' :: s) :=
      spaces_append hafter (stops_cons.mpr rfl)
    rw [hstart, List.cons_append] at hread
    simp only [hstart, Members.textAfter, List.nil_append, List.cons_append, readMembers, hkey,
      bind, Except.bind, hafterToken, hafterColon, hread, hafterNode]
    rfl
  | cons before' rawKey' key' afterKey' beforeValue' node' after' members =>
    obtain ⟨written', rfl, -⟩ := hmembers.2.1
    have hrest := ihMembers (s := s) hmembers (by
      simp only [Members.text, Members.textAfter, List.length_append, List.length_cons] at hfuel ⊢
      omega)
    -- what stands behind the comma, from the next key on
    obtain ⟨next, hnext⟩ : ∃ next : Text, written' ++ (afterKey' ++ ':' :: (beforeValue' ++
        (node'.text ++ (after' ++ (members.textAfter ++ '\x7d' :: s))))) = next := ⟨_, rfl⟩
    rw [List.cons_append, hnext] at hrest
    have htext : (Members.cons before' ('"' :: written') key' afterKey' beforeValue' node' after'
        members).textAfter ++ '\x7d' :: s = ',' :: (before' ++ '"' :: next) := by
      simp [Members.textAfter, ← hnext]
    have hread := ihNode hnode hlength
      (delimited_append (s := before' ++ '"' :: next) hafter (by decide : isDelimiter ','))
    have hafterNode : spaces (after ++ ',' :: (before' ++ '"' :: next)) =
        (after, ',' :: (before' ++ '"' :: next)) := spaces_append hafter (stops_cons.mpr rfl)
    have hafterComma : spaces (before' ++ '"' :: next) = (before', '"' :: next) :=
      spaces_append hmembers.1 (stops_cons.mpr rfl)
    rw [hstart, List.cons_append] at hread
    simp only [htext, hstart, List.cons_append, readMembers, hkey, bind, Except.bind, hafterToken,
      hafterColon, hread, hafterNode, hafterComma, hrest]
    rfl

/-- **A readable tree is read back from its text.** -/
theorem read_back (fuel : Nat) :
    NodesReadBack fuel ∧ ElementsReadBack fuel ∧ MembersReadBack fuel := by
  induction fuel with
  | zero =>
    refine ⟨fun h hfuel _ => ?_, fun h hfuel => ?_, fun h hfuel => ?_⟩
    · obtain ⟨c, cs, htext, -⟩ := h.starts
      rw [htext, List.length_cons] at hfuel
      omega
    · obtain ⟨c, cs, htext, -⟩ := h.2.1.starts
      rw [Elements.text, htext] at hfuel
      simp at hfuel
    · rw [Members.text] at hfuel
      simp at hfuel
  | succ fuel ih =>
    obtain ⟨ihNode, ihElements, ihMembers⟩ := ih
    exact ⟨nodesReadBack_succ ihElements ihMembers, elementsReadBack_succ ihNode ihElements,
      membersReadBack_succ ihNode ihMembers⟩

/-! ## Documents -/

/-- The document could have been read. -/
structure Document.Readable (d : Document) : Prop where
  before : IsBlank d.before
  root : d.root.Readable
  after : IsBlank d.after

/-- **A document that was read is readable, and its text is what was read.** -/
theorem Document.readable_of_read {source : Text} {d : Document} (h : Document.read source = .ok d) :
    d.Readable ∧ d.text = source := by
  unfold Document.read at h
  split at h
  next => cases h
  next =>
    obtain ⟨before, s, hspaces, hbefore, rfl⟩ := exists_spaces source
    simp only [hspaces] at h
    obtain ⟨⟨root, rest⟩, hroot, hend⟩ := bind_eq_ok h
    obtain ⟨hreadable, rfl⟩ := (read_sound _).1 hroot
    obtain ⟨after, rest', hspaces', hafter, rfl⟩ := exists_spaces rest
    simp only [hspaces'] at hend
    split at hend
    next hempty =>
      cases hend
      obtain rfl := List.isEmpty_iff.mp hempty
      refine ⟨⟨hbefore, hreadable, hafter⟩, ?_⟩
      simp [Document.text]
    next => cases hend

/-- Behind blanks the value is read from the next character on. -/
theorem Document.read_blanks_append {blanks s : Text} {c : Char} (hblanks : IsBlank blanks)
    (hspace : isSpace c = false) (hmark : c ≠ '\uFEFF') :
    Document.read (blanks ++ c :: s) = (do
      let (root, rest) ← readNode (2 * (blanks ++ c :: s).length + 2) (c :: s)
      let (after, rest) := spaces rest
      if rest.isEmpty then return ⟨blanks, root, after⟩
      else .error ⟨.trailingText, rest⟩) := by
  rw [Document.read]
  · rw [spaces_append hblanks (stops_cons.mpr hspace)]
  · intro rest heq
    cases blanks with
    | nil => exact hmark (List.cons.inj heq).1
    | cons b bs =>
      have hb := hblanks b List.mem_cons_self
      rw [(List.cons.inj heq).1] at hb
      exact absurd hb (by decide)

/-- **A readable document is read back from its text.** -/
theorem Document.Readable.read {d : Document} (h : d.Readable) : Document.read d.text = .ok d := by
  obtain ⟨before, root, after⟩ := d
  obtain ⟨hbefore, hroot, hafter⟩ := h
  dsimp only at hbefore hroot hafter
  obtain ⟨c, cs, hstart, hc⟩ := hroot.starts
  have hend : spaces after = (after, []) := by
    have hnil := spaces_append hafter (Text.stops_nil isSpace)
    rwa [List.append_nil] at hnil
  have hdelimited : Delimited after := by
    intro d hd
    simp only [isDelimiter, hafter d (List.mem_of_mem_head? hd), Bool.true_or]
  have hread := (read_back (2 * (before ++ (root.text ++ after)).length + 2)).1 hroot
    (by simp only [List.length_append]; omega) hdelimited
  have hmark : c ≠ '\uFEFF' := by
    rintro rfl
    exact absurd hc (by decide)
  rw [Document.text, List.append_assoc]
  rw [hstart, List.cons_append] at hread ⊢
  rw [Document.read_blanks_append hbefore (stops_cons.mp (stops_of_startsNode (s := cs) hc)) hmark,
    hread]
  simp only [bind, Except.bind, hend]
  rfl

end Json

end GameText
