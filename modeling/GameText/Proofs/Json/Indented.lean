import GameText.Proofs.Json.Reading
import GameText.Proofs.Json.SpliceValue
import GameText.Proofs.Text.Decimal
import GameText.Proofs.Text.Lines

/-!
# Indented documents read back

The indented text of a value is the text of a tree, `layout`. The tree is readable and has the value,
as long as the reader takes back what stands at its leaves and no object has a key twice (`Writable`);
so the reader gives the value back (`Writable.read_indented`). The text holds no carriage return, so
a reader that unifies line breaks first reads the same.

Not established: that floating point numbers are read back. A `Writable` value holds integers only.
-/

namespace GameText

namespace Json

/-! ## The tree of an indented text -/

mutual

/-- The tree that a value is written as, at a level of indentation. -/
def layout (level : Nat) : Json → Node
  | .null => .scalar "null".toList .null
  | .bool b => .scalar (if b then "true".toList else "false".toList) (.bool b)
  | .num n => .scalar (numberToken n) (.num n)
  | .str s => .string (quote s) s
  | .arr items => .array [] (layoutItems level items)
  | .obj members => .object [] (layoutMembers level members)

/-- The elements of an array, each on a line of its own. -/
def layoutItems (level : Nat) : List Json → Elements
  | [] => .nil
  | v :: vs => .cons (newLine (level + 1)) (layout (level + 1) v)
      (if vs.isEmpty then newLine level else []) (layoutItems level vs)

/-- The members of an object, each on a line of its own. -/
def layoutMembers (level : Nat) : List (Text × Json) → Members
  | [] => .nil
  | (k, v) :: rest => .cons (newLine (level + 1)) (quote k) k [] [' '] (layout (level + 1) v)
      (if rest.isEmpty then newLine level else []) (layoutMembers level rest)

end

theorem indentedItems_cons {level : Nat} {v : Json} {vs : List Json} (h : vs ≠ []) :
    indentedItems level (v :: vs) =
      indentedAt level v ++ ',' :: newLine level ++ indentedItems level vs := by
  rw [indentedItems]
  exact h

theorem indentedMembers_cons {level : Nat} {k : Text} {v : Json} {rest : List (Text × Json)}
    (h : rest ≠ []) : indentedMembers level ((k, v) :: rest) =
      quote k ++ ": ".toList ++ indentedAt level v ++ ',' :: newLine level ++
        indentedMembers level rest := by
  rw [indentedMembers]
  exact h

theorem layoutItems_ne_nil {level : Nat} {vs : List Json} (h : vs ≠ []) :
    layoutItems level vs ≠ .nil := by
  cases vs with
  | nil => exact absurd rfl h
  | cons v vs => nofun

theorem layoutMembers_ne_nil {level : Nat} {members : List (Text × Json)} (h : members ≠ []) :
    layoutMembers level members ≠ .nil := by
  cases members with
  | nil => exact absurd rfl h
  | cons m members => nofun

mutual

/-- The tree is written as the value is. -/
theorem text_layout (level : Nat) : ∀ v : Json, (layout level v).text = indentedAt level v
  | .null => rfl
  | .bool b => by cases b <;> rfl
  | .num n => rfl
  | .str s => rfl
  | .arr items => by
    rw [layout, Node.text]
    cases items with
    | nil => rfl
    | cons v vs =>
      rw [text_layoutItems level (v :: vs) (List.cons_ne_nil v vs), indentedAt]
      · simp
      · nofun
  | .obj members => by
    rw [layout, Node.text]
    cases members with
    | nil => rfl
    | cons m rest =>
      rw [text_layoutMembers level (m :: rest) (List.cons_ne_nil m rest), indentedAt]
      · simp
      · nofun

theorem text_layoutItems (level : Nat) : ∀ items : List Json, items ≠ [] →
    (layoutItems level items).text =
      newLine (level + 1) ++ indentedItems (level + 1) items ++ newLine level
  | [], h => absurd rfl h
  | v :: vs, _ => by
    rw [layoutItems, Elements.text, text_layout (level + 1) v]
    by_cases hvs : vs = []
    · subst hvs
      simp [layoutItems, Elements.textAfter, indentedItems]
    · rw [Elements.textAfter_eq (layoutItems_ne_nil hvs), text_layoutItems level vs hvs,
        indentedItems_cons hvs]
      simp [hvs]

theorem text_layoutMembers (level : Nat) : ∀ members : List (Text × Json), members ≠ [] →
    (layoutMembers level members).text =
      newLine (level + 1) ++ indentedMembers (level + 1) members ++ newLine level
  | [], h => absurd rfl h
  | (k, v) :: rest, _ => by
    rw [layoutMembers, Members.text, text_layout (level + 1) v]
    by_cases hrest : rest = []
    · subst hrest
      simp [layoutMembers, Members.textAfter, indentedMembers]
    · rw [Members.textAfter_eq (layoutMembers_ne_nil hrest), text_layoutMembers level rest hrest,
        indentedMembers_cons hrest]
      simp [hrest]

end

/-! ## Values that are read back -/

/-- A value whose text is read back: its numbers are integers that are not too long, and no object has
a key twice. -/
inductive Writable : Json → Prop
  | null : Writable .null
  | bool (b : Bool) : Writable (.bool b)
  | int {n : Int} (short : n.natAbs < 10 ^ maxDigits) : Writable (.int n)
  | str (s : Text) : Writable (.str s)
  | arr {items : List Json} (below : ∀ v ∈ items, Writable v) : Writable (.arr items)
  | obj {members : List (Text × Json)} (keys : (members.map (·.1)).Nodup)
      (below : ∀ m ∈ members, Writable m.2) : Writable (.obj members)

theorem scalar_int {n : Int} (short : n.natAbs < 10 ^ maxDigits) :
    Scalar (numberToken (.int n)) (.int n) := by
  have hscalar := (NumberToken.wellFormed_ofInt n).scalar (by
    have hlength : (Text.ofNat n.natAbs).length ≤ maxDigits :=
      Text.length_ofNat_le (by decide) short
    rw [Bool.and_eq_true, decide_eq_true_eq]
    exact fun hlong => Nat.not_lt.mpr hlength hlong.2)
  rwa [NumberToken.raw_ofInt, NumberToken.value_ofInt] at hscalar

theorem isBlank_newLine (level : Nat) : IsBlank (newLine level) := by
  intro c hc
  rcases List.mem_cons.mp hc with rfl | hc
  · rfl
  · rw [List.eq_of_mem_replicate hc]
    rfl

/-- The blanks behind an element or a member. -/
theorem isBlank_after (level : Nat) (last : Bool) :
    IsBlank (if last then newLine level else []) := by
  cases last with
  | true => exact isBlank_newLine level
  | false => exact isBlank_nil

mutual

/-- The tree of a value that is read back could have been read, and has the value. -/
theorem Writable.layout (level : Nat) : ∀ {v : Json}, v.Writable →
    (layout level v).Readable ∧ (layout level v).value = v
  | .null, _ => ⟨scalar_of_mem_words (by simp [words]), rfl⟩
  | .bool b, _ => by
    cases b with
    | true => exact ⟨scalar_of_mem_words (by simp [words]), rfl⟩
    | false => exact ⟨scalar_of_mem_words (by simp [words]), rfl⟩
  | .num _, .int short => ⟨scalar_int short, rfl⟩
  | .str s, _ => ⟨isStringToken_quote s, rfl⟩
  | .arr items, .arr below => by
    obtain ⟨hreadable, hvalues⟩ := Writable.layoutItems level below
    exact ⟨⟨isBlank_nil, Or.inr rfl, hreadable⟩, by rw [Json.layout, Node.value, hvalues]⟩
  | .obj members, .obj keys below => by
    obtain ⟨hreadable, hvalues⟩ := Writable.layoutMembers level below
    refine ⟨⟨isBlank_nil, Or.inr rfl, hreadable⟩, ?_⟩
    rw [Json.layout, Node.value, hvalues [] keys, List.nil_append]

theorem Writable.layoutItems (level : Nat) : ∀ {items : List Json}, (∀ v ∈ items, v.Writable) →
    (layoutItems level items).Readable ∧ (layoutItems level items).values = items
  | [], _ => ⟨trivial, rfl⟩
  | v :: vs, below => by
    obtain ⟨hv, hvalue⟩ := Writable.layout (level + 1) (below v List.mem_cons_self)
    obtain ⟨hvs, hvalues⟩ := Writable.layoutItems level fun w hw =>
      below w (List.mem_cons_of_mem v hw)
    refine ⟨⟨isBlank_newLine _, hv, isBlank_after level vs.isEmpty, hvs⟩, ?_⟩
    rw [Json.layoutItems, Elements.values, hvalue, hvalues]

/-- The members come behind those so far, with keys of their own. -/
theorem Writable.layoutMembers (level : Nat) : ∀ {members : List (Text × Json)},
    (∀ m ∈ members, m.2.Writable) → (layoutMembers level members).Readable ∧
      ∀ soFar : List (Text × Json), ((soFar ++ members).map (·.1)).Nodup →
        (layoutMembers level members).values soFar = soFar ++ members
  | [], _ => ⟨trivial, fun soFar _ => (List.append_nil soFar).symm⟩
  | (k, v) :: rest, below => by
    obtain ⟨hv, hvalue⟩ := Writable.layout (level + 1) (below (k, v) List.mem_cons_self)
    obtain ⟨hrest, hvalues⟩ := Writable.layoutMembers level fun m hm =>
      below m (List.mem_cons_of_mem _ hm)
    refine ⟨⟨isBlank_newLine _, isStringToken_quote k, isBlank_nil, ?_, hv,
      isBlank_after level rest.isEmpty, hrest⟩, ?_⟩
    · intro c hc
      rw [List.mem_singleton.mp hc]
      rfl
    · intro soFar hkeys
      have hnew : k ∉ soFar.map (·.1) := by
        intro hmem
        rw [List.map_append, List.map_cons] at hkeys
        exact (List.nodup_append.mp hkeys).2.2 k hmem k List.mem_cons_self rfl
      rw [List.append_cons] at hkeys
      rw [Json.layoutMembers, Members.values, hvalue, assign_of_not_mem hnew, hvalues _ hkeys,
        List.append_assoc]
      rfl

end

/-- **An indented document is read back.** -/
theorem Writable.read_indented {v : Json} (h : v.Writable) : read v.indented = .ok v := by
  obtain ⟨hreadable, hvalue⟩ := h.layout 0
  have hread := Document.Readable.read
    (d := ⟨[], Json.layout 0 v, []⟩) ⟨isBlank_nil, hreadable, isBlank_nil⟩
  have htext : (Document.mk [] (Json.layout 0 v) []).text = v.indented := by
    rw [Document.text, text_layout, List.append_nil, List.nil_append, indented]
  rw [htext] at hread
  rw [read, hread]
  exact congrArg Except.ok hvalue

/-! ## Line breaks of an indented text -/

theorem hexDigit_ne_return : ∀ n < 16, '\r' ≠ hexDigit n := by decide

theorem return_not_mem_escapeChar (c : Char) : '\r' ∉ escapeChar c := by
  have hhigh : c.toNat < 0x20 → '\r' ≠ hexDigit (c.toNat / 16) := fun hlow =>
    hexDigit_ne_return _ (by omega)
  have hlow : '\r' ≠ hexDigit (c.toNat % 16) := hexDigit_ne_return _ (by omega)
  by_cases hreturn : '\r' = c
  · subst hreturn
    decide
  · unfold escapeChar
    split_ifs <;> simp_all

theorem return_not_mem_quote (s : Text) : '\r' ∉ quote s := by
  have hinside : '\r' ∉ s.flatMap escapeChar := by
    intro h
    obtain ⟨c, -, hc⟩ := List.mem_flatMap.mp h
    exact return_not_mem_escapeChar c hc
  simp only [quote, List.cons_append, List.mem_cons, List.mem_append, hinside]
  decide

theorem return_not_mem_newLine (level : Nat) : '\r' ∉ newLine level := by
  simp [newLine]

theorem return_not_mem_int (n : Int) : '\r' ∉ numberToken (.int n) := by
  have hdigits : ∀ m : Nat, '\r' ∉ Text.ofNat m := fun m h =>
    absurd (Text.isDigit_of_mem_ofNat h) (by decide)
  cases n with
  | ofNat n => exact hdigits n
  | negSucc n => simp [numberToken, Text.ofInt, hdigits]

mutual

theorem Writable.return_not_mem (level : Nat) : ∀ {v : Json}, v.Writable →
    '\r' ∉ indentedAt level v
  | .null, _ => by simp [indentedAt]
  | .bool b, _ => by cases b <;> simp [indentedAt]
  | .num _, .int _ => return_not_mem_int _
  | .str s, _ => return_not_mem_quote s
  | .arr items, .arr below => by
    have hitems := Writable.return_not_mem_items (level + 1) below
    have hlines := return_not_mem_newLine
    cases items with
    | nil => simp [indentedAt]
    | cons v vs => simp [indentedAt, hitems, hlines]
  | .obj members, .obj _ below => by
    have hmembers := Writable.return_not_mem_members (level + 1) below
    have hlines := return_not_mem_newLine
    cases members with
    | nil => simp [indentedAt]
    | cons m rest => simp [indentedAt, hmembers, hlines]

theorem Writable.return_not_mem_items (level : Nat) : ∀ {items : List Json},
    (∀ v ∈ items, v.Writable) → '\r' ∉ indentedItems level items
  | [], _ => List.not_mem_nil
  | v :: vs, below => by
    have hv := Writable.return_not_mem level (below v List.mem_cons_self)
    have hvs := Writable.return_not_mem_items level fun w hw => below w (List.mem_cons_of_mem v hw)
    by_cases hlast : vs = []
    · subst hlast
      exact hv
    · simp [indentedItems_cons hlast, hv, hvs, return_not_mem_newLine]

theorem Writable.return_not_mem_members (level : Nat) : ∀ {members : List (Text × Json)},
    (∀ m ∈ members, m.2.Writable) → '\r' ∉ indentedMembers level members
  | [], _ => List.not_mem_nil
  | (k, v) :: rest, below => by
    have hv := Writable.return_not_mem level (below (k, v) List.mem_cons_self)
    have hrest := Writable.return_not_mem_members level fun m hm =>
      below m (List.mem_cons_of_mem _ hm)
    have hkey := return_not_mem_quote k
    by_cases hlast : rest = []
    · subst hlast
      simp [indentedMembers, hkey, hv]
    · simp [indentedMembers_cons hlast, hkey, hv, hrest, return_not_mem_newLine]

end

/-- An indented document is the same with its line breaks unified. -/
theorem Writable.unifyNewlines_indented {v : Json} (h : v.Writable) :
    v.indented.unifyNewlines = v.indented :=
  Text.unifyNewlines_of_not_mem (h.return_not_mem 0)

end Json

end GameText
