import GameText.Proofs.Json.SpliceValue

/-!
# Sizes inside a value that was read

Every element of an array and every character of a string takes a character of the text at least. So
no array or string of a value that was read is longer than the text (`Bounded`), and the indices of a
path that resolves in it are smaller than the text is long.
-/

namespace GameText

namespace Json

/-- No array of the value has more elements than the bound, and no string more characters. -/
inductive Bounded (bound : Nat) : Json → Prop
  | null : Bounded bound .null
  | bool (b : Bool) : Bounded bound (.bool b)
  | num (n : Number) : Bounded bound (.num n)
  | str {s : Text} (size : s.length ≤ bound) : Bounded bound (.str s)
  | arr {items : List Json} (size : items.length ≤ bound) (below : ∀ v ∈ items, Bounded bound v) :
      Bounded bound (.arr items)
  | obj {members : List (Text × Json)} (below : ∀ m ∈ members, Bounded bound m.2) :
      Bounded bound (.obj members)

/-! ## Along a path -/

/-- An index is a number up to the bound. -/
def Step.Below (bound : Nat) (s : Step) : Prop := ∀ i, s = .index i → i.natAbs < bound

theorem Bounded.get? {bound : Nat} {v w : Json} {key : Text} (h : v.Bounded bound)
    (hget : v.get? key = some w) : w.Bounded bound := by
  cases h with
  | obj below => exact below _ (mem_of_lookup? hget)
  | _ => cases hget

theorem Bounded.child {bound : Nat} {v w : Json} {s : Step} (h : v.Bounded bound)
    (hchild : v.child? s = some w) : s.Below bound ∧ w.Bounded bound := by
  cases s with
  | key k => exact ⟨nofun, h.get? hchild⟩
  | index i =>
    cases h with
    | arr size below =>
      rw [child?] at hchild
      obtain ⟨hpos, hitem⟩ := Option.ite_none_left_eq_some.mp hchild
      obtain ⟨hlt, rfl⟩ := List.getElem?_eq_some_iff.mp hitem
      refine ⟨?_, below _ (List.getElem_mem hlt)⟩
      rintro j ⟨⟩
      omega
    | _ => cases hchild

/-- **The indices of a path that resolves** are smaller than the bound. -/
theorem Bounded.valueAt {bound : Nat} {path : Path} : ∀ {v w : Json}, v.Bounded bound →
    v.valueAt? path = some w → (∀ s ∈ path, s.Below bound) ∧ w.Bounded bound := by
  induction path with
  | nil =>
    intro v w h hvalue
    cases hvalue
    exact ⟨nofun, h⟩
  | cons s path ih =>
    intro v w h hvalue
    obtain ⟨u, hchild, hrest⟩ := Option.bind_eq_some_iff.mp hvalue
    obtain ⟨hs, hu⟩ := h.child hchild
    obtain ⟨hpath, hw⟩ := ih hu hrest
    exact ⟨List.forall_mem_cons.mpr ⟨hs, hpath⟩, hw⟩

/-! ## Reading -/

/-- A text is no longer than what is written for it. -/
theorem Inside.length_le {w t : Text} (h : Inside w t) : t.length ≤ w.length := by
  induction h with
  | close => exact Nat.zero_le _
  | _ => simp only [List.length_cons]; omega

theorem Elements.length_values_le (items : Elements) :
    items.values.length ≤ items.textAfter.length := by
  cases items with
  | nil => exact Nat.le_refl _
  | cons before node after rest =>
    have hrest := length_values_le rest
    simp only [values, textAfter, List.length_cons, List.length_append]
    omega

theorem Elements.length_text_le (items : Elements) :
    items.text.length ≤ items.textAfter.length := by
  cases items <;> simp [text, textAfter]

theorem Members.length_text_le (members : Members) :
    members.text.length ≤ members.textAfter.length := by
  cases members <;> simp [text, textAfter]

mutual

/-- A value that was read is no larger than its text. -/
theorem Node.Readable.bounded {bound : Nat} : ∀ {node : Node}, node.Readable →
    node.text.length ≤ bound → node.value.Bounded bound
  | .scalar _ value, h, _ => by
    have hscalar := Scalar.isScalar h
    rw [Node.value]
    cases value with
    | null => exact .null
    | bool b => exact .bool b
    | num n => exact .num n
    | str _ | arr _ | obj _ => cases hscalar
  | .string _ text, ⟨written, hraw, hinside⟩, hlength => by
    have hwritten := hinside.length_le
    rw [Node.text, hraw, List.length_cons] at hlength
    exact .str (by omega)
  | .array blanks items, ⟨_, _, hitems⟩, hlength => by
    simp only [Node.text, List.length_append, List.length_cons] at hlength
    refine .arr ?_ (Elements.Readable.bounded hitems (by omega))
    cases items with
    | nil => exact Nat.zero_le _
    | cons before node after rest =>
      have hrest := Elements.length_values_le rest
      simp only [Elements.text, List.length_append] at hlength
      simp only [Elements.values, List.length_cons]
      omega
  | .object blanks members, ⟨_, _, hmembers⟩, hlength => by
    simp only [Node.text, List.length_append, List.length_cons] at hlength
    exact .obj (Members.Readable.bounded hmembers (by omega) nofun)

theorem Elements.Readable.bounded {bound : Nat} : ∀ {items : Elements}, items.Readable →
    items.text.length ≤ bound → ∀ v ∈ items.values, v.Bounded bound
  | .nil, _, _ => nofun
  | .cons before node after rest, ⟨_, hnode, _, hrest⟩, hlength => by
    simp only [Elements.text, List.length_append] at hlength
    have hafter := Elements.length_text_le rest
    exact List.forall_mem_cons.mpr ⟨Node.Readable.bounded hnode (by omega),
      Elements.Readable.bounded hrest (by omega)⟩

theorem Members.Readable.bounded {bound : Nat} : ∀ {members : Members}, members.Readable →
    members.text.length ≤ bound → ∀ {soFar : List (Text × Json)},
      (∀ m ∈ soFar, m.2.Bounded bound) → ∀ m ∈ members.values soFar, m.2.Bounded bound
  | .nil, _, _, _, hsoFar => hsoFar
  | .cons before rawKey key afterKey beforeValue node after rest, ⟨_, _, _, _, hnode, _, hrest⟩,
      hlength, soFar, hsoFar => by
    simp only [Members.text, List.length_append, List.length_cons] at hlength
    have hafter := Members.length_text_le rest
    refine Members.Readable.bounded hrest (by omega) fun m hm => ?_
    rcases mem_assign hm with rfl | hm
    · exact Node.Readable.bounded hnode (by omega)
    · exact hsoFar m hm

end

/-- **No array or string of a document that was read is longer than the source.** -/
theorem Document.Readable.bounded {d : Document} (h : d.Readable) :
    d.value.Bounded d.text.length := by
  refine h.root.bounded ?_
  simp only [Document.text, List.length_append]
  omega

end Json

end GameText
