import GameText.Proofs.Json.Leaves

/-!
# Values beside a changed path

A value that is put at a path replaces whatever stands there. What can be seen along another path is
its `outline`: that an array stands there and how long it is, or which string, or something else.
Unless the other path leads through the place, the outline stays (`outline_modifyAt`), also when the
other path leads to an array that contains the place.

Indices count from zero here. A negative index may name the same element as another one, and no
address that was taken out of a document has one.
-/

namespace GameText

namespace Json

/-- What a reinsertion asks of a value. -/
inductive Outline where
  | array (length : Nat)
  | string (s : Text)
  | other
deriving DecidableEq

/-- The outline of a value. -/
def outline : Json → Outline
  | .arr items => .array items.length
  | .str s => .string s
  | _ => .other

/-- No index of the path is negative. -/
def Natural (path : Path) : Prop := ∀ i : Int, .index i ∈ path → 0 ≤ i

theorem natural_nil : Natural [] := fun _ hi => (nomatch hi)

theorem natural_cons {s : Step} {path : Path} :
    Natural (s :: path) ↔ (∀ i, s = .index i → 0 ≤ i) ∧ Natural path := by
  constructor
  · intro h
    exact ⟨fun i hi => h i (hi ▸ List.mem_cons_self), fun i hi => h i (List.mem_cons_of_mem _ hi)⟩
  · rintro ⟨hs, hpath⟩ i hi
    rcases List.mem_cons.mp hi with hi | hi
    · exact hs i hi.symm
    · exact hpath i hi

theorem natural_append {p q : Path} : Natural (p ++ q) ↔ Natural p ∧ Natural q := by
  induction p with
  | nil => simp [natural_nil]
  | cons s p ih => rw [List.cons_append, natural_cons, natural_cons, ih, and_assoc]

/-- A path that leads to a value has no negative index. -/
theorem natural_of_valueAt? {v w : Json} {path : Path} (h : v.valueAt? path = some w) :
    Natural path := by
  induction path generalizing v with
  | nil => exact natural_nil
  | cons s path ih =>
    obtain ⟨u, hu, hw⟩ := Option.bind_eq_some_iff.mp h
    refine natural_cons.mpr ⟨?_, ih hw⟩
    rintro i rfl
    refine Int.not_lt.mp fun hneg => ?_
    cases v <;> simp [child?, hneg] at hu

theorem eq_of_index?_natCast {length n k : Nat} (h : index? length (n : Int) = some k) : n = k := by
  simp only [index?, Int.natCast_nonneg, if_true, Int.toNat_natCast] at h
  split at h
  next => exact Option.some.inj h
  next => cases h

theorem length_modifyNth {α : Type} (f : α → α) (k : Nat) (xs : List α) :
    (modifyNth f k xs).length = xs.length := by
  induction xs generalizing k with
  | nil => cases k <;> rfl
  | cons x xs ih =>
    cases k with
    | zero => rfl
    | succ k => exact congrArg Nat.succ (ih k)

theorem lookup?_modifyKey (f : Json → Json) (key k : Text) (members : List (Text × Json)) :
    lookup? k (modifyKey f key members) =
      if k = key then (lookup? k members).map f else lookup? k members := by
  induction members with
  | nil => split <;> rfl
  | cons m rest ih =>
    obtain ⟨k', v⟩ := m
    simp only [modifyKey, lookup?]
    by_cases hkey : k' = key
    · subst hkey
      by_cases hk : k = k'
      · simp [lookup?, hk]
      · have hk' : ¬ k' = k := fun h => hk h.symm
        simp [lookup?, hk, hk']
    · by_cases hk : k' = k
      · subst hk
        simp [lookup?, hkey]
      · simp [lookup?, hkey, hk, ih]

/-! ## One step -/

variable (f : Json → Json)

theorem outline_modifyStep (v : Json) (s : Step) : (v.modifyStep f s).outline = v.outline := by
  cases s with
  | key k => cases v <;> rfl
  | index i =>
    cases v with
    | arr items =>
      simp only [modifyStep]
      split
      next => exact congrArg Outline.array (length_modifyNth f _ items)
      next => rfl
    | _ => rfl

/-- A step leads to what was changed there. -/
theorem child?_modifyStep_self (v : Json) (s : Step) :
    (v.modifyStep f s).child? s = (v.child? s).map f := by
  cases s with
  | key k =>
    cases v with
    | obj members =>
      show lookup? k (modifyKey f k members) = (lookup? k members).map f
      rw [lookup?_modifyKey, if_pos rfl]
    | _ => rfl
  | index i =>
    cases v with
    | arr items =>
      simp only [modifyStep]
      split
      next k hk =>
        simp only [child?, getElem?_modifyNth]
        split
        next => rfl
        next hi =>
          obtain ⟨n, rfl⟩ := Int.eq_ofNat_of_zero_le (Int.not_lt.mp hi)
          rw [Int.toNat_natCast, if_pos (eq_of_index?_natCast hk)]
      next hk =>
        simp only [child?]
        split
        next => rfl
        next hi =>
          obtain ⟨n, rfl⟩ := Int.eq_ofNat_of_zero_le (Int.not_lt.mp hi)
          have hout : items[n]? = none := by
            rw [List.getElem?_eq_none_iff]
            refine Nat.not_lt.mp fun hn => ?_
            rw [index?_natCast hn] at hk
            cases hk
          rw [Int.toNat_natCast, hout]
          rfl
    | _ => rfl

theorem child?_modifyStep_of_ne {v : Json} {s s' : Step} (hs : ∀ i, s = .index i → 0 ≤ i)
    (hne : s ≠ s') : (v.modifyStep f s).child? s' = v.child? s' := by
  cases s with
  | key k =>
    cases v with
    | obj members =>
      cases s' with
      | key k' =>
        have hk : ¬ k' = k := fun h => hne (by rw [h])
        show lookup? k' (modifyKey f k members) = lookup? k' members
        rw [lookup?_modifyKey, if_neg hk]
      | index j => rfl
    | _ => rfl
  | index i =>
    cases v with
    | arr items =>
      simp only [modifyStep]
      split
      next k hk =>
        cases s' with
        | key k' => rfl
        | index j =>
          simp only [child?, getElem?_modifyNth]
          split
          next => rfl
          next hj =>
            obtain ⟨n, rfl⟩ := Int.eq_ofNat_of_zero_le (hs i rfl)
            obtain ⟨m, rfl⟩ := Int.eq_ofNat_of_zero_le (Int.not_lt.mp hj)
            have hmk : ¬ m = k := by
              intro h
              rw [h, ← eq_of_index?_natCast hk] at hne
              exact hne rfl
            rw [Int.toNat_natCast, if_neg hmk]
      next => rfl
    | _ => rfl

/-! ## Whole paths -/

/-- **A change at a path keeps the outlines along every path that does not lead through it.** -/
theorem outline_modifyAt {path q : Path} (hpath : Natural path) (beside : ¬ path <+: q) (v : Json) :
    ((v.modifyAt f path).valueAt? q).map outline = (v.valueAt? q).map outline := by
  induction path generalizing v q with
  | nil => exact absurd List.nil_prefix beside
  | cons s path ih =>
    cases q with
    | nil => exact congrArg some (outline_modifyStep _ v s)
    | cons s' q =>
      rw [modifyAt, valueAt?, valueAt?]
      by_cases hs : s = s'
      · subst hs
        have hbelow : ¬ path <+: q := fun h => beside (List.cons_prefix_cons.mpr ⟨rfl, h⟩)
        rw [child?_modifyStep_self]
        cases v.child? s with
        | none => rfl
        | some w => exact ih (natural_cons.mp hpath).2 hbelow w
      · rw [child?_modifyStep_of_ne (modifyAt f path) (natural_cons.mp hpath).1 hs]

/-- No step leads out of the characters of a string. -/
theorem exists_str_of_at?_str {s : Text} {path : Path} {w : Json} (h : (Json.str s).at? path = some w) :
    ∃ t, w = .str t := by
  induction path generalizing s with
  | nil => exact ⟨s, (Option.some.inj h).symm⟩
  | cons step path ih =>
    obtain ⟨u, hu, hw⟩ := Option.bind_eq_some_iff.mp h
    cases step with
    | key k => cases hu
    | index i =>
      obtain ⟨k, -, hk⟩ := Option.bind_eq_some_iff.mp hu
      obtain ⟨c, -, rfl⟩ := Option.map_eq_some_iff.mp hk
      exact ih hw

/-- A path without negative indices that leads to an array leads through no string. -/
theorem valueAt?_of_at?_arr {path : Path} (hpath : Natural path) {v : Json} {items : List Json}
    (h : v.at? path = some (.arr items)) : v.valueAt? path = some (.arr items) := by
  induction path generalizing v with
  | nil => exact h
  | cons s path ih =>
    obtain ⟨u, hu, hbelow⟩ := Option.bind_eq_some_iff.mp h
    have hchild : v.child? s = some u := by
      cases s with
      | key k => exact hu
      | index i =>
        obtain ⟨n, rfl⟩ := Int.eq_ofNat_of_zero_le ((natural_cons.mp hpath).1 i rfl)
        cases v with
        | arr elements =>
          obtain ⟨k, hk, hget⟩ := Option.bind_eq_some_iff.mp hu
          have hpos : ¬ (n : Int) < 0 := by omega
          rw [child?, if_neg hpos, Int.toNat_natCast, eq_of_index?_natCast hk, hget]
        | str s =>
          obtain ⟨k, -, hk⟩ := Option.bind_eq_some_iff.mp hu
          obtain ⟨c, -, rfl⟩ := Option.map_eq_some_iff.mp hk
          obtain ⟨t, ht⟩ := exists_str_of_at?_str hbelow
          cases ht
        | _ => cases hu
    rw [valueAt?, hchild]
    exact ih (natural_cons.mp hpath).2 hbelow

/-! ## Outlines that tell the value -/

theorem outline_eq_string {v : Json} {s : Text} : v.outline = .string s ↔ v = .str s := by
  cases v <;> simp [outline]

theorem outline_eq_array {v : Json} {n : Nat} :
    v.outline = .array n ↔ ∃ items, v = .arr items ∧ items.length = n := by
  cases v <;> simp [outline]

end Json

end GameText
