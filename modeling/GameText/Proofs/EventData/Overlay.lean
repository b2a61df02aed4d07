import GameText.Proofs.EventData.Collect
import GameText.Proofs.EventData.Detached

/-!
# What a reinsertion into another document has done so far

In another document an address may lead to a value of any kind, and a plain text replaces it in the
state of the reinsertion whatever it is. So the state does not show the document with its strings
mapped, as `Progress.Shows` says of the document of the extraction. `Progress.Overlays` keeps what is
still true: the changes that are recorded at strings of the document are those of a function, and
along every path that leads through no touched place the outlines are those of the document. Changes
recorded where no string stands are never written.
-/

namespace GameText

namespace EventData

open Json (Path Natural valueAt? outline changedTexts putText)

/-- The state has the recorded changes of a function at the strings of a document, and the outlines
of the document beside the touched places. -/
structure Progress.Overlays {Call : Type} (root : Json) (f : Path → Text → Text)
    (touched : Path → Prop) (p : Progress Call) : Prop where
  changed : ∀ path old, root.stringAt? path = some old →
    lookup? path p.changed = changedTexts f root path
  outlines : ∀ q, (∀ t, touched t → ¬ t <+: q) →
    (p.root.valueAt? q).map outline = (root.valueAt? q).map outline

variable {Call : Type} {root : Json} {f g : Path → Text → Text} {touched touched' : Path → Prop}
  {p : Progress Call} {path q : Path}

namespace Progress.Overlays

theorem start : ({ root } : Progress Call).Overlays root (fun _ old => old) fun _ => False where
  changed := by
    intro path old hold
    simp [changedTexts, hold, lookup?]
  outlines := fun _ _ => rfl

theorem congr (h : p.Overlays root f touched)
    (hfg : ∀ path old, root.stringAt? path = some old → f path old = g path old)
    (htouched : ∀ t, touched t → touched' t) : p.Overlays root g touched' where
  changed := fun path old hold =>
    (h.changed path old hold).trans (congrFun (Json.changedTexts_congr hfg) path)
  outlines := fun q hq => h.outlines q fun t ht => hq t (htouched t ht)

/-- Beside the touched places the same strings stand. -/
theorem stringAt?_eq (h : p.Overlays root f touched) (free : ∀ t, touched t → ¬ t <+: q)
    (s : Text) : p.root.stringAt? q = some s ↔ root.stringAt? q = some s := by
  have hsame := h.outlines q free
  have hstring : ∀ v : Json, v.stringAt? q = some s ↔
      (v.valueAt? q).map outline = some (.string s) := by
    intro v
    rw [Json.stringAt?_eq_some_iff, Option.map_eq_some_iff]
    simp only [Json.outline_eq_string, exists_eq_right]
  rw [hstring, hstring, hsame]

/-- Beside the touched places arrays of the same lengths stand. -/
theorem array_eq (h : p.Overlays root f touched) (free : ∀ t, touched t → ¬ t <+: q) (n : Nat) :
    (∃ items, p.root.valueAt? q = some (.arr items) ∧ items.length = n) ↔
      ∃ items, root.valueAt? q = some (.arr items) ∧ items.length = n := by
  have hsame := h.outlines q free
  have harray : ∀ v : Json, (∃ items, v.valueAt? q = some (.arr items) ∧ items.length = n) ↔
      (v.valueAt? q).map outline = some (.array n) := by
    intro v
    rw [Option.map_eq_some_iff]
    constructor
    · rintro ⟨items, hv, hlength⟩
      exact ⟨_, hv, Json.outline_eq_array.mpr ⟨items, rfl, hlength⟩⟩
    · rintro ⟨w, hw, hout⟩
      obtain ⟨items, rfl, hlength⟩ := Json.outline_eq_array.mp hout
      exact ⟨items, hw, hlength⟩
  rw [harray, harray, hsame]

/-- The parameters at a path beside the touched places are an array as in the document. -/
theorem parameters?_cases (h : p.Overlays root f touched) (natural : Natural q)
    (free : ∀ t, touched t → ¬ t <+: q) :
    (∃ items items', p.parameters? q = some items' ∧ p.root.valueAt? q = some (.arr items') ∧
        root.valueAt? q = some (.arr items) ∧ items'.length = items.length) ∨
      p.parameters? q = none ∧ ∀ items, root.valueAt? q ≠ some (.arr items) := by
  cases hparameters : p.parameters? q with
  | some items' =>
    have hat : p.root.at? q = some (.arr items') := by
      unfold Progress.parameters? at hparameters
      split at hparameters
      next heq =>
        cases hparameters
        exact heq
      next => cases hparameters
    have hvalue := Json.valueAt?_of_at?_arr natural hat
    obtain ⟨items, hitems, hlength⟩ := (h.array_eq free items'.length).mp ⟨items', hvalue, rfl⟩
    exact Or.inl ⟨items, items', rfl, hvalue, hitems, hlength.symm⟩
  | none =>
    refine Or.inr ⟨rfl, ?_⟩
    intro items hitems
    obtain ⟨items', hvalue, -⟩ := (h.array_eq free items.length).mpr ⟨items, hitems, rfl⟩
    rw [Progress.parameters?, Json.at?_of_valueAt? hvalue] at hparameters
    cases hparameters

/-- **Putting a text** records it if a string with another text stands at the place, and touches the
place. -/
theorem put (h : p.Overlays root f touched) (natural : Natural path)
    (free : ∀ t, touched t → ¬ t <+: path)
    (untouched : ∀ old, root.stringAt? path = some old → f path old = old) (text : Text) :
    (p.put path text).Overlays root (putText f path text) fun t => t = path ∨ touched t := by
  have hat : ∀ old, root.stringAt? path = some old → p.root.at? path = some (.str old) := by
    intro old hold
    exact Json.at?_of_valueAt? (Json.stringAt?_eq_some_iff.mp ((h.stringAt?_eq free old).mpr hold))
  have hother : ∀ {path' old}, path' ≠ path → root.stringAt? path' = some old →
      changedTexts (putText f path text) root path' = changedTexts f root path' := by
    intro path' old hne hold
    simp [changedTexts, hold, putText, hne]
  have hown : ∀ {old}, root.stringAt? path = some old →
      changedTexts (putText f path text) root path = if text = old then none else some text := by
    intro old hold
    simp [changedTexts, hold, putText]
  unfold Progress.put
  split
  next hsame =>
    refine ⟨?_, fun q hq => h.outlines q fun t ht => hq t (Or.inr ht)⟩
    intro path' old hold
    by_cases hpath : path' = path
    · subst hpath
      have heq : old = text := by
        rw [isString, hat old hold] at hsame
        simpa [Json.text?] using hsame
      rw [h.changed path' old hold, hown hold, if_pos heq.symm, changedTexts, hold, Option.bind_some,
        if_pos (untouched old hold)]
    · rw [h.changed path' old hold, hother hpath hold]
  next hdiff =>
    refine ⟨?_, ?_⟩
    · intro path' old hold
      rw [lookup?_assign]
      by_cases hpath : path' = path
      · subst hpath
        have hne : text ≠ old := by
          intro heq
          rw [isString, hat old hold] at hdiff
          exact hdiff (by simp [Json.text?, heq])
        rw [if_pos rfl, hown hold, if_neg hne]
      · rw [if_neg fun heq => hpath heq.symm, h.changed path' old hold, hother hpath hold]
    · intro q hq
      dsimp only
      rw [Json.outline_modifyAt _ natural (hq path (Or.inl rfl))]
      exact h.outlines q fun t ht => hq t (Or.inr ht)

/-- **The text that is written** has the value of the document with its strings mapped. -/
theorem read_written {document : Json.Document} (h : p.Overlays document.value f touched)
    (readable : document.Readable) :
    Json.read (p.written document.text document) = .ok (document.value.mapStrings f) := by
  have hedit : ∀ path old, document.value.stringAt? path = some old →
      (lookup? path p.changed).getD old = f path old := by
    intro path old hold
    rw [h.changed path old hold, changedTexts, hold, Option.bind_some]
    split
    next heq => exact heq.symm
    next => rfl
  unfold Progress.written
  split
  next hempty =>
    have hnone : ∀ path old, document.value.stringAt? path = some old → f path old = old := by
      intro path old hold
      rw [← hedit path old hold, List.isEmpty_iff.mp hempty]
      rfl
    have hsame : document.value.mapStrings f = document.value :=
      (Json.mapStrings_congr readable.wellKeyed hnone).trans
        (Json.mapStrings_self readable.wellKeyed)
    rw [hsame, Json.read, readable.read]
    rfl
  next =>
    have hmap : document.value.mapStrings
        (Json.NewTexts.edit fun path => lookup? path p.changed) = document.value.mapStrings f :=
      Json.mapStrings_congr readable.wellKeyed hedit
    rw [← hmap]
    exact Json.Document.read_splice readable fun path => lookup? path p.changed

end Progress.Overlays

end EventData

end GameText
