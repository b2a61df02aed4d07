import GameText.EventData.Reinsert
import GameText.Proofs.EventData.Address
import GameText.Proofs.Json.SpliceValue

/-!
# What a reinsertion has done so far

`Progress.Shows` ties the state of a reinsertion to the document it began with: the value is that of
the document with its leaves mapped by a function, and the recorded changes are the leaves that the
function changes. One step puts one text at the path of a leaf that was not touched before, and the
function is changed there (`Progress.Shows.put`); a place among the parameters that leads to a
string is such a path (`writePlain_reached`). At the end the text that is written is the document
with those leaves written anew (`Progress.Shows.written`).
-/

namespace GameText

namespace Json

/-- The leaves that a function changes, with their new texts. -/
def changedTexts (f : Path → Text → Text) (v : Json) : NewTexts := fun path =>
  (v.stringAt? path).bind fun old => if f path old = old then none else some (f path old)

theorem changedTexts_eq_some_iff {f : Path → Text → Text} {v : Json} {path : Path} {text : Text} :
    changedTexts f v path = some text ↔
      ∃ old, v.stringAt? path = some old ∧ f path old ≠ old ∧ text = f path old := by
  rw [changedTexts, Option.bind_eq_some_iff]
  refine exists_congr fun old => and_congr_right fun _ => ?_
  split
  next h => simp [h]
  next h => simp [h, eq_comm]

theorem changedTexts_congr {f g : Path → Text → Text} {v : Json}
    (h : ∀ path old, v.stringAt? path = some old → f path old = g path old) :
    changedTexts f v = changedTexts g v := by
  funext path
  rw [changedTexts, changedTexts]
  cases hold : v.stringAt? path with
  | none => rfl
  | some old => rw [Option.bind_some, Option.bind_some, h path old hold]

/-- Writing the changed leaves maps all leaves. -/
theorem mapStrings_changedTexts {v : Json} (keyed : v.WellKeyed) (f : Path → Text → Text) :
    v.mapStrings (changedTexts f v).edit = v.mapStrings f := by
  refine mapStrings_congr keyed ?_
  intro path old hold
  rw [NewTexts.edit, changedTexts, hold, Option.bind_some]
  split
  next h => exact h.symm
  next => rfl

end Json

namespace EventData

open Json (Path Step valueAt? mapStrings mapItems changedTexts putText child?)

/-- The state shows the document with its leaves mapped, and records those that changed. -/
structure Progress.Shows {Call : Type} (root : Json) (f : Path → Text → Text) (p : Progress Call) :
    Prop where
  root_eq : p.root = root.mapStrings f
  changed_eq : ∀ path, lookup? path p.changed = changedTexts f root path

variable {Call : Type} {root : Json} {f g : Path → Text → Text} {p : Progress Call}

namespace Progress.Shows

theorem congr (h : p.Shows root f) (keyed : root.WellKeyed)
    (hfg : ∀ path old, root.stringAt? path = some old → f path old = g path old) :
    p.Shows root g :=
  ⟨h.root_eq.trans (Json.mapStrings_congr keyed hfg),
    fun path => (h.changed_eq path).trans (congrFun (Json.changedTexts_congr hfg) path)⟩

theorem start (keyed : root.WellKeyed) :
    ({ root } : Progress Call).Shows root fun _ old => old := by
  refine ⟨(Json.mapStrings_self keyed).symm, ?_⟩
  intro path
  rw [changedTexts]
  cases root.stringAt? path with
  | none => rfl
  | some old => simp [lookup?]

/-- **Putting a text at a leaf** that was not touched changes the function there. -/
theorem put (h : p.Shows root f) (keyed : root.WellKeyed) {path : Path} {old : Text}
    (hold : root.stringAt? path = some old) (untouched : f path old = old) (text : Text) :
    (p.put path text).Shows root (putText f path text) := by
  have hat : p.root.at? path = some (.str old) := by
    rw [h.root_eq]
    refine Json.at?_of_valueAt? (Json.stringAt?_eq_some_iff.mp ?_)
    rw [Json.stringAt?_mapStrings, hold, Option.map_some, untouched]
  unfold Progress.put
  split
  next hsame =>
    rw [isString, hat] at hsame
    have heq : old = text := by simpa [Json.text?] using hsame
    refine h.congr keyed ?_
    intro path' old' hold'
    by_cases hpath : path' = path
    · subst hpath
      rw [hold] at hold'
      cases hold'
      rw [putText, if_pos rfl, untouched, heq]
    · rw [putText, if_neg hpath]
  next hdiff =>
    have hne : text ≠ old := by
      intro heq
      rw [isString, hat] at hdiff
      exact hdiff (by simp [Json.text?, heq])
    refine ⟨?_, ?_⟩
    · rw [h.root_eq]
      exact Json.modifyAt_mapStrings keyed hold f text
    · intro path'
      rw [lookup?_assign, h.changed_eq, changedTexts, changedTexts]
      split
      next hpath =>
        subst hpath
        simp [hold, putText, hne]
      next hpath =>
        have hpath' : path' ≠ path := fun h => hpath h.symm
        simp [putText, hpath']

theorem at? (h : p.Shows root f) {path : Path} {v : Json} (hv : root.valueAt? path = some v) :
    p.root.at? path = some (v.mapStrings fun below => f (path ++ below)) := by
  rw [h.root_eq]
  refine Json.at?_of_valueAt? ?_
  rw [Json.valueAt?_mapStrings, hv]
  rfl

/-- The parameters at the path of an array of parameters. -/
theorem parameters? (h : p.Shows root f) {base : Path} {parameters : List Json}
    (hv : root.valueAt? base = some (.arr parameters)) :
    p.parameters? base = some (mapItems (fun below => f (base ++ below)) 0 parameters) := by
  rw [Progress.parameters?, h.at? hv]
  rfl

theorem parameters?_of_str (h : p.Shows root f) {base : Path} {s : Text}
    (hv : root.valueAt? base = some (.str s)) : p.parameters? base = none := by
  rw [Progress.parameters?, h.at? hv]
  rfl

/-- **The text that is written** is the document with the changed leaves written anew. -/
theorem written {document : Json.Document} (h : p.Shows document.value f)
    (readable : document.Readable) :
    p.written document.text document =
      (document.splice (changedTexts f document.value).changes).text := by
  have hchanges : p.changes = (changedTexts f document.value).changes := by
    funext path
    rw [Progress.changes, h.changed_eq]
    rfl
  unfold Progress.written
  split
  next hempty =>
    have hnone : changedTexts f document.value = fun _ => none := by
      funext path
      rw [← h.changed_eq, List.isEmpty_iff.mp hempty]
      rfl
    rw [hnone, Json.Document.splice_text readable, Json.Document.replacements_none]
    exact (Text.replaceSpans_nil document.text).symm
  next => rw [hchanges]

end Progress.Shows

/-! ## Places among the parameters -/

theorem reach_natCast {length k : Nat} (h : k < length) : reach length (k : Int) = .ok (some k) := by
  have hlt : ¬ (length : Int) ≤ k := by omega
  rw [reach, if_neg hlt, Json.index?_natCast h]

/-- An index that leads to a value is the natural number of its place. -/
theorem exists_of_child?_index {items : List Json} {i : Int} {v : Json}
    (h : (Json.arr items).child? (.index i) = some v) :
    ∃ k : Nat, i = k ∧ items[k]? = some v ∧ k < items.length := by
  rw [child?] at h
  split at h
  next => cases h
  next hi =>
    obtain ⟨k, rfl⟩ := Int.eq_ofNat_of_zero_le (Int.not_lt.mp hi)
    rw [Int.toNat_natCast] at h
    exact ⟨k, rfl, h, (List.getElem?_eq_some_iff.mp h).1⟩

/-- A plain text for a place that leads somewhere is put there. -/
theorem writePlain_reached {p : Progress Call} {base : Path} {parameters : List Json}
    {place : ParameterPlace} {v : Json} (text : Text)
    (h : (Json.arr parameters).valueAt? (steps place) = some v) :
    writePlain p base parameters place text = .ok (p.put (base ++ steps place) text) := by
  cases place with
  | single i =>
    obtain ⟨w, hw, -⟩ := Option.bind_eq_some_iff.mp h
    obtain ⟨k, rfl, -, hk⟩ := exists_of_child?_index hw
    rw [writePlain, writeSingle, reach_natCast hk]
    rfl
  | element outer inner =>
    obtain ⟨w, hw, hinner⟩ := Option.bind_eq_some_iff.mp h
    obtain ⟨k, rfl, hitem, hk⟩ := exists_of_child?_index hw
    obtain ⟨w', hw', -⟩ := Option.bind_eq_some_iff.mp hinner
    cases w with
    | arr items =>
      obtain ⟨j, rfl, -, hj⟩ := exists_of_child?_index hw'
      rw [writePlain, writeElement, reach_natCast hk]
      simp only [bind, Except.bind, Option.bind, hitem]
      rw [reach_natCast hj]
      rfl
    | _ => cases hw'

end EventData

end GameText
