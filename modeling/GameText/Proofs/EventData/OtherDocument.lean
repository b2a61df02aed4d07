import GameText.Proofs.Edits
import GameText.Proofs.EventData.Overlay
import Mathlib.Data.List.Pairwise

/-!
# Reinsertion into another document

The addresses of an extraction, with any edited texts, can be taken to any other event data. No
address fails there. `currentText` says what becomes of each string: the plain text whose address
leads there, or else the string with the spans of changed values of a script call replaced, as far
as they still hold the recorded literals. Everything else stays (`reinsert_carried`).

The run is the one of `Collected`, with `Progress.Overlays` in place of `Progress.Shows`: an address
that leads to no string may touch its place in the state, but no other address looks there.
-/

namespace GameText

namespace EventData

open Json (Path Natural valueAt? mapStrings putText)

/-! ## What becomes of a string -/

/-- The edits for the script call at a path whose spans still hold what they are to replace. -/
def currentEdits (shape : Shape) (rows : List Row) (path : Path) (old : Text) :
    List ScriptCall.Edit :=
  (callEdits shape rows path).filter (ScriptCall.Edit.holdsIn old)

/-- What becomes of the string at a path of any document. -/
def currentText (shape : Shape) (rows : List Row) (path : Path) (old : Text) : Text :=
  (plainText? shape rows path).getD
    (old.replaceSpans ((currentEdits shape rows path old).map ScriptCall.Edit.asReplacement))

/-- The rows have the addresses of an extraction from some document. -/
structure Carried (rows : List Row) : Prop where
  regular : ∀ row ∈ rows, Regular row.1
  detached : rows.Pairwise fun r s => Detached r.1 s.1

theorem Carried.of_append {done : List Row} {row : Row} (h : Carried (done ++ [row])) :
    Carried done ∧ Regular row.1 ∧ ∀ r ∈ done, Detached r.1 row.1 := by
  obtain ⟨hdone, -, hlast⟩ := List.pairwise_append.mp h.detached
  exact ⟨⟨fun r hr => h.regular r (List.mem_append_left _ hr), hdone⟩,
    h.regular row (List.mem_append_right _ List.mem_cons_self),
    fun r hr => hlast r hr row List.mem_cons_self⟩

theorem Carried.detached_of_ne {rows : List Row} (h : Carried rows) {r s : Row} (hr : r ∈ rows)
    (hs : s ∈ rows) (hne : r ≠ s) : Detached r.1 s.1 := by
  have hsymm : Std.Symm fun r s : Row => Detached r.1 s.1 := ⟨fun _ _ h => h.symm⟩
  exact h.detached.forall hr hs hne

theorem Carried.independent {rows : List Row} (h : Carried rows) (shape : Shape) :
    rows.Pairwise fun r s => Independent shape r.1 s.1 :=
  h.detached.imp fun hdetached => hdetached.independent shape

/-- The path that a plain text of a row goes to. -/
def PlainTarget (shape : Shape) (rows : List Row) (path : Path) : Prop :=
  ∃ row ∈ rows, row.1.kind ≠ .embedded ∧ target? shape row.1 = some path

theorem PlainTarget.append {shape : Shape} {rows : List Row} {path : Path} (row : Row)
    (h : PlainTarget shape rows path) : PlainTarget shape (rows ++ [row]) path := by
  obtain ⟨r, hr, hrow⟩ := h
  exact ⟨r, List.mem_append_left _ hr, hrow⟩

/-! ## The edits of one script call -/

section Edits

variable {shape : Shape} {rows : List Row}

theorem Carried.scriptValue (h : Carried rows) {row : Row} (hrow : row ∈ rows)
    (hkind : row.1.kind = .embedded) : ScriptValue row.1 := by
  rcases (h.regular row hrow).kind with hplain | ⟨-, hvalue⟩
  · exact absurd hkind (kind_ne_embedded hplain)
  · exact hvalue

theorem measured_replacements {a : EventAddress} (h : ScriptValue a) (text : Text) :
    ∀ e ∈ replacements a text, e.Measured := by
  intro e he
  obtain ⟨span, hspan, rfl⟩ := List.mem_map.mp he
  obtain ⟨hstart, hlt, hlength⟩ := h.measured span hspan
  exact ⟨⟨hstart, hlt⟩, hlength⟩

theorem Carried.callEdits_measured (h : Carried rows) (path : Path) :
    ∀ e ∈ callEdits shape rows path, e.Measured := by
  intro e he
  obtain ⟨row, hrow, he⟩ := List.mem_flatMap.mp he
  split at he
  next hchosen => exact measured_replacements (h.scriptValue hrow hchosen.1) row.2 e he
  next => cases he

theorem Carried.callEdits_apart (h : Carried rows) (path : Path) :
    (callEdits shape rows path).Pairwise fun a b => a.asReplacement.Apart b.asReplacement := by
  have hapart : ∀ {x y : Int × Int} {s s' t t' : Text}, x.2 ≤ y.1 ∨ y.2 ≤ x.1 →
      Replacement.Apart (ScriptCall.Edit.asReplacement ⟨x.1, x.2, s, t⟩)
        (ScriptCall.Edit.asReplacement ⟨y.1, y.2, s', t'⟩) := by
    intro x y s s' t t' h
    exact h.imp Int.toNat_le_toNat Int.toNat_le_toNat
  rw [callEdits, List.pairwise_flatMap]
  refine ⟨?_, h.detached.imp fun {r s} hdetached e he e' he' => ?_⟩
  · intro row hrow
    -- the spans of one value
    split
    next hchosen =>
      refine List.pairwise_map.mpr ((h.scriptValue hrow hchosen.1).apart.imp ?_)
      intro x y hxy
      exact hapart hxy
    next => exact List.Pairwise.nil
  · -- the spans of two values
    split at he
    next hr =>
      split at he'
      next hs =>
        obtain ⟨x, hx, rfl⟩ := List.mem_map.mp he
        obtain ⟨y, hy, rfl⟩ := List.mem_map.mp he'
        exact hapart
          ((hdetached shape path path hr.2.1 hs.2.1 (Or.inl (List.prefix_refl _))).apart x hx y hy)
      next => cases he'
    next => cases he

/-- The edits of a script call, applied one after another, replace what they still find. -/
theorem Carried.applyEdits_eq (h : Carried rows) (path : Path) (old : Text) :
    ScriptCall.applyEdits old (callEdits shape rows path) =
      old.replaceSpans ((currentEdits shape rows path old).map ScriptCall.Edit.asReplacement) :=
  ScriptCall.applyEdits_eq_filter (h.callEdits_measured path) (h.callEdits_apart path) old

end Edits

/-! ## One row -/

theorem reach_of_le {length k : Nat} (h : length ≤ k) : reach length (k : Int) = .ok none := by
  rw [reach, if_pos (Int.ofNat_le.mpr h)]

/-- A plain text for a place that leads nowhere is passed over. -/
theorem writePlain_unreached {Call : Type} {p : Progress Call} {base : Path}
    {parameters : List Json} {place : ParameterPlace} (natural : Natural (steps place))
    (h : (Json.arr parameters).valueAt? (steps place) = none) (text : Text) :
    writePlain p base parameters place text = .ok p := by
  have hchild : ∀ (items : List Json) (k : Nat), (Json.arr items).child? (.index k) = items[k]? := by
    intro items k
    have hpos : ¬ (k : Int) < 0 := by omega
    rw [Json.child?, if_neg hpos, Int.toNat_natCast]
  cases place with
  | single i =>
    obtain ⟨k, rfl⟩ := Int.eq_ofNat_of_zero_le ((Json.natural_cons.mp natural).1 i rfl)
    rw [steps, valueAt?, hchild] at h
    cases hget : parameters[k]? with
    | some v =>
      rw [hget] at h
      cases h
    | none =>
      rw [writePlain, writeSingle, reach_of_le (List.getElem?_eq_none_iff.mp hget)]
      rfl
  | element outer inner =>
    obtain ⟨houter, hinner⟩ := Json.natural_cons.mp natural
    obtain ⟨k, rfl⟩ := Int.eq_ofNat_of_zero_le (houter outer rfl)
    obtain ⟨j, rfl⟩ := Int.eq_ofNat_of_zero_le ((Json.natural_cons.mp hinner).1 inner rfl)
    rw [steps, valueAt?, hchild] at h
    rw [writePlain, writeElement]
    cases hget : parameters[k]? with
    | none =>
      rw [reach_of_le (List.getElem?_eq_none_iff.mp hget)]
      rfl
    | some v =>
      rw [reach_natCast (List.getElem?_eq_some_iff.mp hget).1]
      simp only [bind, Except.bind, Option.bind, hget] at h ⊢
      cases v with
      | arr items =>
        rw [valueAt?, hchild] at h
        cases hitem : items[j]? with
        | some w =>
          rw [hitem] at h
          cases h
        | none =>
          dsimp only
          rw [reach_of_le (List.getElem?_eq_none_iff.mp hitem)]
          rfl
      | _ => rfl

/-- A value for a place where no string stands is passed over. -/
theorem collect_unreached {p : Progress PendingCall} {a : EventAddress} {base : Path}
    {parameters : List Json} {k : Nat} (place : a.parameter = .single k)
    (h : ∀ s, parameters[k]? ≠ some (.str s)) (text : Text) :
    collect p a base parameters text = .ok p := by
  rw [collect, place]
  dsimp only
  split
  next => rfl
  next =>
    rcases Nat.lt_or_ge k parameters.length with hk | hk
    · rw [reach_natCast hk]
      simp only [bind, Except.bind, Option.bind]
      cases hget : parameters[k]? with
      | none => rfl
      | some v =>
        cases v with
        | str s => exact absurd hget (h s)
        | _ => rfl
    · rw [reach_of_le hk]
      rfl

/-- No string stands below parameters that are no array. -/
theorem stringAt?_steps_of_not_arr {root : Json} {base : Path}
    (h : ∀ items, root.valueAt? base ≠ some (.arr items)) (place : ParameterPlace) :
    root.stringAt? (base ++ steps place) = none := by
  rw [Json.stringAt?, Json.valueAt?_append]
  cases hv : root.valueAt? base with
  | none => rfl
  | some v =>
    cases v with
    | arr items => exact absurd hv (h items)
    | _ => cases place <;> rfl

/-- **What the rows that are done have brought about** in another document. -/
structure Brought (shape : Shape) (root : Json) (done : List Row) (p : Progress PendingCall) :
    Prop where
  overlays : p.Overlays root (plainText shape done) (PlainTarget shape done)
  gathered : Gathered shape done (fun path => ∃ old, root.stringAt? path = some old) p.pending
  strings : ∀ call ∈ p.pending, ∃ old, root.stringAt? call.path = some old

section Step

variable {shape : Shape} {root : Json} {done : List Row} {row : Row} {p : Progress PendingCall}

/-- A row that leads to no string, and changes nothing in the state, is passed over. -/
theorem Brought.passed (h : Brought shape root done p)
    (hnone : ∀ path, target? shape row.1 = some path → root.stringAt? path = none) :
    Brought shape root (done ++ [row]) p := by
  have hother : ∀ path old, root.stringAt? path = some old → target? shape row.1 ≠ some path := by
    intro path old hold htarget
    rw [hnone path htarget] at hold
    cases hold
  have hedits : ∀ path old, root.stringAt? path = some old →
      callEdits shape (done ++ [row]) path = callEdits shape done path := by
    intro path old hold
    rw [callEdits_append, if_neg fun hrow => hother path old hold hrow.2.1, List.append_nil]
  refine ⟨h.overlays.congr ?_ fun t ht => ht.append row, h.gathered.idle ?_ ?_, h.strings⟩
  · intro path old hold
    rw [plainText, plainText, plainText?_append, if_neg fun hrow => hother path old hold hrow.2,
      Option.or_none]
  · intro call hcall
    obtain ⟨old, hold⟩ := h.strings call hcall
    exact hedits call.path old hold
  · rintro path ⟨old, hold⟩
    exact hedits path old hold

/-- The row of a value that did not change, or is nowhere in its call, changes nothing. -/
theorem Brought.unchanged (h : Brought shape root done p) (hkind : row.1.kind = .embedded)
    (hsame : row.2 = row.1.value ∨ replacements row.1 row.2 = []) :
    Brought shape root (done ++ [row]) p := by
  have hedits : ∀ path, callEdits shape (done ++ [row]) path = callEdits shape done path := by
    intro path
    rw [callEdits_append]
    split
    next hrow => rw [hsame.resolve_left hrow.2.2, List.append_nil]
    next => rw [List.append_nil]
  refine ⟨?_, h.gathered.idle (fun call _ => hedits call.path) fun path _ => hedits path, h.strings⟩
  rw [plainText_append_of_embedded hkind]
  exact h.overlays.congr (fun _ _ _ => rfl) fun t ht => ht.append row

/-- No place that is touched contains the place of a row that is still to come. -/
theorem not_touched (hdetached : ∀ r ∈ done, Detached r.1 row.1) {path : Path}
    (htarget : target? shape row.1 = some path) : ∀ t, PlainTarget shape done t → ¬ t <+: path := by
  rintro t ⟨r, hr, hkind, ht⟩ hprefix
  exact hkind (hdetached r hr shape t path ht htarget (Or.inl hprefix)).embedded.1

/-- A plain text is put at its place, whatever stands there. -/
theorem Brought.plain (h : Brought shape root done p) (regular : Regular row.1)
    (hdetached : ∀ r ∈ done, Detached r.1 row.1) (hkind : row.1.kind = .plain) {base : Path}
    (hbase : parametersPath? shape row.1.container (.index row.1.command) = some base) :
    Brought shape root (done ++ [row])
      (p.put (base ++ steps row.1.parameter) (row.1.speaker ++ row.2)) := by
  have htarget : target? shape row.1 = some (base ++ steps row.1.parameter) := by
    rw [target?, hbase]
    rfl
  have hnatural : Natural (base ++ steps row.1.parameter) :=
    Json.natural_append.mpr (regular.natural_base hbase)
  have hnone := plainText?_eq_none (fun r hr => (hdetached r hr).independent shape) hkind htarget
  refine ⟨?_, ?_, ?_⟩
  · rw [← putText_plainText hkind hnone htarget]
    refine (h.overlays.put hnatural (not_touched hdetached htarget) ?_ _).congr
      (fun _ _ _ => rfl) ?_
    · intro old _
      rw [plainText, hnone]
      rfl
    · rintro t (rfl | ht)
      · exact ⟨row, List.mem_append_right _ List.mem_cons_self, kind_ne_embedded hkind, htarget⟩
      · exact ht.append row
  · rw [pending_put]
    exact h.gathered.idle (fun call _ => callEdits_append_of_plain hkind _)
      fun path _ => callEdits_append_of_plain hkind path
  · rw [pending_put]
    exact h.strings

theorem Brought.step_plain (h : Brought shape root done p) (regular : Regular row.1)
    (hdetached : ∀ r ∈ done, Detached r.1 row.1) (hkind : row.1.kind = .plain) {base : Path}
    (hbase : parametersPath? shape row.1.container (.index row.1.command) = some base)
    {parameters : List Json} (hparameters : p.root.valueAt? base = some (.arr parameters)) :
    ∃ p', writePlain p base parameters row.1.parameter (row.1.speaker ++ row.2) = .ok p' ∧
      Brought shape root (done ++ [row]) p' := by
  have htarget : target? shape row.1 = some (base ++ steps row.1.parameter) := by
    rw [target?, hbase]
    rfl
  cases hplace : (Json.arr parameters).valueAt? (steps row.1.parameter) with
  | some v => exact ⟨_, writePlain_reached _ hplace, h.plain regular hdetached hkind hbase⟩
  | none =>
    refine ⟨p, writePlain_unreached (regular.natural_base hbase).2 hplace _, h.passed ?_⟩
    intro path hpath
    obtain rfl := Option.some.inj (htarget.symm.trans hpath)
    cases hold : root.stringAt? (base ++ steps row.1.parameter) with
    | none => rfl
    | some old =>
      have hshown := (h.overlays.stringAt?_eq (not_touched hdetached htarget) old).mpr hold
      rw [Json.stringAt?_eq_some_iff, Json.valueAt?_append, hparameters, Option.bind_some,
        hplace] at hshown
      cases hshown

theorem Brought.step_embedded (h : Brought shape root done p) (regular : Regular row.1)
    (hdetached : ∀ r ∈ done, Detached r.1 row.1) (hkind : row.1.kind = .embedded)
    (value : ScriptValue row.1) {base : Path}
    (hbase : parametersPath? shape row.1.container (.index row.1.command) = some base)
    {parameters : List Json} (hparameters : p.root.valueAt? base = some (.arr parameters)) :
    ∃ p', collect p row.1 base parameters row.2 = .ok p' ∧
      Brought shape root (done ++ [row]) p' := by
  obtain ⟨i, place⟩ := value.single
  have hnatural := (regular.natural_base hbase).2
  rw [place] at hnatural
  obtain ⟨k, rfl⟩ := Int.eq_ofNat_of_zero_le ((Json.natural_cons.mp hnatural).1 i rfl)
  have htarget : target? shape row.1 = some (base ++ [.index k]) := target?_of_single hbase place
  have hitem : p.root.valueAt? (base ++ [.index k]) = parameters[k]? := by
    have hpos : ¬ (k : Int) < 0 := by omega
    rw [Json.valueAt?_append, hparameters, Option.bind_some, valueAt?, Json.child?, if_neg hpos,
      Int.toNat_natCast]
    cases parameters[k]? <;> rfl
  have hshown : ∀ s, parameters[k]? = some (.str s) ↔ root.stringAt? (base ++ [.index k]) = some s := by
    intro s
    rw [← hitem, ← Json.stringAt?_eq_some_iff]
    exact h.overlays.stringAt?_eq (not_touched hdetached htarget) s
  by_cases hstring : ∃ s, parameters[k]? = some (.str s)
  · obtain ⟨s, hs⟩ := hstring
    refine ⟨_, collect_reached place hs row.2, ?_⟩
    by_cases hsame : row.2 = row.1.value ∨ replacements row.1 row.2 = []
    · rw [if_pos hsame]
      exact h.unchanged hkind hsame
    · rw [if_neg hsame]
      have hlive : ∃ old, root.stringAt? (base ++ [.index (k : Int)]) = some old :=
        ⟨s, (hshown s).mp hs⟩
      refine ⟨?_, h.gathered.add (fun r hr => (hdetached r hr).independent shape) hkind place hbase
        hlive fun heq => hsame (Or.inl heq), ?_⟩
      · rw [plainText_append_of_embedded hkind]
        exact ⟨h.overlays.changed, fun q hq =>
          h.overlays.outlines q fun t ht => hq t (ht.append row)⟩
      · intro call hcall
        rcases mem_addPending h.gathered.nodup hcall with ⟨hmem, -⟩ | ⟨earlier, rfl, -⟩
        · exact h.strings call hmem
        · exact hlive
  · refine ⟨p, collect_unreached place (fun s hs => hstring ⟨s, hs⟩) row.2, h.passed ?_⟩
    intro path hpath
    obtain rfl := Option.some.inj (htarget.symm.trans hpath)
    cases hold : root.stringAt? (base ++ [.index (k : Int)]) with
    | none => rfl
    | some old => exact absurd ⟨old, (hshown old).mpr hold⟩ hstring

/-- **One row**: it does not fail, and the invariant goes on. -/
theorem brought_step (h : Brought shape root done p) (carried : Carried (done ++ [row])) :
    ∃ p', writeUnit shape p row.1 row.2 = .ok p' ∧ Brought shape root (done ++ [row]) p' := by
  obtain ⟨hdone, regular, hdetached⟩ := carried.of_append
  cases hbase : parametersPath? shape row.1.container (.index row.1.command) with
  | none =>
    refine ⟨p, by simp only [writeUnit, hbase], h.passed ?_⟩
    intro path hpath
    rw [target?, hbase] at hpath
    cases hpath
  | some base =>
    have hfree : ∀ t, PlainTarget shape done t → ¬ t <+: base := by
      rintro t ⟨r, hr, -, ht⟩
      exact not_target_prefix_base (hdone.regular r hr).container ht regular.container hbase
    rcases h.overlays.parameters?_cases (regular.natural_base hbase).1 hfree with
      ⟨-, parameters, hparameters, hvalue, -, -⟩ | ⟨hparameters, hnone⟩
    · simp only [writeUnit, hbase, hparameters]
      rcases regular.kind with hkind | ⟨hkind, value⟩
      · rw [if_neg (kind_ne_embedded hkind)]
        exact h.step_plain regular hdetached hkind hbase hvalue
      · rw [if_pos hkind]
        exact h.step_embedded regular hdetached hkind value hbase hvalue
    · refine ⟨p, by simp only [writeUnit, hbase, hparameters], h.passed ?_⟩
      intro path hpath
      rw [target?, hbase] at hpath
      cases hpath
      exact stringAt?_steps_of_not_arr hnone row.1.parameter

/-- **All rows**: none fails. -/
theorem brought_run {rows : List Row} (h : Brought shape root done p)
    (carried : Carried (done ++ rows)) :
    ∃ p', rows.foldlM (fun p row => writeUnit shape p row.1 row.2) p = .ok p' ∧
      Brought shape root (done ++ rows) p' := by
  induction rows generalizing done p with
  | nil =>
    rw [List.append_nil]
    exact ⟨p, rfl, h⟩
  | cons row rows ih =>
    rw [List.append_cons] at carried ⊢
    have hfirst : Carried (done ++ [row]) :=
      ⟨fun r hr => carried.regular r (List.mem_append_left _ hr),
        (List.pairwise_append.mp carried.detached).1⟩
    obtain ⟨p', hstep, hbrought⟩ := brought_step h hfirst
    obtain ⟨p'', hrun, hall⟩ := ih hbrought carried
    refine ⟨p'', ?_, hall⟩
    rw [List.foldlM_cons, hstep]
    exact hrun

theorem brought_start : Brought shape root [] ({ root } : Progress PendingCall) where
  overlays := Progress.Overlays.start.congr (fun _ _ _ => rfl) fun _ ht => ht.elim
  gathered := ⟨List.nodup_nil, fun _ hcall => (nomatch hcall), fun _ _ hne => absurd rfl hne⟩
  strings := fun _ hcall => (nomatch hcall)

end Step

/-! ## The script calls at the end -/

/-- Finishing calls at strings of which none contains another, each of them at a place that is not
touched, gives each of them all its edits and leaves the other strings alone. -/
theorem finish_overlays {root : Json} {calls : List PendingCall} {f : Path → Text → Text}
    {touched : Path → Prop} {p : Progress PendingCall} (h : p.Overlays root f touched)
    (distinct : calls.Pairwise fun c c' => ¬ c.path <+: c'.path)
    (free : ∀ call ∈ calls, ∀ t, touched t → ¬ t <+: call.path)
    (untouched : ∀ call ∈ calls, ∃ old, root.stringAt? call.path = some old ∧
      f call.path old = old) :
    ∃ g touched', (calls.foldl finishCall p).Overlays root g touched' ∧
      (∀ path, (∀ call ∈ calls, call.path ≠ path) → g path = f path) ∧
      ∀ call ∈ calls, ∀ old, root.stringAt? call.path = some old →
        g call.path old = ScriptCall.applyEdits old call.edits := by
  induction calls generalizing f touched p with
  | nil => exact ⟨f, touched, h, fun _ _ => rfl, fun _ hcall => (nomatch hcall)⟩
  | cons c calls ih =>
    obtain ⟨hfirst, hrest⟩ := List.pairwise_cons.mp distinct
    obtain ⟨old, hold, hsame⟩ := untouched c List.mem_cons_self
    have hnatural : Natural c.path :=
      Json.natural_of_valueAt? (Json.stringAt?_eq_some_iff.mp hold)
    have hfree := free c List.mem_cons_self
    have hshown := (h.stringAt?_eq hfree old).mpr hold
    have hput := h.put hnatural hfree (fun old' hold' => by
      rw [hold] at hold'
      cases hold'
      exact hsame) (ScriptCall.applyEdits old c.edits)
    rw [← finishCall_of_at? (Json.at?_of_valueAt? (Json.stringAt?_eq_some_iff.mp hshown))] at hput
    have hne : ∀ call ∈ calls, call.path ≠ c.path := by
      intro call hcall heq
      exact hfirst call hcall (heq ▸ List.prefix_refl _)
    have hothers : ∀ path, path ≠ c.path →
        putText f c.path (ScriptCall.applyEdits old c.edits) path = f path := by
      intro path hpath
      funext s
      rw [putText, if_neg hpath]
    obtain ⟨g, touched', hoverlays, hkept, hgiven⟩ := ih hput hrest
      (fun call hcall t ht => ht.elim (fun heq => heq ▸ hfirst call hcall)
        (free call (List.mem_cons_of_mem _ hcall) t))
      (fun call hcall => by
        obtain ⟨s, hs, hsame⟩ := untouched call (List.mem_cons_of_mem _ hcall)
        exact ⟨s, hs, by rw [hothers _ (hne call hcall), hsame]⟩)
    refine ⟨g, touched', hoverlays, ?_, ?_⟩
    · intro path hpath
      rw [hkept path fun call hcall => hpath call (List.mem_cons_of_mem _ hcall)]
      exact hothers path (hpath c List.mem_cons_self).symm
    · intro call hcall s hs
      rcases List.mem_cons.mp hcall with rfl | hcall
      · rw [hkept call.path hne, putText, if_pos rfl]
        rw [hold] at hs
        cases hs
        rfl
      · exact hgiven call hcall s hs

section Finished

variable {shape : Shape} {root : Json} {rows : List Row} {p : Progress PendingCall}

/-- Two entries that wait are of different places. -/
theorem Brought.paths_distinct (h : Brought shape root rows p) (carried : Carried rows) :
    p.pending.Pairwise fun c c' => ¬ c.path <+: c'.path := by
  refine (List.pairwise_map.mp h.gathered.nodup).imp_of_mem ?_
  intro c c' hc hc' hsite hprefix
  obtain ⟨r, hr, -, place, hcontainer, hcommand, htarget⟩ := (h.gathered.waiting c hc).target
  obtain ⟨r', hr', -, place', hcontainer', hcommand', htarget'⟩ :=
    (h.gathered.waiting c' hc').target
  have hfields : r.1.container = r'.1.container ∧ r.1.command = r'.1.command ∧
      r.1.parameter = r'.1.parameter := by
    by_cases heq : r = r'
    · rw [heq]
      exact ⟨rfl, rfl, rfl⟩
    · have hsame := carried.detached_of_ne hr hr' heq shape _ _ htarget htarget' (Or.inl hprefix)
      exact ⟨hsame.container, hsame.command, hsame.parameter⟩
  have hindex := place.symm.trans (hfields.2.2.trans place')
  refine hsite ?_
  obtain ⟨⟨container, command, parameter⟩, parameters, edits⟩ := c
  obtain ⟨⟨container', command', parameter'⟩, parameters', edits'⟩ := c'
  dsimp only at hcontainer hcommand hcontainer' hcommand' hindex ⊢
  cases hindex
  rw [← hcontainer, ← hcommand, ← hcontainer', ← hcommand', hfields.1, hfields.2.1]

/-- **Once the script calls are finished** every string has become what the rows say. -/
theorem Brought.finished (h : Brought shape root rows p) (carried : Carried rows) :
    ∃ touched, (p.pending.foldl finishCall p).Overlays root (currentText shape rows) touched := by
  have hplain : ∀ call ∈ p.pending, plainText? shape rows call.path = none := by
    intro call hcall
    obtain ⟨r, hr, hkind, -, -, -, htarget⟩ := (h.gathered.waiting call hcall).target
    exact plainText?_of_embedded (carried.independent shape) hr hkind htarget
  have hfree : ∀ call ∈ p.pending, ∀ t, PlainTarget shape rows t → ¬ t <+: call.path := by
    rintro call hcall t ⟨row, hrow, hkind, ht⟩ hprefix
    obtain ⟨r, hr, hembedded, -, -, -, htarget⟩ := (h.gathered.waiting call hcall).target
    have hne : row ≠ r := by
      rintro rfl
      exact hkind hembedded
    exact hkind (carried.detached_of_ne hrow hr hne shape t _ ht htarget (Or.inl hprefix)).embedded.1
  obtain ⟨g, touched, hoverlays, hkept, hgiven⟩ := finish_overlays h.overlays
    (h.paths_distinct carried) hfree fun call hcall => by
      obtain ⟨old, hold⟩ := h.strings call hcall
      refine ⟨old, hold, ?_⟩
      rw [plainText, hplain call hcall]
      rfl
  refine ⟨touched, hoverlays.congr ?_ fun _ ht => ht⟩
  intro path old hold
  by_cases hwaits : ∃ call ∈ p.pending, call.path = path
  · obtain ⟨call, hcall, rfl⟩ := hwaits
    rw [hgiven call hcall old hold, (h.gathered.waiting call hcall).edits, carried.applyEdits_eq,
      currentText, hplain call hcall]
    rfl
  · have hnoEdits : callEdits shape rows path = [] := by
      by_contra hne
      exact hwaits (h.gathered.complete path ⟨old, hold⟩ hne)
    rw [hkept path fun call hcall heq => hwaits ⟨call, hcall, heq⟩, plainText, currentText,
      currentEdits, hnoEdits, List.filter_nil, List.map_nil, Text.replaceSpans_nil]

end Finished

/-! ## What a reinsertion into another document gives -/

/-- **No address fails in another document**, and the text that is written has the value of the
document with its strings mapped by what the rows say of them. -/
theorem reinsert_carried {source : Text} {shape : Shape} {document : Json.Document}
    (hread : read source = .ok (shape, document)) {mapping : List EventAddress} {edits : Edits}
    (carried : Carried (Edits.rows mapping edits)) :
    ∃ out, reinsert source mapping edits = .ok out ∧ Json.read out =
      .ok (document.value.mapStrings (currentText shape (Edits.rows mapping edits))) := by
  obtain ⟨readable, htext⟩ := document_of_read hread
  have hall : ∃ p, (Edits.rows mapping edits).foldlM
      (fun p row => writeUnit shape p row.1 row.2) { root := document.value } = .ok p ∧
      Brought shape document.value (Edits.rows mapping edits) p :=
    brought_run brought_start carried
  obtain ⟨p, hrun, hbrought⟩ := hall
  obtain ⟨touched, hoverlays⟩ := hbrought.finished carried
  rw [Edits.rows, List.foldlM_map] at hrun
  refine ⟨(p.pending.foldl finishCall p).written source document, ?_, ?_⟩
  · unfold reinsert
    rw [hread]
    simp only [Except.mapError, bind, Except.bind]
    rw [hrun]
    rfl
  · rw [← htext]
    exact hoverlays.read_written readable

/-- The addresses of an extraction with edited texts, whatever document they are taken to. -/
theorem carried_rows {scripts : Bool} {source : Text} {units : List EventUnit}
    (h : extract scripts source = .ok units) (edits : Edits) :
    Carried (Edits.rows (units.map (·.2)) edits) := by
  obtain ⟨regular, detached⟩ := extract_detached h
  refine ⟨?_, Edits.pairwise_rows (List.pairwise_map.mpr detached) edits⟩
  intro row hrow
  obtain ⟨u, hu, heq⟩ := List.mem_map.mp (Edits.fst_mem_of_mem_rows hrow)
  rw [← heq]
  exact regular u hu

/-- What edited texts with the addresses of another document make of a value. -/
structure Overwritten (shape : Shape) (rows : List Row) (before after : Json) : Prop where
  /-- Only strings are replaced, each by what becomes of it. -/
  strings : after = before.mapStrings (currentText shape rows)
  /-- A string that no address leads to is as it was. -/
  others : ∀ path old, before.stringAt? path = some old →
    (∀ row ∈ rows, target? shape row.1 ≠ some path) → after.stringAt? path = some old
  /-- A string that the address of a plain text leads to is that text behind its speaker's name. -/
  plain : ∀ row ∈ rows, row.1.kind = .plain → ∀ path old, target? shape row.1 = some path →
    before.stringAt? path = some old → after.stringAt? path = some (row.1.speaker ++ row.2)
  /-- A script call has new literals in the place of spans. -/
  embedded : ∀ row ∈ rows, row.1.kind = .embedded → ∀ path old, target? shape row.1 = some path →
    before.stringAt? path = some old → after.stringAt? path =
      some (old.replaceSpans ((currentEdits shape rows path old).map ScriptCall.Edit.asReplacement))
  /-- These spans are recorded by an address of a value of the call, whose text has changed, and hold
  the recorded literal. -/
  spans : ∀ path old, ∀ e ∈ currentEdits shape rows path old,
    old.slice e.start e.stop = e.expected ∧ ∃ row ∈ rows, row.1.kind = .embedded ∧
      target? shape row.1 = some path ∧ row.2 ≠ row.1.value ∧ e.expected = row.1.written ∧
      (e.start, e.stop) ∈ row.1.spans

theorem Carried.overwritten {rows : List Row} (h : Carried rows) (shape : Shape) (before : Json) :
    Overwritten shape rows before (before.mapStrings (currentText shape rows)) where
  strings := rfl
  others := by
    intro path old hold hnone
    have hplain : plainText? shape rows path = none :=
      plainText?_eq_none_iff.mpr fun row hrow _ => hnone row hrow
    have hedits : currentEdits shape rows path old = [] := by
      refine List.filter_eq_nil_iff.mpr ?_
      intro e he
      obtain ⟨row, hrow, -, htarget, -⟩ := mem_callEdits.mp he
      exact absurd htarget (hnone row hrow)
    rw [Json.stringAt?_mapStrings, hold, Option.map_some, currentText, hplain, hedits, List.map_nil,
      Text.replaceSpans_nil]
    rfl
  plain := by
    intro row hrow hkind path old htarget hold
    have hnew := plainText?_of_plain (h.independent shape) hrow hkind htarget
    rw [Json.stringAt?_mapStrings, hold, Option.map_some, currentText, hnew]
    rfl
  embedded := by
    intro row hrow hkind path old htarget hold
    rw [Json.stringAt?_mapStrings, hold, Option.map_some, currentText,
      plainText?_of_embedded (h.independent shape) hrow hkind htarget]
    rfl
  spans := by
    intro path old e he
    obtain ⟨hmem, hholds⟩ := List.mem_filter.mp he
    obtain ⟨row, hrow, hkind, htarget, hchanged, he⟩ := mem_callEdits.mp hmem
    obtain ⟨span, hspan, rfl⟩ := List.mem_map.mp he
    exact ⟨beq_iff_eq.mp hholds, row, hrow, hkind, htarget, hchanged, rfl, hspan⟩

end EventData

end GameText
