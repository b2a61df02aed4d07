import GameText.Proofs.EventData.Progress
import Mathlib.Data.List.Pairwise

/-!
# Texts brought to their places one by one

`leafText` says what becomes of each string when addresses with their edited texts are worked off:
the plain text whose address leads there, or else the string with the spans of all changed values of
a script call replaced at once. Working off the rows one by one collects this in two parts, and
`Collected` is the invariant of both: the plain texts stand in the value, and for every script call
with changed values one pending entry holds all their edits in the order of the rows
(`collected_step`, `collected_run`).
-/

namespace GameText

namespace EventData

open Json (Path Step valueAt? mapItems putText)

/-- An address with its edited text. -/
abbrev Row := EventAddress × Text

/-! ## What becomes of a string -/

/-- The plain text that goes to a path. -/
def plainText? (shape : Shape) (rows : List Row) (path : Path) : Option Text :=
  (rows.find? fun row => row.1.kind ≠ .embedded ∧ target? shape row.1 = some path).map fun row =>
    row.1.speaker ++ row.2

/-- The edits of the values of the script call at a path: those of every value whose text changed. -/
def callEdits (shape : Shape) (rows : List Row) (path : Path) : List ScriptCall.Edit :=
  rows.flatMap fun row =>
    if row.1.kind = .embedded ∧ target? shape row.1 = some path ∧ row.2 ≠ row.1.value then
      replacements row.1 row.2
    else []

/-- What becomes of the string at a path. -/
def leafText (shape : Shape) (rows : List Row) (path : Path) (old : Text) : Text :=
  (plainText? shape rows path).getD
    (old.replaceSpans ((callEdits shape rows path).map ScriptCall.Edit.asReplacement))

/-- The string at a path with its plain text. -/
def plainText (shape : Shape) (rows : List Row) (path : Path) (old : Text) : Text :=
  (plainText? shape rows path).getD old

theorem plainText?_eq_none_iff {shape : Shape} {rows : List Row} {path : Path} :
    plainText? shape rows path = none ↔
      ∀ row ∈ rows, row.1.kind ≠ .embedded → target? shape row.1 ≠ some path := by
  rw [plainText?, Option.map_eq_none_iff, List.find?_eq_none]
  refine forall₂_congr fun row _ => ?_
  rw [decide_eq_true_eq, not_and]

theorem exists_of_plainText? {shape : Shape} {rows : List Row} {path : Path} {new : Text}
    (h : plainText? shape rows path = some new) :
    ∃ row ∈ rows, row.1.kind ≠ .embedded ∧ target? shape row.1 = some path ∧
      row.1.speaker ++ row.2 = new := by
  obtain ⟨row, hfind, hnew⟩ := Option.map_eq_some_iff.mp h
  have hrow := List.find?_some hfind
  obtain ⟨hkind, htarget⟩ := of_decide_eq_true hrow
  exact ⟨row, List.mem_of_find?_eq_some hfind, hkind, htarget, hnew⟩

theorem plainText?_append (shape : Shape) (rows : List Row) (row : Row) (path : Path) :
    plainText? shape (rows ++ [row]) path = (plainText? shape rows path).or
      (if row.1.kind ≠ .embedded ∧ target? shape row.1 = some path then some (row.1.speaker ++ row.2)
        else none) := by
  rw [plainText?, plainText?, List.find?_append, Option.map_or]
  congr 1
  by_cases h : row.1.kind ≠ .embedded ∧ target? shape row.1 = some path
  · simp [h]
  · rw [if_neg h, List.find?_singleton, decide_eq_false h]
    rfl

theorem callEdits_append (shape : Shape) (rows : List Row) (row : Row) (path : Path) :
    callEdits shape (rows ++ [row]) path = callEdits shape rows path ++
      if row.1.kind = .embedded ∧ target? shape row.1 = some path ∧ row.2 ≠ row.1.value then
        replacements row.1 row.2
      else [] := by
  rw [callEdits, List.flatMap_append, List.flatMap_singleton]
  rfl

theorem mem_callEdits {shape : Shape} {rows : List Row} {path : Path} {e : ScriptCall.Edit} :
    e ∈ callEdits shape rows path ↔ ∃ row ∈ rows, row.1.kind = .embedded ∧
      target? shape row.1 = some path ∧ row.2 ≠ row.1.value ∧ e ∈ replacements row.1 row.2 := by
  rw [callEdits, List.mem_flatMap]
  refine exists_congr fun row => and_congr_right fun _ => ?_
  split
  next h => simp [h]
  next h => simpa using fun hkind htarget hne => absurd ⟨hkind, htarget, hne⟩ h

theorem kind_ne_embedded {a : EventAddress} (h : a.kind = .plain) : ¬ a.kind = .embedded := by
  rw [h]
  exact fun heq => (nomatch heq)

section Independent

variable {shape : Shape} {rows : List Row} {row : Row} {path : Path}

theorem independent_of_ne (h : rows.Pairwise fun r s => Independent shape r.1 s.1) {r s : Row}
    (hr : r ∈ rows) (hs : s ∈ rows) (hne : r ≠ s) : Independent shape r.1 s.1 := by
  have hsymm : Std.Symm fun r s : Row => Independent shape r.1 s.1 := ⟨fun _ _ h => h.symm⟩
  exact h.forall hr hs hne

/-- A row for a plain text gives the text of its place. -/
theorem plainText?_of_plain (h : rows.Pairwise fun r s => Independent shape r.1 s.1)
    (hrow : row ∈ rows) (hkind : row.1.kind = .plain) (htarget : target? shape row.1 = some path) :
    plainText? shape rows path = some (row.1.speaker ++ row.2) := by
  cases hnew : plainText? shape rows path with
  | none => exact absurd htarget (plainText?_eq_none_iff.mp hnew row hrow (kind_ne_embedded hkind))
  | some new =>
    obtain ⟨r, hr, -, hpath, rfl⟩ := exists_of_plainText? hnew
    by_cases heq : r = row
    · rw [heq]
    · have hsame := independent_of_ne h hr hrow heq path hpath htarget
      exact absurd hsame.embedded.2 (kind_ne_embedded hkind)

/-- Where a value of a script call stands there is no plain text. -/
theorem plainText?_of_embedded (h : rows.Pairwise fun r s => Independent shape r.1 s.1)
    (hrow : row ∈ rows) (hkind : row.1.kind = .embedded)
    (htarget : target? shape row.1 = some path) : plainText? shape rows path = none := by
  refine plainText?_eq_none_iff.mpr fun r hr hplain hpath => ?_
  have hne : r ≠ row := by
    rintro rfl
    exact hplain hkind
  exact hplain (independent_of_ne h hr hrow hne path hpath htarget).embedded.1

end Independent

/-- The rows are addresses of an extraction from the value. -/
structure Addressed (shape : Shape) (root : Json) (rows : List Row) : Prop where
  placed : ∀ row ∈ rows, ∃ text, Placed shape root (text, row.1)
  independent : rows.Pairwise fun r s => Independent shape r.1 s.1

theorem Addressed.of_append {shape : Shape} {root : Json} {done : List Row} {row : Row}
    (h : Addressed shape root (done ++ [row])) :
    Addressed shape root done ∧ (∃ text, Placed shape root (text, row.1)) ∧
      ∀ r ∈ done, Independent shape r.1 row.1 := by
  obtain ⟨hdone, -, hlast⟩ := List.pairwise_append.mp h.independent
  exact ⟨⟨fun r hr => h.placed r (List.mem_append_left _ hr), hdone⟩,
    h.placed row (List.mem_append_right _ List.mem_cons_self),
    fun r hr => hlast r hr row List.mem_cons_self⟩

/-! ## Pending script calls -/

/-- The path of a script call that waits. -/
def PendingCall.path (call : PendingCall) : Path := call.parameters ++ [.index call.site.parameter]

/-- A call whose parameter is a string gets its edits. -/
theorem finishCall_of_at? {p : Progress PendingCall} {call : PendingCall} {old : Text}
    (hat : p.root.at? call.path = some (.str old)) :
    finishCall p call = p.put call.path (ScriptCall.applyEdits old call.edits) := by
  rw [PendingCall.path] at hat ⊢
  unfold finishCall
  simp only [hat]

section Pending

variable {site : CallSite} {base : Path} {edits : List ScriptCall.Edit} {pending : List PendingCall}

theorem sites_addPending : (addPending site base edits pending).map (·.site) =
    if site ∈ pending.map (·.site) then pending.map (·.site)
    else pending.map (·.site) ++ [site] := by
  induction pending with
  | nil => rfl
  | cons call rest ih =>
    by_cases h : call.site = site
    · simp [addPending, h]
    · have hne : ¬ site = call.site := fun heq => h heq.symm
      simp only [addPending, h, if_false, List.map_cons, ih, List.mem_cons, hne, false_or]
      split <;> rfl

theorem nodup_sites_addPending (h : (pending.map (·.site)).Nodup) :
    ((addPending site base edits pending).map (·.site)).Nodup := by
  rw [sites_addPending]
  split
  next => exact h
  next hnew =>
    refine List.nodup_append.mpr ⟨h, List.pairwise_singleton _ _, ?_⟩
    intro a ha b hb heq
    rw [List.mem_singleton.mp hb] at heq
    exact hnew (heq ▸ ha)

theorem mem_addPending_of_ne {call : PendingCall} (h : call ∈ pending) (hne : call.site ≠ site) :
    call ∈ addPending site base edits pending := by
  induction pending with
  | nil => cases h
  | cons c rest ih =>
    rw [addPending]
    split
    next heq =>
      rcases List.mem_cons.mp h with rfl | h
      · exact absurd heq hne
      · exact List.mem_cons_of_mem _ h
    next =>
      rcases List.mem_cons.mp h with rfl | h
      · exact List.mem_cons_self
      · exact List.mem_cons_of_mem _ (ih h)

theorem exists_mem_addPending : ∃ call ∈ addPending site base edits pending,
    call.site = site ∧ call.parameters = base := by
  induction pending with
  | nil => exact ⟨_, List.mem_cons_self, rfl, rfl⟩
  | cons c rest ih =>
    rw [addPending]
    split
    next => exact ⟨_, List.mem_cons_self, rfl, rfl⟩
    next =>
      obtain ⟨call, hcall, h⟩ := ih
      exact ⟨call, List.mem_cons_of_mem _ hcall, h⟩

/-- An entry after adding is another entry from before, or the one of the site, which goes on with
the edits that waited there. -/
theorem mem_addPending (h : (pending.map (·.site)).Nodup) {call : PendingCall}
    (hcall : call ∈ addPending site base edits pending) :
    (call ∈ pending ∧ call.site ≠ site) ∨
      ∃ earlier, call = ⟨site, base, earlier ++ edits⟩ ∧
        ((∃ c ∈ pending, c.site = site ∧ c.edits = earlier) ∨
          (earlier = [] ∧ ∀ c ∈ pending, c.site ≠ site)) := by
  induction pending with
  | nil =>
    refine Or.inr ⟨[], ?_, Or.inr ⟨rfl, fun _ hc => (nomatch hc)⟩⟩
    exact List.mem_singleton.mp hcall
  | cons c rest ih =>
    obtain ⟨hnew, hrest⟩ := List.nodup_cons.mp h
    rw [addPending] at hcall
    split at hcall
    next heq =>
      rcases List.mem_cons.mp hcall with rfl | hcall
      · exact Or.inr ⟨c.edits, rfl, Or.inl ⟨c, List.mem_cons_self, heq, rfl⟩⟩
      · refine Or.inl ⟨List.mem_cons_of_mem _ hcall, fun hsite => hnew ?_⟩
        exact List.mem_map.mpr ⟨call, hcall, hsite.trans heq.symm⟩
    next hne =>
      rcases List.mem_cons.mp hcall with rfl | hcall
      · exact Or.inl ⟨List.mem_cons_self, hne⟩
      · rcases ih hrest hcall with ⟨hmem, hsite⟩ | ⟨earlier, rfl, hearlier⟩
        · exact Or.inl ⟨List.mem_cons_of_mem _ hmem, hsite⟩
        · refine Or.inr ⟨earlier, rfl, ?_⟩
          rcases hearlier with ⟨c', hc', h'⟩ | ⟨hnil, hnone⟩
          · exact Or.inl ⟨c', List.mem_cons_of_mem _ hc', h'⟩
          · refine Or.inr ⟨hnil, ?_⟩
            intro c' hc'
            rcases List.mem_cons.mp hc' with rfl | hc'
            · exact hne
            · exact hnone c' hc'

end Pending

/-! ## The invariant -/

/-- An entry waits for the script call of a row that is done, with the edits of all rows for it. -/
structure Waiting (shape : Shape) (done : List Row) (call : PendingCall) : Prop where
  row : ∃ r ∈ done, r.1.kind = .embedded ∧ r.1.parameter = .single call.site.parameter ∧
    r.1.container = call.site.container ∧ r.1.command = call.site.command ∧
    parametersPath? shape r.1.container (.index r.1.command) = some call.parameters
  edits : call.edits = callEdits shape done call.path

/-- What waits, of the rows that are done: one entry for each script call, and one for every path of
`live` that has edits. -/
structure Gathered (shape : Shape) (done : List Row) (live : Path → Prop)
    (pending : List PendingCall) : Prop where
  nodup : (pending.map (·.site)).Nodup
  waiting : ∀ call ∈ pending, Waiting shape done call
  complete : ∀ path, live path → callEdits shape done path ≠ [] →
    ∃ call ∈ pending, call.path = path

/-- **What the rows that are done have brought about.** -/
structure Collected (shape : Shape) (root : Json) (done : List Row) (p : Progress PendingCall) :
    Prop where
  shows : p.Shows root (plainText shape done)
  nodup : (p.pending.map (·.site)).Nodup
  waiting : ∀ call ∈ p.pending, Waiting shape done call
  complete : ∀ path, callEdits shape done path ≠ [] → ∃ call ∈ p.pending, call.path = path

section Step

variable {shape : Shape} {root : Json} {done : List Row} {row : Row} {p : Progress PendingCall}

theorem Waiting.target {call : PendingCall} (h : Waiting shape done call) :
    ∃ r ∈ done, r.1.kind = .embedded ∧ r.1.parameter = .single call.site.parameter ∧
      r.1.container = call.site.container ∧ r.1.command = call.site.command ∧
      target? shape r.1 = some call.path := by
  obtain ⟨r, hr, hkind, hparameter, hcontainer, hcommand, hpath⟩ := h.row
  exact ⟨r, hr, hkind, hparameter, hcontainer, hcommand, target?_of_single hpath hparameter⟩

theorem Waiting.append {call : PendingCall} (h : Waiting shape done call)
    (hedits : callEdits shape (done ++ [row]) call.path = callEdits shape done call.path) :
    Waiting shape (done ++ [row]) call := by
  obtain ⟨r, hr, hrow⟩ := h.row
  exact ⟨⟨r, List.mem_append_left _ hr, hrow⟩, h.edits.trans hedits.symm⟩

/-- An address that leads where an entry leads is of the entry's site. -/
theorem Waiting.site_eq {call : PendingCall} (h : Waiting shape done call) {a : EventAddress}
    (same : ∀ r ∈ done, target? shape r.1 = some call.path → r.1 = a ∨ Companions r.1 a) {i : Int}
    (place : a.parameter = .single i) : call.site = ⟨a.container, a.command, i⟩ := by
  obtain ⟨r, hr, -, hparameter, hcontainer, hcommand, hpath⟩ := h.target
  have hfields : r.1.container = a.container ∧ r.1.command = a.command ∧
      r.1.parameter = a.parameter := by
    rcases same r hr hpath with heq | hsame
    · rw [heq]
      exact ⟨rfl, rfl, rfl⟩
    · exact ⟨hsame.container, hsame.command, hsame.parameter⟩
  have hindex : ParameterPlace.single call.site.parameter = .single i :=
    hparameter.symm.trans (hfields.2.2.trans place)
  obtain ⟨⟨container, command, parameter⟩, parameters, edits⟩ := call
  dsimp only at hcontainer hcommand hindex ⊢
  cases hindex
  rw [← hcontainer, ← hcommand, hfields.1, hfields.2.1]

/-- A row that changes no leaf and adds no edit leaves everything as it is. -/
theorem Collected.idle (h : Collected shape root done p) (keyed : root.WellKeyed)
    (hplain : ∀ path old, root.stringAt? path = some old →
      plainText shape (done ++ [row]) path old = plainText shape done path old)
    (hedits : ∀ path, callEdits shape (done ++ [row]) path = callEdits shape done path) :
    Collected shape root (done ++ [row]) p where
  shows := h.shows.congr keyed fun path old hold => (hplain path old hold).symm
  nodup := h.nodup
  waiting := fun call hcall => (h.waiting call hcall).append (hedits call.path)
  complete := fun path hne => h.complete path (by rwa [hedits] at hne)

theorem plainText_append_of_embedded (hkind : row.1.kind = .embedded) :
    plainText shape (done ++ [row]) = plainText shape done := by
  funext path old
  rw [plainText, plainText, plainText?_append, if_neg (fun h => h.1 hkind), Option.or_none]

theorem callEdits_append_of_plain (hkind : row.1.kind = .plain) (path : Path) :
    callEdits shape (done ++ [row]) path = callEdits shape done path := by
  rw [callEdits_append, if_neg (fun h => kind_ne_embedded hkind h.1), List.append_nil]

/-- A place that a plain text goes to has no plain text yet. -/
theorem plainText?_eq_none (hind : ∀ r ∈ done, Independent shape r.1 row.1)
    (hkind : row.1.kind = .plain) {path : Path} (htarget : target? shape row.1 = some path) :
    plainText? shape done path = none := by
  refine plainText?_eq_none_iff.mpr fun r hr _ hpath => ?_
  have hembedded := (hind r hr path hpath htarget).embedded.2
  rw [hkind] at hembedded
  cases hembedded

theorem pending_put {path : Path} {text : Text} : (p.put path text).pending = p.pending := by
  unfold Progress.put
  split
  next => rfl
  next => rfl

/-- A plain text put at a place that has none yet is that of one more row. -/
theorem putText_plainText (hkind : row.1.kind = .plain) {path : Path}
    (hnone : plainText? shape done path = none) (htarget : target? shape row.1 = some path) :
    putText (plainText shape done) path (row.1.speaker ++ row.2) =
      plainText shape (done ++ [row]) := by
  funext path' old
  rw [putText, plainText, plainText, plainText?_append]
  by_cases hpath : path' = path
  · subst hpath
    rw [if_pos rfl, hnone, if_pos ⟨kind_ne_embedded hkind, htarget⟩]
    rfl
  · have hother : ¬ target? shape row.1 = some path' := by
      rw [htarget]
      exact fun heq => hpath (Option.some.inj heq).symm
    rw [if_neg hpath, if_neg (fun h => hother h.2), Option.or_none]

/-- A plain text is put at its place. -/
theorem Collected.plain (h : Collected shape root done p) (keyed : root.WellKeyed)
    (hind : ∀ r ∈ done, Independent shape r.1 row.1) (hkind : row.1.kind = .plain) {path : Path}
    (htarget : target? shape row.1 = some path) {old : Text}
    (hold : root.stringAt? path = some old) :
    Collected shape root (done ++ [row]) (p.put path (row.1.speaker ++ row.2)) := by
  have hnone := plainText?_eq_none hind hkind htarget
  have huntouched : plainText shape done path old = old := by
    rw [plainText, hnone]
    rfl
  refine ⟨?_, ?_, ?_, ?_⟩
  · rw [← putText_plainText hkind hnone htarget]
    exact h.shows.put keyed hold huntouched _
  · rw [pending_put]
    exact h.nodup
  · intro call hcall
    rw [pending_put] at hcall
    exact (h.waiting call hcall).append (callEdits_append_of_plain hkind _)
  · intro path' hne
    rw [pending_put]
    rw [callEdits_append_of_plain hkind] at hne
    exact h.complete path' hne

theorem callEdits_append_of_ne {path path' : Path} (htarget : target? shape row.1 = some path')
    (hne : path ≠ path') :
    callEdits shape (done ++ [row]) path = callEdits shape done path := by
  rw [callEdits_append, if_neg, List.append_nil]
  rintro ⟨-, hpath, -⟩
  rw [htarget] at hpath
  exact hne (Option.some.inj hpath).symm

/-- An entry is of the site of an address exactly if it is of the path that the address leads to. -/
theorem Waiting.path_eq_iff {call : PendingCall} (h : Waiting shape done call)
    (hind : ∀ r ∈ done, Independent shape r.1 row.1) {i : Int}
    (place : row.1.parameter = .single i) {base : Path}
    (hbase : parametersPath? shape row.1.container (.index row.1.command) = some base) :
    call.path = base ++ [.index i] ↔ call.site = ⟨row.1.container, row.1.command, i⟩ := by
  constructor
  · intro hpath
    refine h.site_eq (fun r hr htarget => Or.inr ?_) place
    refine hind r hr call.path htarget ?_
    rw [target?_of_single hbase place, hpath]
  · intro hsite
    obtain ⟨r, -, -, -, hcontainer, hcommand, hparameters⟩ := h.row
    rw [hcontainer, hcommand, hsite, hbase] at hparameters
    rw [PendingCall.path, hsite, Option.some.inj hparameters]

/-- A row that adds no edit where something waits or lives leaves what waits as it is. -/
theorem Gathered.idle {live : Path → Prop} {pending : List PendingCall}
    (h : Gathered shape done live pending)
    (hwaits : ∀ call ∈ pending,
      callEdits shape (done ++ [row]) call.path = callEdits shape done call.path)
    (hlive : ∀ path, live path →
      callEdits shape (done ++ [row]) path = callEdits shape done path) :
    Gathered shape (done ++ [row]) live pending where
  nodup := h.nodup
  waiting := fun call hcall => (h.waiting call hcall).append (hwaits call hcall)
  complete := fun path hpath hne => h.complete path hpath (by rwa [hlive path hpath] at hne)

/-- The edits of a value that changed join those that wait for its script call. -/
theorem Gathered.add {live : Path → Prop} {pending : List PendingCall}
    (h : Gathered shape done live pending)
    (hind : ∀ r ∈ done, Independent shape r.1 row.1) (hkind : row.1.kind = .embedded) {i : Int}
    (place : row.1.parameter = .single i) {base : Path}
    (hbase : parametersPath? shape row.1.container (.index row.1.command) = some base)
    (hlive : live (base ++ [.index i])) (hchanged : row.2 ≠ row.1.value) :
    Gathered shape (done ++ [row]) live
      (addPending ⟨row.1.container, row.1.command, i⟩ base (replacements row.1 row.2) pending) := by
  have htarget := target?_of_single hbase place
  have hedits : callEdits shape (done ++ [row]) (base ++ [.index i]) =
      callEdits shape done (base ++ [.index i]) ++ replacements row.1 row.2 := by
    rw [callEdits_append, if_pos ⟨hkind, htarget, hchanged⟩]
  have hiff : ∀ call ∈ pending, call.path = base ++ [.index i] ↔
      call.site = ⟨row.1.container, row.1.command, i⟩ :=
    fun call hcall => (h.waiting call hcall).path_eq_iff hind place hbase
  refine ⟨nodup_sites_addPending h.nodup, ?_, ?_⟩
  · intro call hcall
    rcases mem_addPending h.nodup hcall with ⟨hmem, hne⟩ | ⟨earlier, rfl, hearlier⟩
    · have hpath : call.path ≠ base ++ [.index i] := fun heq => hne ((hiff call hmem).mp heq)
      exact (h.waiting call hmem).append (callEdits_append_of_ne htarget hpath)
    · refine ⟨⟨row, List.mem_append_right _ List.mem_cons_self, hkind, place, rfl, rfl, hbase⟩, ?_⟩
      rw [PendingCall.path, hedits]
      show earlier ++ _ = _
      congr 1
      rcases hearlier with ⟨c, hc, hsite, rfl⟩ | ⟨rfl, hnone⟩
      · rw [(h.waiting c hc).edits, (hiff c hc).mpr hsite]
      · by_contra hne
        obtain ⟨c, hc, hpath⟩ := h.complete _ hlive fun heq => hne heq.symm
        exact hnone c hc ((hiff c hc).mp hpath)
  · intro path hpath hne
    by_cases heq : path = base ++ [.index i]
    · have hadded : ∃ call ∈ addPending ⟨row.1.container, row.1.command, i⟩ base
          (replacements row.1 row.2) pending,
          call.site = ⟨row.1.container, row.1.command, i⟩ ∧ call.parameters = base :=
        exists_mem_addPending
      obtain ⟨call, hcall, hsite, hparameters⟩ := hadded
      refine ⟨call, hcall, ?_⟩
      rw [heq, PendingCall.path, hsite, hparameters]
    · rw [callEdits_append_of_ne htarget heq] at hne
      obtain ⟨call, hcall, rfl⟩ := h.complete path hpath hne
      exact ⟨call, mem_addPending_of_ne hcall fun hsite => heq ((hiff call hcall).mpr hsite), rfl⟩

theorem Collected.gathered (h : Collected shape root done p) :
    Gathered shape done (fun _ => True) p.pending :=
  ⟨h.nodup, h.waiting, fun path _ => h.complete path⟩

theorem Collected.embedded (h : Collected shape root done p)
    (hind : ∀ r ∈ done, Independent shape r.1 row.1) (hkind : row.1.kind = .embedded) {i : Int}
    (place : row.1.parameter = .single i) {base : Path}
    (hbase : parametersPath? shape row.1.container (.index row.1.command) = some base)
    (hchanged : row.2 ≠ row.1.value) :
    Collected shape root (done ++ [row])
      { p with
        pending := addPending ⟨row.1.container, row.1.command, i⟩ base (replacements row.1 row.2)
          p.pending } := by
  have hadded := h.gathered.add hind hkind place hbase trivial hchanged
  refine ⟨?_, hadded.nodup, hadded.waiting, fun path hne => hadded.complete path trivial hne⟩
  rw [plainText_append_of_embedded hkind]
  exact ⟨h.shows.root_eq, h.shows.changed_eq⟩

theorem collect_reached {a : EventAddress} {base : Path} {parameters : List Json} {k : Nat}
    {s : Text} (place : a.parameter = .single k) (h : parameters[k]? = some (.str s)) (text : Text) :
    collect p a base parameters text = .ok
      (if text = a.value ∨ replacements a text = [] then p
      else { p with
        pending := addPending ⟨a.container, a.command, k⟩ base (replacements a text) p.pending }) := by
  have hreach := reach_natCast (List.getElem?_eq_some_iff.mp h).1
  rw [collect, place]
  simp only [hreach, bind, Except.bind, Option.bind, h]
  by_cases hvalue : text = a.value
  · rw [if_pos hvalue, if_pos (Or.inl hvalue)]
    rfl
  · rw [if_neg hvalue]
    split
    next hnil =>
      rw [if_pos (Or.inr hnil)]
      rfl
    next hne =>
      rw [if_neg fun hor => hor.elim hvalue hne]
      rfl

theorem Collected.step_embedded (h : Collected shape root done p) (keyed : root.WellKeyed)
    (hind : ∀ r ∈ done, Independent shape r.1 row.1) (hkind : row.1.kind = .embedded) {i : Int}
    (place : row.1.parameter = .single i) {base : Path} {parameters : List Json} {source : Text}
    (hbase : parametersPath? shape row.1.container (.index row.1.command) = some base)
    (hcommand : root.valueAt? base = some (.arr parameters))
    (hparameter : (Json.arr parameters).valueAt? [.index i] = some (.str source)) :
    ∃ p', writeUnit shape p row.1 row.2 = .ok p' ∧ Collected shape root (done ++ [row]) p' := by
  obtain ⟨v, hv, hstr⟩ := Option.bind_eq_some_iff.mp hparameter
  obtain ⟨k, rfl, hk, -⟩ := exists_of_child?_index hv
  obtain rfl : v = .str source := Option.some.inj hstr
  have hitem : (mapItems (fun below => plainText shape done (base ++ below)) 0 parameters)[k]? =
      some (.str (plainText shape done (base ++ [.index k]) source)) := by
    rw [Json.getElem?_mapItems, hk, Nat.zero_add]
    rfl
  simp only [writeUnit, hbase, h.shows.parameters? hcommand, hkind, if_true]
  refine ⟨_, collect_reached place hitem row.2, ?_⟩
  by_cases hidle : row.2 = row.1.value ∨ replacements row.1 row.2 = []
  · rw [if_pos hidle]
    refine h.idle keyed (fun path old _ => ?_) fun path => ?_
    · rw [plainText_append_of_embedded hkind]
    · rw [callEdits_append]
      split
      next hrow =>
        rw [hidle.resolve_left hrow.2.2, List.append_nil]
      next => rw [List.append_nil]
  · rw [if_neg hidle]
    exact h.embedded hind hkind place hbase fun heq => hidle (Or.inl heq)

/-- **One row**: its text is brought to its place, and the invariant goes on. -/
theorem collected_step (h : Collected shape root done p) (keyed : root.WellKeyed)
    (addressed : Addressed shape root (done ++ [row])) :
    ∃ p', writeUnit shape p row.1 row.2 = .ok p' ∧ Collected shape root (done ++ [row]) p' := by
  obtain ⟨-, ⟨text, hplaced⟩, hind⟩ := addressed.of_append
  obtain ⟨a, new⟩ := row
  cases hplaced with
  | @plain _ _ base parameters hkind hbase hcommand hparameter =>
    have hold : root.stringAt? (base ++ steps a.parameter) = some (a.speaker ++ text) := by
      rw [Json.stringAt?_eq_some_iff, Json.valueAt?_append, hcommand]
      exact hparameter
    have hreached : (Json.arr (mapItems (fun below => plainText shape done (base ++ below)) 0
        parameters)).valueAt? (steps a.parameter) = some (.str (plainText shape done
          (base ++ steps a.parameter) (a.speaker ++ text))) := by
      rw [← Json.mapStrings, Json.valueAt?_mapStrings, hparameter, Option.map_some, Json.mapStrings,
        List.append_nil]
    refine ⟨p.put (base ++ steps a.parameter) (a.speaker ++ new), ?_, ?_⟩
    · simp only [writeUnit, hbase, h.shows.parameters? hcommand]
      rw [if_neg (kind_ne_embedded hkind)]
      exact writePlain_reached _ hreached
    · exact h.plain keyed hind hkind (by rw [target?, hbase]; rfl) hold
  | @embedded _ base parameters i source u place hbase hcommand hparameter hvalue =>
    exact h.step_embedded keyed hind rfl place hbase hcommand hparameter
  | @unreached _ _ base characters hkind hbase hcommand =>
    refine ⟨p, ?_, h.idle keyed ?_ (callEdits_append_of_plain hkind)⟩
    · simp only [writeUnit, hbase, h.shows.parameters?_of_str hcommand]
    · intro path old hold
      have hother : ¬ target? shape a = some path := by
        rw [target?, hbase]
        rintro heq
        obtain rfl : base ++ steps a.parameter = path := Option.some.inj heq
        rw [stringAt?_steps_of_str hcommand] at hold
        cases hold
      rw [plainText, plainText, plainText?_append, if_neg (fun h => hother h.2), Option.or_none]

/-- **All rows**: no row fails, and at the end all of them are brought to their places. -/
theorem collected_run {rows : List Row} (h : Collected shape root done p) (keyed : root.WellKeyed)
    (addressed : Addressed shape root (done ++ rows)) :
    ∃ p', rows.foldlM (fun p row => writeUnit shape p row.1 row.2) p = .ok p' ∧
      Collected shape root (done ++ rows) p' := by
  induction rows generalizing done p with
  | nil =>
    rw [List.append_nil]
    exact ⟨p, rfl, h⟩
  | cons row rows ih =>
    rw [List.append_cons] at addressed ⊢
    have hfirst : Addressed shape root (done ++ [row]) :=
      ⟨fun r hr => addressed.placed r (List.mem_append_left _ hr),
        (List.pairwise_append.mp addressed.independent).1⟩
    obtain ⟨p', hstep, hcollected⟩ := collected_step h keyed hfirst
    obtain ⟨p'', hrun, hall⟩ := ih hcollected addressed
    refine ⟨p'', ?_, hall⟩
    rw [List.foldlM_cons, hstep]
    exact hrun

theorem collected_start (keyed : root.WellKeyed) :
    Collected shape root [] ({ root } : Progress PendingCall) where
  shows := Progress.Shows.start keyed
  nodup := List.nodup_nil
  waiting := fun _ hcall => (nomatch hcall)
  complete := fun _ hne => absurd rfl hne

end Step

end EventData

end GameText
