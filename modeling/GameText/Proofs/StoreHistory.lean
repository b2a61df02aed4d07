import GameText.Document.Store
import GameText.Proofs.Json.Entries
import GameText.Proofs.Number.Order
import GameText.Proofs.Text.Decimal

/-!
# The store and its history

What the store answers is fixed by what was asked of it before. A document is found exactly if it
was put, has not been discarded since, and its lifetime, counted from the last call that found it,
has not ended (`lookups_of_history`). Purging never shows in these answers: an entry that it drops
is one that the next call would have dropped.

The invariant between calls (`Known`) lets the store have lost an entry only if the entry was
already stale when the clock was read. A clock that does not go back keeps such an entry stale.
-/

namespace GameText

namespace Store

/-! ## Identifiers -/

theorem idOf_injective {m n : Nat} (h : idOf m = idOf n) : m = n :=
  Text.ofNat_injective (List.append_cancel_left h)

/-- No identifier stands twice, and each has been given out. -/
structure Sound (s : Store) : Prop where
  distinct : s.ids.Nodup
  issued : ∀ id ∈ s.ids, ∃ n < s.issued, id = idOf n

theorem sound_empty (lifetime : Number) : Sound { lifetime } := ⟨.nil, nofun⟩

theorem Sound.not_mem {s : Store} (h : Sound s) : idOf s.issued ∉ s.ids := by
  intro hmem
  obtain ⟨n, hn, heq⟩ := h.issued _ hmem
  exact absurd (idOf_injective heq) (by omega)

theorem Sound.put {s : Store} (h : Sound s) (now : Number) (d : Document)
    (extraction : Option Extraction) : Sound (s.put now d extraction).2 := by
  have hids : (s.put now d extraction).2.ids = s.ids ++ [idOf s.issued] := List.map_append
  refine ⟨?_, ?_⟩
  · rw [hids]
    refine List.nodup_append.mpr ⟨h.distinct, List.pairwise_singleton _ _, ?_⟩
    rintro a ha b hb rfl
    exact h.not_mem (List.mem_singleton.mp hb ▸ ha)
  · rw [hids]
    intro id hid
    rcases List.mem_append.mp hid with hid | hid
    · obtain ⟨n, hn, heq⟩ := h.issued id hid
      exact ⟨n, Nat.lt_succ_of_lt hn, heq⟩
    · exact ⟨s.issued, Nat.lt_succ_self _, List.mem_singleton.mp hid⟩

theorem Sound.filter {s : Store} (h : Sound s) (p : Text × StoredDocument → Bool) :
    Sound { s with entries := s.entries.filter p } where
  distinct := h.distinct.sublist (List.filter_sublist.map _)
  issued id hid := h.issued id ((List.filter_sublist.map _).subset hid)

theorem ids_get (s : Store) (now : Number) (id : Text) :
    (s.get now id).2 = s.without id ∨ (s.get now id).2.ids = s.ids := by
  unfold get
  split
  · exact .inr rfl
  next item hitem =>
    split
    · exact .inl rfl
    · refine .inr ((keys_assign _ _ _).trans (if_pos ?_))
      exact List.mem_map.mpr ⟨_, mem_of_lookup? hitem, rfl⟩

theorem issued_get (s : Store) (now : Number) (id : Text) :
    (s.get now id).2.issued = s.issued := by
  unfold get
  split
  · rfl
  · split <;> rfl

theorem Sound.get {s : Store} (h : Sound s) (now : Number) (id : Text) :
    Sound (s.get now id).2 := by
  rcases ids_get s now id with hget | hget
  · rw [hget]
    exact h.filter _
  · exact ⟨hget ▸ h.distinct, fun id' hid' => by
      rw [issued_get]
      exact h.issued id' (hget ▸ hid')⟩

/-! ## Calls -/

/-- A call on the store. -/
inductive Call where
  | put (document : Document) (extraction : Option Extraction)
  | get (id : Text)
  | contains (id : Text)
  | discard (id : Text)
  | purge
  | size
  | ids

/-- What a call is answered. -/
inductive Answer where
  | given (id : Text)
  | found (item : Option StoredDocument)
  | holds (yes : Bool)
  | count (n : Nat)
  | ids (ids : List Text)

/-- Makes a call. -/
def call (s : Store) (now : Number) : Call → Answer × Store
  | .put document extraction =>
    let (id, s) := s.put now document extraction
    (.given id, s)
  | .get id =>
    let (item, s) := s.get now id
    (.found item, s)
  | .contains id =>
    let (yes, s) := s.contains now id
    (.holds yes, s)
  | .discard id =>
    let (yes, s) := s.discard id
    (.holds yes, s)
  | .purge =>
    let (n, s) := s.purge now
    (.count n, s)
  | .size => (.count s.size, s)
  | .ids => (.ids s.ids, s)

/-- A call that was made, with the reading of the clock and the answer. -/
structure Event where
  now : Number
  call : Call
  answer : Answer

/-- Makes calls one after the other. -/
def run (s : Store) : List (Number × Call) → List Event × Store
  | [] => ([], s)
  | (now, c) :: calls =>
    let (answer, s) := s.call now c
    let (events, s) := s.run calls
    (⟨now, c, answer⟩ :: events, s)

theorem run_cons (s : Store) (now : Number) (c : Call) (calls : List (Number × Call)) :
    s.run ((now, c) :: calls) =
      (⟨now, c, (s.call now c).1⟩ :: ((s.call now c).2.run calls).1,
        ((s.call now c).2.run calls).2) := rfl

theorem run_append (s : Store) (calls more : List (Number × Call)) :
    s.run (calls ++ more) =
      ((s.run calls).1 ++ ((s.run calls).2.run more).1, ((s.run calls).2.run more).2) := by
  induction calls generalizing s with
  | nil => rfl
  | cons c calls ih =>
    obtain ⟨now, c⟩ := c
    simp only [List.cons_append, run_cons, ih]

theorem run_concat (s : Store) (calls : List (Number × Call)) (now : Number) (c : Call) :
    s.run (calls ++ [(now, c)]) =
      ((s.run calls).1 ++ [⟨now, c, ((s.run calls).2.call now c).1⟩],
        ((s.run calls).2.call now c).2) :=
  run_append s calls [(now, c)]

theorem map_now_run (s : Store) (calls : List (Number × Call)) :
    (s.run calls).1.map Event.now = calls.map (·.1) := by
  induction calls generalizing s with
  | nil => rfl
  | cons c calls ih => exact congrArg (c.1 :: ·) (ih _)

/-! ## What the history says -/

/-- The document with a time of the last access. -/
def touchedAt (now : Number) (item : StoredDocument) : StoredDocument :=
  { item with touched := now }

/-- What is known of the document under an identifier after one more event: putting it and each
call that finds it are accesses, and discarding it ends it. Purging, counting and listing say
nothing. -/
def Event.recall (id : Text) (known : Option StoredDocument) (e : Event) : Option StoredDocument :=
  match e.call, e.answer with
  | .put document extraction, .given new =>
    if new = id then some ⟨document, extraction, e.now⟩ else known
  | .get asked, .found (some _) => if asked = id then known.map (touchedAt e.now) else known
  | .contains asked, .holds true => if asked = id then known.map (touchedAt e.now) else known
  | .discard asked, _ => if asked = id then none else known
  | _, _ => known

/-- The document that was put under an identifier and not discarded since, with the time of its
last access. -/
def recalled (id : Text) (events : List Event) : Option StoredDocument :=
  events.foldl (Event.recall id) none

theorem recalled_concat (id : Text) (events : List Event) (e : Event) :
    recalled id (events ++ [e]) = e.recall id (recalled id events) := by
  rw [recalled, List.foldl_append]
  rfl

/-- The lifetime of a document has not ended. -/
def Lasts (lifetime now : Number) (item : StoredDocument) : Prop :=
  lifetime.isZero = true ∨ lifetime.lt (now.sub item.touched) = false

theorem isStale_iff {s : Store} {now : Number} {item : StoredDocument} :
    s.isStale now item = true ↔ ¬ Lasts s.lifetime now item := by
  unfold isStale Lasts
  cases s.lifetime.isZero <;> simp

/-! ## What a call does -/

theorem get_fst (s : Store) (now : Number) (id : Text) :
    (s.get now id).1 =
      ((lookup? id s.entries).filter fun item => !s.isStale now item).map (touchedAt now) := by
  unfold get
  cases lookup? id s.entries with
  | none => rfl
  | some item => cases hstale : s.isStale now item <;> simp [Option.filter, hstale, touchedAt]

theorem lookup?_without {s : Store} (h : Sound s) (id k : Text) :
    lookup? k (s.without id).entries = if id = k then none else lookup? k s.entries := by
  unfold without
  rw [lookup?_filter _ h.distinct]
  by_cases hk : id = k
  · subst hk
    cases lookup? id s.entries <;> simp [Option.filter]
  · have hne : ¬ k = id := fun heq => hk heq.symm
    cases lookup? k s.entries <;> simp [Option.filter, hk, hne]

/-- A call that asks for a document leaves it if it was found, else there is none. -/
theorem lookup?_get {s : Store} (h : Sound s) (now : Number) (id k : Text) :
    lookup? k (s.get now id).2.entries =
      if id = k then (s.get now id).1 else lookup? k s.entries := by
  unfold get
  by_cases hk : id = k
  · subst hk
    cases hitem : lookup? id s.entries with
    | none => simp [hitem]
    | some item =>
      cases hstale : s.isStale now item <;> simp [hstale, lookup?_without h, lookup?_assign]
  · cases lookup? id s.entries with
    | none => simp [hk]
    | some item =>
      cases hstale : s.isStale now item <;> simp [hstale, lookup?_without h, lookup?_assign, hk]

theorem lookup?_put {s : Store} (h : Sound s) (now : Number) (d : Document)
    (extraction : Option Extraction) (k : Text) :
    lookup? k (s.put now d extraction).2.entries =
      if idOf s.issued = k then some ⟨d, extraction, now⟩ else lookup? k s.entries := by
  show lookup? k (s.entries ++ [_]) = _
  rw [lookup?_append]
  by_cases hk : idOf s.issued = k
  · have hnone : lookup? k s.entries = none := by
      cases hitem : lookup? k s.entries with
      | none => rfl
      | some item =>
        exact absurd (List.mem_map.mpr ⟨_, mem_of_lookup? hitem, hk.symm⟩) h.not_mem
    simp [hnone, lookup?, hk]
  · simp [lookup?, hk]

theorem lookup?_purge {s : Store} (h : Sound s) (now : Number) (k : Text) :
    lookup? k (s.purge now).2.entries =
      (lookup? k s.entries).filter fun item => !s.isStale now item :=
  lookup?_filter _ h.distinct k

@[simp]
theorem lifetime_call (s : Store) (now : Number) (c : Call) :
    (s.call now c).2.lifetime = s.lifetime := by
  have hget (id : Text) : (s.get now id).2.lifetime = s.lifetime := by
    unfold get
    split
    · rfl
    · split <;> rfl
  cases c
  case get id => exact hget id
  case contains id => exact hget id
  all_goals rfl

theorem Sound.call {s : Store} (h : Sound s) (now : Number) (c : Call) :
    Sound (s.call now c).2 := by
  cases c with
  | put d extraction => exact h.put now d extraction
  | get id => exact h.get now id
  | contains id => exact h.get now id
  | discard id => exact h.filter _
  | purge => exact h.filter _
  | size => exact h
  | ids => exact h

/-! ## Store and history -/

/-- What the store holds against what the history says. -/
structure Known (s : Store) (events : List Event) : Prop where
  sound : Sound s
  /-- What is held is what the history says. -/
  held : ∀ id item, lookup? id s.entries = some item →
    recalled id events = some item ∧ item.touched ∈ events.map Event.now
  /-- What is no longer held was stale at a later reading. -/
  lost : ∀ id item, lookup? id s.entries = none → recalled id events = some item →
    ∃ reading, [item.touched, reading].Sublist (events.map Event.now) ∧
      ¬ Lasts s.lifetime reading item

theorem known_empty (lifetime : Number) : Known { lifetime } [] where
  sound := sound_empty lifetime
  held := nofun
  lost := nofun

section Step

variable {s : Store} {events : List Event} {e : Event}

theorem mem_times_concat {reading : Number} (h : reading ∈ events.map Event.now) :
    reading ∈ (events ++ [e]).map Event.now := by
  rw [List.map_append]
  exact List.mem_append_left _ h

theorem sublist_times_concat {readings : List Number}
    (h : readings.Sublist (events.map Event.now)) :
    readings.Sublist ((events ++ [e]).map Event.now) := by
  rw [List.map_append]
  exact h.trans (List.sublist_append_left _ _)

/-- What was held is not lost before its lifetime has ended. -/
theorem Known.lost_now (h : Known s events) {id : Text} {item : StoredDocument}
    (hitem : lookup? id s.entries = some item) (hstale : ¬ Lasts s.lifetime e.now item) :
    ∃ reading, [item.touched, reading].Sublist ((events ++ [e]).map Event.now) ∧
      ¬ Lasts s.lifetime reading item := by
  refine ⟨e.now, ?_, hstale⟩
  rw [List.map_append]
  exact (List.singleton_sublist.mpr (h.held id item hitem).2).append (List.Sublist.refl _)

/-- An event that says nothing of documents, and drops stale entries only. -/
theorem Known.quiet (h : Known s events) {t : Store} (ht : Sound t)
    (hlifetime : t.lifetime = s.lifetime) (hrecall : ∀ id known, e.recall id known = known)
    (hkept : ∀ id item, lookup? id t.entries = some item → lookup? id s.entries = some item)
    (hdropped : ∀ id item, lookup? id t.entries = none → lookup? id s.entries = some item →
      ¬ Lasts s.lifetime e.now item) : Known t (events ++ [e]) where
  sound := ht
  held id item hitem := by
    obtain ⟨hrecalled, htouched⟩ := h.held id item (hkept id item hitem)
    rw [recalled_concat, hrecall]
    exact ⟨hrecalled, mem_times_concat htouched⟩
  lost id item hnone hitem := by
    rw [recalled_concat, hrecall] at hitem
    rw [hlifetime]
    cases hold : lookup? id s.entries with
    | none =>
      obtain ⟨reading, hsub, hstale⟩ := h.lost id item hold hitem
      exact ⟨reading, sublist_times_concat hsub, hstale⟩
    | some old =>
      obtain rfl : old = item := Option.some.inj ((h.held id old hold).1.symm.trans hitem)
      exact h.lost_now hold (hdropped id old hnone hold)

/-- An event that asks for a document, and is an access if it was found. -/
theorem Known.ask (h : Known s events) {id : Text}
    (hrecall : ∀ k known, e.recall k known =
      if id = k ∧ (s.get e.now id).1.isSome then known.map (touchedAt e.now) else known) :
    Known (s.get e.now id).2 (events ++ [e]) where
  sound := h.sound.get e.now id
  held k item hitem := by
    rw [lookup?_get h.sound] at hitem
    rw [recalled_concat, hrecall]
    split at hitem
    next hk =>
      subst hk
      rw [if_pos ⟨rfl, by rw [hitem]; rfl⟩]
      rw [get_fst, Option.map_eq_some_iff] at hitem
      obtain ⟨old, hold, rfl⟩ := hitem
      obtain ⟨hold, -⟩ := Option.filter_eq_some_iff.mp hold
      refine ⟨by rw [(h.held id old hold).1]; rfl, ?_⟩
      rw [List.map_append]
      exact List.mem_append_right _ (List.mem_singleton.mpr rfl)
    next hk =>
      rw [if_neg fun hboth => hk hboth.1]
      obtain ⟨hrecalled, htouched⟩ := h.held k item hitem
      exact ⟨hrecalled, mem_times_concat htouched⟩
  lost k item hnone hitem := by
    rw [lookup?_get h.sound] at hnone
    rw [recalled_concat, hrecall] at hitem
    have hlifetime : (s.get e.now id).2.lifetime = s.lifetime := lifetime_call s e.now (.get id)
    rw [hlifetime]
    split at hnone
    next hk =>
      subst hk
      rw [if_neg (by simp [hnone])] at hitem
      cases hold : lookup? id s.entries with
      | none =>
        obtain ⟨reading, hsub, hstale⟩ := h.lost id item hold hitem
        exact ⟨reading, sublist_times_concat hsub, hstale⟩
      | some old =>
        obtain rfl : old = item := Option.some.inj ((h.held id old hold).1.symm.trans hitem)
        refine h.lost_now hold (isStale_iff.mp ?_)
        simpa [get_fst, hold, Option.filter] using hnone
    next hk =>
      rw [if_neg fun hboth => hk hboth.1] at hitem
      obtain ⟨reading, hsub, hstale⟩ := h.lost k item hnone hitem
      exact ⟨reading, sublist_times_concat hsub, hstale⟩

/-- Putting a document makes it known under a new identifier. -/
theorem Known.put (h : Known s events) (now : Number) (d : Document)
    (extraction : Option Extraction) :
    Known (s.put now d extraction).2
      (events ++ [⟨now, .put d extraction, .given (idOf s.issued)⟩]) where
  sound := h.sound.put now d extraction
  held k item hitem := by
    rw [lookup?_put h.sound] at hitem
    rw [recalled_concat]
    simp only [Event.recall]
    split at hitem
    next hk =>
      cases hitem
      rw [if_pos hk]
      exact ⟨rfl, by simp⟩
    next hk =>
      rw [if_neg hk]
      obtain ⟨hrecalled, htouched⟩ := h.held k item hitem
      exact ⟨hrecalled, mem_times_concat htouched⟩
  lost k item hnone hitem := by
    rw [lookup?_put h.sound] at hnone
    rw [recalled_concat] at hitem
    simp only [Event.recall] at hitem
    split at hnone
    next => cases hnone
    next hk =>
      rw [if_neg hk] at hitem
      obtain ⟨reading, hsub, hstale⟩ := h.lost k item hnone hitem
      exact ⟨reading, sublist_times_concat hsub, hstale⟩

/-- A discarded document is neither held nor known. -/
theorem Known.discard (h : Known s events) (now : Number) (id : Text) (answer : Answer) :
    Known (s.without id) (events ++ [⟨now, .discard id, answer⟩]) where
  sound := h.sound.filter _
  held k item hitem := by
    rw [lookup?_without h.sound] at hitem
    rw [recalled_concat]
    simp only [Event.recall]
    split at hitem
    next => cases hitem
    next hk =>
      rw [if_neg hk]
      obtain ⟨hrecalled, htouched⟩ := h.held k item hitem
      exact ⟨hrecalled, mem_times_concat htouched⟩
  lost k item hnone hitem := by
    rw [lookup?_without h.sound] at hnone
    rw [recalled_concat] at hitem
    simp only [Event.recall] at hitem
    split at hnone
    next hk =>
      rw [if_pos hk] at hitem
      cases hitem
    next hk =>
      rw [if_neg hk] at hitem
      obtain ⟨reading, hsub, hstale⟩ := h.lost k item hnone hitem
      exact ⟨reading, sublist_times_concat hsub, hstale⟩

theorem Known.call (h : Known s events) (now : Number) (c : Call) :
    Known (s.call now c).2 (events ++ [⟨now, c, (s.call now c).1⟩]) := by
  cases c with
  | put d extraction => exact h.put now d extraction
  | get id =>
    refine h.ask (e := ⟨now, .get id, .found (s.get now id).1⟩) fun k known => ?_
    cases hfound : (s.get now id).1 <;> simp [Event.recall]
  | contains id =>
    refine h.ask (e := ⟨now, .contains id, .holds (s.get now id).1.isSome⟩) fun k known => ?_
    cases hfound : (s.get now id).1 <;> simp [Event.recall]
  | discard id => exact h.discard now id _
  | purge =>
    have hlookup (k : Text) : lookup? k (s.call now .purge).2.entries =
      (lookup? k s.entries).filter fun item => !s.isStale now item := lookup?_purge h.sound now k
    refine h.quiet (h.sound.filter _) rfl (fun _ _ => rfl) (fun id item hitem => ?_)
      fun id item hnone hitem => ?_
    · rw [hlookup, Option.filter_eq_some_iff] at hitem
      exact hitem.1
    · refine isStale_iff.mp ?_
      simpa [hlookup, hitem, Option.filter] using hnone
  | size =>
    exact h.quiet h.sound rfl (fun _ _ => rfl) (fun _ _ => id) fun _ _ hnone hitem =>
      absurd (hitem.symm.trans hnone) (Option.some_ne_none _)
  | ids =>
    exact h.quiet h.sound rfl (fun _ _ => rfl) (fun _ _ => id) fun _ _ hnone hitem =>
      absurd (hitem.symm.trans hnone) (Option.some_ne_none _)

end Step

theorem lifetime_run (s : Store) (calls : List (Number × Call)) :
    (s.run calls).2.lifetime = s.lifetime := by
  induction calls generalizing s with
  | nil => rfl
  | cons c calls ih => exact (ih _).trans (lifetime_call s c.1 c.2)

theorem known_run (lifetime : Number) (calls : List (Number × Call)) :
    Known (run { lifetime } calls).2 (run { lifetime } calls).1 := by
  induction calls using List.reverseRecOn with
  | nil => exact known_empty lifetime
  | append_singleton calls c ih =>
    rw [run_concat]
    exact ih.call c.1 c.2

/-! ## Lookups -/

/-- The answer to a call that asks for a document is what the history says, unless its lifetime has
ended. -/
theorem Known.get {s : Store} {events : List Event} (h : Known s events) {now : Number}
    (hclock : Number.Steady (events.map Event.now ++ [now])) (id : Text) (item : StoredDocument) :
    (s.get now id).1 = some item ↔
      ∃ known, recalled id events = some known ∧ Lasts s.lifetime now known ∧
        item = touchedAt now known := by
  rw [get_fst]
  cases hheld : lookup? id s.entries with
  | some held =>
    rw [(h.held id held hheld).1]
    cases hstale : s.isStale now held with
    | true => simp [Option.filter, hstale, isStale_iff.mp hstale]
    | false =>
      have hlasts : Lasts s.lifetime now held := by
        by_contra hnot
        rw [isStale_iff.mpr hnot] at hstale
        cases hstale
      simp [Option.filter, hstale, hlasts, eq_comm]
  | none =>
    refine ⟨nofun, ?_⟩
    rintro ⟨known, hknown, hlasts, -⟩
    obtain ⟨reading, hsub, hstale⟩ := h.lost id known hheld hknown
    -- It was stale at the reading, so it is stale now.
    have hsteady : Number.Steady [known.touched, reading, now] :=
      hclock.sublist (hsub.append (List.Sublist.refl [now]))
    unfold Lasts at hstale hlasts
    rw [not_or, Bool.not_eq_false] at hstale
    have hnow := Number.lt_sub_of_lt_sub hsteady hstale.2
    rcases hlasts with hzero | hless
    · exact absurd hzero hstale.1
    · rw [hnow] at hless
      cases hless

/-- What is not held stays away until its identifier is given out. -/
theorem lookup?_call_eq_none {s : Store} (h : Sound s) {id : Text}
    (hnone : lookup? id s.entries = none) (now : Number) (c : Call)
    (hnew : (s.call now c).1 ≠ .given id) : lookup? id (s.call now c).2.entries = none := by
  have hget (k : Text) : lookup? id (s.get now k).2.entries = none := by
    rw [lookup?_get h]
    split
    next hk => rw [get_fst, hk, hnone]; rfl
    next => exact hnone
  cases c with
  | put d extraction =>
    have hne : idOf s.issued ≠ id := fun heq => hnew (congrArg Answer.given heq)
    exact (lookup?_put h now d extraction id).trans (if_neg hne ▸ hnone)
  | get k => exact hget k
  | contains k => exact hget k
  | discard k =>
    show lookup? id (s.without k).entries = none
    rw [lookup?_without h, hnone, ite_self]
  | purge =>
    show lookup? id (s.purge now).2.entries = none
    rw [lookup?_purge h, hnone]
    rfl
  | size => exact hnone
  | ids => exact hnone

theorem lookup?_run_eq_none {s : Store} (h : Sound s) {id : Text}
    (hnone : lookup? id s.entries = none) (calls : List (Number × Call))
    (hnew : ∀ e ∈ (s.run calls).1, e.answer ≠ .given id) :
    lookup? id (s.run calls).2.entries = none := by
  induction calls generalizing s with
  | nil => exact hnone
  | cons c calls ih =>
    obtain ⟨hfirst, hrest⟩ := List.forall_mem_cons.mp hnew
    exact ih (h.call c.1 c.2) (lookup?_call_eq_none h hnone c.1 c.2 hfirst) hrest

theorem issued_call (s : Store) (now : Number) (c : Call) :
    ((s.call now c).1 = .given (idOf s.issued) ∧ (s.call now c).2.issued = s.issued + 1) ∨
      ((∀ id, (s.call now c).1 ≠ .given id) ∧ (s.call now c).2.issued = s.issued) := by
  cases c with
  | put => exact .inl ⟨rfl, rfl⟩
  | get id => exact .inr ⟨nofun, issued_get s now id⟩
  | contains id => exact .inr ⟨nofun, issued_get s now id⟩
  | discard => exact .inr ⟨nofun, rfl⟩
  | purge => exact .inr ⟨nofun, rfl⟩
  | size => exact .inr ⟨nofun, rfl⟩
  | ids => exact .inr ⟨nofun, rfl⟩

/-- The identifiers that calls give out are the next ones. -/
theorem given_run (s : Store) (calls : List (Number × Call)) :
    s.issued ≤ (s.run calls).2.issued ∧ ∀ e ∈ (s.run calls).1, ∀ id, e.answer = .given id →
      ∃ n, s.issued ≤ n ∧ n < (s.run calls).2.issued ∧ id = idOf n := by
  induction calls generalizing s with
  | nil => exact ⟨le_rfl, fun e he => absurd he List.not_mem_nil⟩
  | cons c calls ih =>
    obtain ⟨now, c⟩ := c
    obtain ⟨hle, hgiven⟩ := ih (s.call now c).2
    rw [run_cons]
    rcases issued_call s now c with ⟨hanswer, hissued⟩ | ⟨hanswer, hissued⟩
    · rw [hissued] at hle hgiven
      refine ⟨Nat.le_of_succ_le hle, List.forall_mem_cons.mpr ⟨fun id hid => ?_, ?_⟩⟩
      · exact ⟨s.issued, le_rfl, hle, Answer.given.inj (hid.symm.trans hanswer)⟩
      · intro e he id hid
        obtain ⟨n, hn, hlt, heq⟩ := hgiven e he id hid
        exact ⟨n, Nat.le_of_succ_le hn, hlt, heq⟩
    · rw [hissued] at hle hgiven
      exact ⟨hle, List.forall_mem_cons.mpr ⟨fun id hid => absurd hid (hanswer id), hgiven⟩⟩

/-! ## Purging -/

/-- The call is a purge. -/
def Call.isPurge : Call → Bool
  | .purge => true
  | _ => false

/-- The calls without the purges. -/
def unpurged (calls : List (Number × Call)) : List (Number × Call) :=
  calls.filter fun (_, c) => !c.isPurge

/-- When a document was asked for, which one, and the answer. -/
def Event.asked? : Event → Option (Number × Text × Answer)
  | ⟨now, .get id, answer⟩ => some (now, id, answer)
  | ⟨now, .contains id, answer⟩ => some (now, id, answer)
  | _ => none

/-- What was asked for, with the answers. -/
def lookups (events : List Event) : List (Number × Text × Answer) := events.filterMap Event.asked?

/-- Two runs say the same of documents. -/
structure Alike (r r' : List Event × Store) : Prop where
  issued : r.2.issued = r'.2.issued
  recalled : ∀ id, recalled id r.1 = recalled id r'.1
  lookups : lookups r.1 = lookups r'.1

/-- An event that says nothing of documents makes no difference. -/
theorem Alike.skip {r r' : List Event × Store} (h : Alike r r') {now : Number} {c : Call}
    (hpurge : c.isPurge = true) :
    Alike (r.1 ++ [⟨now, c, (r.2.call now c).1⟩], (r.2.call now c).2) r' := by
  cases c with
  | purge =>
    refine ⟨h.issued, fun id => ?_, ?_⟩
    · rw [recalled_concat, ← h.recalled id]
      rfl
    · rw [← h.lookups, Store.lookups, List.filterMap_append]
      exact List.append_nil _
  | _ => cases hpurge

/-- Calls are answered alike if the runs were alike before. -/
theorem Alike.call {r r' : List Event × Store} (h : Alike r r') (now : Number) (c : Call)
    (hget : ∀ id, (r.2.get now id).1 = (r'.2.get now id).1) :
    Alike (r.1 ++ [⟨now, c, (r.2.call now c).1⟩], (r.2.call now c).2)
      (r'.1 ++ [⟨now, c, (r'.2.call now c).1⟩], (r'.2.call now c).2) := by
  have hissued : (r.2.call now c).2.issued = (r'.2.call now c).2.issued := by
    cases c with
    | put => exact congrArg (· + 1) h.issued
    | get id => exact (issued_get ..).trans (h.issued.trans (issued_get ..).symm)
    | contains id => exact (issued_get ..).trans (h.issued.trans (issued_get ..).symm)
    | _ => exact h.issued
  have hrecall (id : Text) (known : Option StoredDocument) :
      Event.recall id known ⟨now, c, (r.2.call now c).1⟩ =
        Event.recall id known ⟨now, c, (r'.2.call now c).1⟩ := by
    cases c with
    | put d extraction => simp only [Store.call, Store.put, h.issued]
    | get id => simp only [Store.call, hget]
    | contains id => simp only [Store.call, contains, hget]
    | discard => rfl
    | purge => rfl
    | size => rfl
    | ids => rfl
  have hasked : Event.asked? ⟨now, c, (r.2.call now c).1⟩ =
      Event.asked? ⟨now, c, (r'.2.call now c).1⟩ := by
    cases c with
    | get id => simp only [Store.call, hget]
    | contains id => simp only [Store.call, contains, hget]
    | _ => rfl
  refine ⟨hissued, fun id => ?_, ?_⟩
  · rw [recalled_concat, recalled_concat, h.recalled, hrecall]
  · simp only [Store.lookups, List.filterMap_append, List.filterMap_cons, hasked]
    exact congrArg (· ++ _) h.lookups

theorem unpurged_sublist (calls : List (Number × Call)) : (unpurged calls).Sublist calls :=
  List.filter_sublist

/-- A run says the same of documents without its purges. -/
theorem alike_unpurged (lifetime : Number) (calls : List (Number × Call))
    (hclock : Number.Steady (calls.map (·.1))) :
    Alike (run { lifetime } calls) (run { lifetime } (unpurged calls)) := by
  induction calls using List.reverseRecOn with
  | nil => exact ⟨rfl, fun _ => rfl, rfl⟩
  | append_singleton calls c ih =>
    obtain ⟨now, c⟩ := c
    have hbefore := ih (hclock.sublist ((List.sublist_append_left ..).map _))
    rw [run_concat, unpurged, List.filter_append]
    cases hpurge : c.isPurge with
    | true =>
      rw [List.filter_cons_of_neg (by simp [hpurge]), List.filter_nil, List.append_nil]
      exact hbefore.skip hpurge
    | false =>
      rw [List.filter_cons_of_pos (by simp [hpurge]), List.filter_nil, run_concat]
      have hsteady : Number.Steady ((run { lifetime } calls).1.map Event.now ++ [now]) := by
        rw [map_now_run]
        simpa using hclock
      have hsteady' :
          Number.Steady ((run { lifetime } (unpurged calls)).1.map Event.now ++ [now]) := by
        rw [map_now_run] at hsteady ⊢
        exact hsteady.sublist (((unpurged_sublist calls).map _).append (List.Sublist.refl [now]))
      refine hbefore.call now c fun id => Option.ext fun item => ?_
      rw [(known_run lifetime calls).get hsteady, (known_run lifetime _).get hsteady',
        hbefore.recalled, lifetime_run, lifetime_run]

/-! ## The law of lookups -/

/-- **The store is its history.** Whatever calls were made while the clock did not go back: a
document is found exactly if it was put, not discarded since, and its lifetime has not ended since
the last access. One that is not found is never found again, unless it was never put and is put
later. And all runs of the same calls with purges anywhere between them answer alike whether
documents are there. -/
theorem lookups_of_history (lifetime : Number) (calls : List (Number × Call)) (now : Number)
    (id : Text) (hclock : Number.Steady (calls.map (·.1) ++ [now])) :
    let past := (run { lifetime } calls).1
    let s := (run { lifetime } calls).2
    (∀ item, (s.get now id).1 = some item ↔
      ∃ known, recalled id past = some known ∧ Lasts lifetime now known ∧
        item = touchedAt now known) ∧
    ((s.contains now id).1 = true ↔ ∃ known, recalled id past = some known ∧
      Lasts lifetime now known) ∧
    ((s.get now id).1 = none → ∀ later now',
      (∃ e ∈ past, e.answer = .given id) ∨
        (∀ e ∈ ((s.get now id).2.run later).1, e.answer ≠ .given id) →
      ((((s.get now id).2.run later).2.get now' id).1 = none)) ∧
    ∀ calls', unpurged calls' = unpurged calls → Number.Steady (calls'.map (·.1)) →
      lookups (run { lifetime } calls').1 = lookups past := by
  intro past s
  have hknown : Known s past := known_run lifetime calls
  have hsteady : Number.Steady (past.map Event.now ++ [now]) := by rwa [map_now_run]
  have hlifetime : s.lifetime = lifetime := lifetime_run _ calls
  have hget := hknown.get hsteady id
  rw [hlifetime] at hget
  refine ⟨hget, ?_, ?_, ?_⟩
  · show (s.get now id).1.isSome = true ↔ _
    rw [Option.isSome_iff_exists]
    constructor
    · rintro ⟨item, hitem⟩
      obtain ⟨known, hrecalled, hlasts, -⟩ := (hget item).mp hitem
      exact ⟨known, hrecalled, hlasts⟩
    · rintro ⟨known, hrecalled, hlasts⟩
      exact ⟨_, (hget _).mpr ⟨known, hrecalled, hlasts, rfl⟩⟩
  · intro hnone later now' hgiven
    have hgone : lookup? id (s.get now id).2.entries = none := by
      rw [lookup?_get hknown.sound, if_pos rfl, hnone]
    have hnew : ∀ e ∈ ((s.get now id).2.run later).1, e.answer ≠ .given id := by
      rcases hgiven with ⟨e, he, hput⟩ | hnew
      · obtain ⟨n, -, hn, rfl⟩ := (given_run _ calls).2 e he id hput
        intro e' he' hput'
        obtain ⟨m, hm, -, heq⟩ := (given_run _ later).2 e' he' _ hput'
        rw [issued_get, ← idOf_injective heq] at hm
        exact absurd hm (Nat.not_le.mpr hn)
      · exact hnew
    rw [get_fst, lookup?_run_eq_none (hknown.sound.get now id) hgone later hnew]
    rfl
  · intro calls' hsame hclock'
    have hbefore := hclock.sublist (List.sublist_append_left (calls.map (·.1)) [now])
    rw [(alike_unpurged lifetime calls' hclock').lookups, hsame,
      ← (alike_unpurged lifetime calls hbefore).lookups]

/-- A document that is kept for ten seconds, was asked for after eight and survived a purge after
twelve is there after eighteen, but no more half a second later. -/
theorem kept_since_last_access :
    let document : Document := ⟨"a.rpy".toList, [], .renpy⟩
    let calls : List (Number × Call) :=
      [(.int 0, .put document none), (.int 8, .get (idOf 0)), (.int 12, .purge)]
    let s := (run { lifetime := .int 10 } calls).2
    (s.contains (.int 18) (idOf 0)).1 = true ∧
      (s.contains (.float (.finite false 37 (-1))) (idOf 0)).1 ≠ true := by
  intro document calls s
  have hrecalled : recalled (idOf 0) (run { lifetime := .int 10 } calls).1 =
      some ⟨document, none, .int 8⟩ := rfl
  constructor
  · have hclock : Number.Steady [.int 0, .int 8, .int 12, .int 18] :=
      ⟨by decide, by decide, .inl (by simp)⟩
    have hlasts : Lasts (.int 10) (.int 18) ⟨document, none, .int 8⟩ := .inr (by decide)
    exact (lookups_of_history (.int 10) calls _ (idOf 0) hclock).2.1.mpr ⟨_, hrecalled, hlasts⟩
  · have hclock : Number.Steady [.int 0, .int 8, .int 12, .float (.finite false 37 (-1))] :=
      ⟨by decide, by decide +kernel, .inr (by simp [Number.Plain])⟩
    intro hfound
    obtain ⟨known, hknown, hlasts⟩ :=
      (lookups_of_history (.int 10) calls _ (idOf 0) hclock).2.1.mp hfound
    obtain rfl := Option.some.inj (hrecalled.symm.trans hknown)
    rcases hlasts with hzero | hless
    · revert hzero
      decide
    · revert hless
      decide +kernel

end Store

end GameText
