import GameText.Proofs.ScriptCall.Units
import GameText.Proofs.Text.Replacement
import GameText.ScriptCall.Edit

/-!
# Edits of a script call compose

Edits are applied one after another, from right to left, each to what the earlier ones left. When
every edit fits the call and no two share a character, none is skipped and the outcome is the call
with all spans replaced at once (`applyEdits_eq_replaceSpans`), whatever order the edits are listed
in. The induction is on the sorted edits: the text splits before the edit at hand, the part behind
has its final form, and the edits to come lie in the part before.

The values of a call are sound units, so any choice of them gives edits of this kind. Taken to
another text, edits that are as long as what they expect still share no character, and exactly those
that find it are made (`applyEdits_eq_filter`).
-/

namespace GameText

namespace Text

/-! ## Natural offsets -/

theorem clampOffset_natCast (length n : Nat) : clampOffset length (n : Int) = min n length := by
  have hpos : ¬ (n : Int) < 0 := by omega
  simp only [clampOffset, hpos, if_false, Int.toNat_natCast]

theorem upTo_natCast (s : Text) (n : Nat) : s.upTo (n : Int) = s.take n := by
  rw [upTo, clampOffset_natCast, ← List.take_eq_take_min]

theorem since_natCast (s : Text) (n : Nat) : s.since (n : Int) = s.drop n := by
  rw [since, clampOffset_natCast]
  rcases Nat.le_total n s.length with h | h
  · rw [Nat.min_eq_left h]
  · rw [Nat.min_eq_right h, List.drop_length, List.drop_of_length_le h]

theorem slice_natCast (s : Text) (a b : Nat) :
    s.slice (a : Int) (b : Int) = (s.take b).drop a := by
  rw [slice, clampOffset_natCast, clampOffset_natCast, ← List.take_eq_take_min]
  rcases Nat.le_total a s.length with h | h
  · rw [Nat.min_eq_left h]
  · rw [Nat.min_eq_right h, List.drop_of_length_le, List.drop_of_length_le]
    · exact Nat.le_trans (List.length_take_le' _ _) h
    · exact List.length_take_le' _ _

end Text

namespace ScriptCall

/-! ## Edits that fit -/

/-- The edit as a replacement. -/
def Edit.asReplacement (e : Edit) : Replacement := ⟨e.start.toNat, e.stop.toNat, e.replacement⟩

/-- The edit names a span of the text that has a character and holds what is expected there. -/
structure Edit.Fits (source : Text) (e : Edit) : Prop where
  nonneg : 0 ≤ e.start
  start_lt_stop : e.start < e.stop
  stop_le : e.stop ≤ source.length
  holds : source.slice e.start e.stop = e.expected

/-- Each edit, made after those before it, finds in its span what it expects there. -/
def NoneSkipped (source : Text) : List Edit → Prop
  | [] => True
  | e :: es => source.slice e.start e.stop = e.expected ∧ NoneSkipped (e.apply source) es

/-- The edit names a span that has a character. -/
def Edit.Spans (e : Edit) : Prop := 0 ≤ e.start ∧ e.start < e.stop

theorem Edit.Fits.spans {source : Text} {e : Edit} (h : e.Fits source) : e.Spans :=
  ⟨h.nonneg, h.start_lt_stop⟩

/-- The bounds of a span that has a character are natural numbers. -/
theorem Edit.Spans.exists_natCast {e : Edit} (h : e.Spans) :
    ∃ a b : Nat, e.start = a ∧ e.stop = b ∧ a < b := by
  obtain ⟨hnonneg, hlt⟩ := h
  obtain ⟨a, ha⟩ := Int.eq_ofNat_of_zero_le hnonneg
  obtain ⟨b, hb⟩ := Int.eq_ofNat_of_zero_le (Int.le_trans hnonneg (Int.le_of_lt hlt))
  refine ⟨a, b, ha, hb, ?_⟩
  omega

/-- An edit that fits, on natural offsets. -/
theorem Edit.Fits.exists_natCast {source : Text} {e : Edit} (h : e.Fits source) :
    ∃ a b : Nat, e.start = a ∧ e.stop = b ∧ a < b ∧ b ≤ source.length ∧
      (source.take b).drop a = e.expected := by
  obtain ⟨a, b, ha, hb, hlt⟩ := h.spans.exists_natCast
  have hle := h.stop_le
  have hholds := h.holds
  rw [ha, hb, Text.slice_natCast] at hholds
  exact ⟨a, b, ha, hb, hlt, by omega, hholds⟩

/-- An edit that ends in front of an offset fits the text up to there. -/
theorem Edit.Fits.take {source : Text} {e : Edit} (h : e.Fits source) {n : Nat}
    (hn : e.stop ≤ n) : e.Fits (source.take n) := by
  obtain ⟨a, b, ha, hb, hlt, hle, hholds⟩ := h.exists_natCast
  refine ⟨h.nonneg, h.start_lt_stop, ?_, ?_⟩
  · rw [List.length_take]
    omega
  · rw [ha, hb, Text.slice_natCast, List.take_take, Nat.min_eq_left (by omega), hholds]

/-- An edit that fits is made also when text is added behind, which stays as it is. -/
theorem Edit.Fits.apply_append {source : Text} {e : Edit} (h : e.Fits source) (behind : Text) :
    (source ++ behind).slice e.start e.stop = e.expected ∧
      e.apply (source ++ behind) =
        source.take e.start.toNat ++ (e.replacement ++ (source.drop e.stop.toNat ++ behind)) := by
  obtain ⟨a, b, ha, hb, hlt, hle, hholds⟩ := h.exists_natCast
  have hslice : (source ++ behind).slice e.start e.stop = e.expected := by
    rw [ha, hb, Text.slice_natCast, List.take_append_of_le_length hle, hholds]
  refine ⟨hslice, ?_⟩
  rw [Edit.apply, if_pos hslice, ha, hb, Text.upTo_natCast, Text.since_natCast, Int.toNat_natCast,
    Int.toNat_natCast, List.take_append_of_le_length (by omega), List.drop_append_of_le_length hle,
    List.append_assoc]

/-- A fitting edit cuts the text into what stands before it, what it expects and what stands behind. -/
theorem Edit.Fits.split {source : Text} {e : Edit} (h : e.Fits source) :
    source.take e.start.toNat ++ (e.expected ++ source.drop e.stop.toNat) = source := by
  obtain ⟨a, b, ha, hb, hlt, hle, hholds⟩ := h.exists_natCast
  rw [ha, hb, Int.toNat_natCast, Int.toNat_natCast]
  have htake : source.take a ++ e.expected = source.take b := by
    have hcut := List.take_append_drop a (source.take b)
    rwa [List.take_take, Nat.min_eq_left (Nat.le_of_lt hlt), hholds] at hcut
  rw [← List.append_assoc, htake, List.take_append_drop]

/-- Spans before a fitting edit are replaced in the text before it. -/
theorem Edit.Fits.replaceSpans_cons {source : Text} {e : Edit} (h : e.Fits source)
    {rs : List Replacement} (before : ∀ r ∈ rs, r.start < r.stop ∧ r.stop ≤ e.start.toNat) :
    source.replaceSpans (e.asReplacement :: rs) =
      Text.replaceSpans rs (source.take e.start.toNat) ++
        (e.replacement ++ source.drop e.stop.toNat) := by
  obtain ⟨a, b, ha, hb, hlt, hle, hholds⟩ := h.exists_natCast
  have hstart : (source.take e.start.toNat).length = e.start.toNat := by
    rw [List.length_take]
    omega
  have hexpected : e.expected.length = b - a := by
    rw [← hholds, List.length_drop, List.length_take]
    omega
  have hne : e.expected ≠ [] := List.length_pos_iff.mp (by omega)
  calc source.replaceSpans (e.asReplacement :: rs)
      = Text.replaceSpans (e.asReplacement :: rs)
          (source.take e.start.toNat ++ (e.expected ++ source.drop e.stop.toNat)) := by rw [h.split]
    _ = Text.replaceSpans rs (source.take e.start.toNat) ++
          (e.replacement ++ source.drop e.stop.toNat) := by
        refine Text.replaceSpans_cons_last hstart.symm ?_ hne ?_
        · simp only [Edit.asReplacement]
          omega
        · intro r hr
          rw [hstart]
          exact before r hr

/-- Edits in order from right to left, all of them before the text `behind`, replace their spans at
once and leave `behind` alone. -/
theorem foldl_apply {es : List Edit} {source : Text} (hfits : ∀ e ∈ es, e.Fits source)
    (order : es.Pairwise fun a b => b.stop ≤ a.start) (behind : Text) :
    NoneSkipped (source ++ behind) es ∧
      es.foldl Edit.apply (source ++ behind) =
        source.replaceSpans (es.map Edit.asReplacement) ++ behind := by
  induction es generalizing source behind with
  | nil => exact ⟨trivial, by rw [List.map_nil, Text.replaceSpans_nil]; rfl⟩
  | cons e es ih =>
    obtain ⟨hahead, horder⟩ := List.pairwise_cons.mp order
    have hfit := hfits e List.mem_cons_self
    obtain ⟨hholds, happly⟩ := hfit.apply_append behind
    have hstart : ((e.start.toNat : Nat) : Int) = e.start := Int.toNat_of_nonneg hfit.nonneg
    -- the edits to come lie before the one at hand
    have hbefore : ∀ e' ∈ es, e'.Fits (source.take e.start.toNat) := fun e' he' =>
      (hfits e' (List.mem_cons_of_mem _ he')).take (by rw [hstart]; exact hahead e' he')
    obtain ⟨hskip, hfold⟩ :=
      ih hbefore horder (e.replacement ++ (source.drop e.stop.toNat ++ behind))
    refine ⟨⟨hholds, by rw [happly]; exact hskip⟩, ?_⟩
    have hreplaced : source.replaceSpans (e.asReplacement :: es.map Edit.asReplacement) =
        Text.replaceSpans (es.map Edit.asReplacement) (source.take e.start.toNat) ++
          (e.replacement ++ source.drop e.stop.toNat) := by
      refine hfit.replaceSpans_cons ?_
      intro r hr
      obtain ⟨e', he', rfl⟩ := List.mem_map.mp hr
      have hstop := hahead e' he'
      obtain ⟨h0, h1⟩ := (hfits e' (List.mem_cons_of_mem _ he')).spans
      simp only [Edit.asReplacement]
      omega
    rw [List.foldl_cons, happly, hfold, List.map_cons, hreplaced]
    simp only [List.append_assoc]

/-- Edits that share no character are sorted so that each ends before the one in front of it
begins. -/
theorem mergeSort_order {es : List Edit} (spans : ∀ e ∈ es, e.Spans)
    (apart : es.Pairwise fun a b => a.asReplacement.Apart b.asReplacement) :
    (es.mergeSort fun a b => b.start ≤ a.start).Pairwise fun a b => b.stop ≤ a.start := by
  have perm : (es.mergeSort fun a b => b.start ≤ a.start).Perm es := List.mergeSort_perm _ _
  have hsymm : ∀ {a b : Edit}, a.asReplacement.Apart b.asReplacement →
      b.asReplacement.Apart a.asReplacement := Replacement.Apart.symm
  have hsorted : (es.mergeSort fun a b => b.start ≤ a.start).Pairwise fun a b => b.start ≤ a.start := by
    refine (List.pairwise_mergeSort ?_ ?_ es).imp of_decide_eq_true
    · intro a b c hab hbc
      simp only [decide_eq_true_eq] at *
      omega
    · intro a b
      simp only [Bool.or_eq_true, decide_eq_true_eq]
      omega
  refine (hsorted.and ((perm.pairwise_iff hsymm).mpr apart)).imp_of_mem ?_
  intro a b ha hb ⟨hle, hap⟩
  obtain ⟨h1, h2⟩ := spans a (perm.mem_iff.mp ha)
  obtain ⟨h3, h4⟩ := spans b (perm.mem_iff.mp hb)
  simp only [Replacement.Apart, Edit.asReplacement] at hap
  omega

/-- The order in which edits are listed plays no part in what they replace at once. -/
theorem replaceSpans_edits_perm {es es' : List Edit} (perm : es.Perm es')
    (spans : ∀ e ∈ es, e.Spans)
    (apart : es.Pairwise fun a b => a.asReplacement.Apart b.asReplacement) (source : Text) :
    source.replaceSpans (es.map Edit.asReplacement) =
      source.replaceSpans (es'.map Edit.asReplacement) := by
  refine Text.replaceSpansFrom_perm (perm.map _) ?_ (List.pairwise_map.mpr apart) 0 source
  intro r hr
  obtain ⟨e, he, rfl⟩ := List.mem_map.mp hr
  obtain ⟨h0, h1⟩ := spans e he
  simp only [Edit.asReplacement]
  omega

/-- **Edits that fit and share no character compose**: whatever order they are listed in, none is
skipped, and all spans are replaced at once. -/
theorem applyEdits_eq_replaceSpans {source : Text} {es : List Edit}
    (hfits : ∀ e ∈ es, e.Fits source)
    (apart : es.Pairwise fun a b => a.asReplacement.Apart b.asReplacement) :
    NoneSkipped source (es.mergeSort fun a b => b.start ≤ a.start) ∧
      applyEdits source es = source.replaceSpans (es.map Edit.asReplacement) := by
  have perm : (es.mergeSort fun a b => b.start ≤ a.start).Perm es := List.mergeSort_perm _ _
  have horder := mergeSort_order (fun e he => (hfits e he).spans) apart
  have hsymm : ∀ {a b : Edit}, a.asReplacement.Apart b.asReplacement →
      b.asReplacement.Apart a.asReplacement := Replacement.Apart.symm
  obtain ⟨hskip, hfold⟩ := foldl_apply (fun e he => hfits e (perm.mem_iff.mp he)) horder []
  rw [List.append_nil, List.append_nil] at hfold
  rw [List.append_nil] at hskip
  refine ⟨hskip, ?_⟩
  rw [applyEdits, hfold]
  exact replaceSpans_edits_perm perm (fun e he => (hfits e (perm.mem_iff.mp he)).spans)
    ((perm.pairwise_iff hsymm).mpr apart) source

/-! ## Edits that no longer fit -/

/-- The edit is as long as what it expects. -/
structure Edit.Measured (e : Edit) : Prop where
  spans : e.Spans
  length : (e.expected.length : Int) = e.stop - e.start

/-- The span of the edit holds what is expected there. -/
def Edit.holdsIn (source : Text) (e : Edit) : Bool := source.slice e.start e.stop == e.expected

theorem Edit.Measured.fits {e : Edit} (h : e.Measured) {source : Text}
    (holds : e.holdsIn source = true) : e.Fits source := by
  have hslice : source.slice e.start e.stop = e.expected := beq_iff_eq.mp holds
  obtain ⟨a, b, ha, hb, hlt⟩ := h.spans.exists_natCast
  have hlength := h.length
  have hcut := congrArg List.length hslice
  rw [ha, hb, Text.slice_natCast, List.length_drop, List.length_take] at hcut
  exact ⟨h.spans.1, h.spans.2, by omega, hslice⟩

/-- An edit leaves alone what stands before it. -/
theorem slice_apply {source : Text} {e : Edit} (fits : e.Fits source) {start stop : Int}
    (h : 0 ≤ start ∧ start ≤ stop ∧ stop ≤ e.start) :
    (e.apply source).slice start stop = source.slice start stop := by
  obtain ⟨a, ha⟩ := Int.eq_ofNat_of_zero_le h.1
  obtain ⟨b, hb⟩ := Int.eq_ofNat_of_zero_le (Int.le_trans h.1 h.2.1)
  obtain ⟨c, hc⟩ := Int.eq_ofNat_of_zero_le fits.nonneg
  have hlt := fits.start_lt_stop
  have hle := fits.stop_le
  have hlength : (source.take c).length = c := by
    rw [List.length_take]
    omega
  rw [Edit.apply, if_pos fits.holds, ha, hb, hc, Text.upTo_natCast, List.append_assoc,
    Text.slice_natCast, Text.slice_natCast, List.take_append_of_le_length (by omega),
    List.take_take, Nat.min_eq_left (by omega)]

/-- Edits in order from right to left: those that do not find what they expect are passed over, and
what stood there at the beginning decides which ones these are. -/
theorem foldl_apply_filter {es : List Edit} (measured : ∀ e ∈ es, e.Measured)
    (order : es.Pairwise fun a b => b.stop ≤ a.start) (source : Text) :
    es.foldl Edit.apply source = (es.filter (Edit.holdsIn source)).foldl Edit.apply source := by
  induction es generalizing source with
  | nil => rfl
  | cons e es ih =>
    obtain ⟨hahead, horder⟩ := List.pairwise_cons.mp order
    have hrest := fun s => ih (fun e he => measured e (List.mem_cons_of_mem _ he)) horder s
    by_cases hholds : e.holdsIn source = true
    · have hfits := (measured e List.mem_cons_self).fits hholds
      have hsame : es.filter (Edit.holdsIn (e.apply source)) = es.filter (Edit.holdsIn source) := by
        refine List.filter_congr ?_
        intro e' he'
        obtain ⟨h0, h1⟩ := (measured e' (List.mem_cons_of_mem _ he')).spans
        rw [Edit.holdsIn, Edit.holdsIn,
          slice_apply hfits ⟨h0, Int.le_of_lt h1, hahead e' he'⟩]
      rw [List.foldl_cons, hrest, hsame, List.filter_cons_of_pos hholds, List.foldl_cons]
    · have hskip : e.apply source = source := by
        rw [Edit.apply, if_neg fun h => hholds (beq_iff_eq.mpr h)]
      rw [List.foldl_cons, hskip, hrest, List.filter_cons_of_neg hholds]

/-- **Edits taken to another text**: exactly those whose spans still hold what is expected there
replace them, all at once. -/
theorem applyEdits_eq_filter {es : List Edit} (measured : ∀ e ∈ es, e.Measured)
    (apart : es.Pairwise fun a b => a.asReplacement.Apart b.asReplacement) (source : Text) :
    applyEdits source es =
      source.replaceSpans ((es.filter (Edit.holdsIn source)).map Edit.asReplacement) := by
  have perm : (es.mergeSort fun a b => b.start ≤ a.start).Perm es := List.mergeSort_perm _ _
  have hsymm : ∀ {a b : Edit}, a.asReplacement.Apart b.asReplacement →
      b.asReplacement.Apart a.asReplacement := Replacement.Apart.symm
  have horder := mergeSort_order (fun e he => (measured e he).spans) apart
  have hmeasured : ∀ e ∈ es.mergeSort fun a b => b.start ≤ a.start, e.Measured :=
    fun e he => measured e (perm.mem_iff.mp he)
  let kept := (es.mergeSort fun a b => b.start ≤ a.start).filter (Edit.holdsIn source)
  have hfits : ∀ e ∈ kept, e.Fits source := by
    intro e he
    obtain ⟨hmem, hholds⟩ := List.mem_filter.mp he
    exact (hmeasured e hmem).fits hholds
  obtain ⟨-, hfold⟩ := foldl_apply hfits (horder.sublist List.filter_sublist) []
  rw [List.append_nil, List.append_nil] at hfold
  rw [applyEdits, foldl_apply_filter hmeasured horder, hfold]
  exact replaceSpans_edits_perm (perm.filter _) (fun e he => (hfits e he).spans)
    (((perm.pairwise_iff hsymm).mpr apart).sublist List.filter_sublist) source

/-! ## Edits of the values of a call -/

/-- The edits that give chosen units a new written form, at every span of the unit. -/
def editsOf (choice : CallUnit → Option Text) (us : List CallUnit) : List Edit :=
  us.flatMap fun u =>
    match choice u with
    | none => []
    | some new => u.spans.map fun span => ⟨span.start, span.stop, u.written, new⟩

/-- An edit of a chosen unit comes from one of its spans. -/
theorem mem_editsOf {choice : CallUnit → Option Text} {us : List CallUnit} {e : Edit}
    (h : e ∈ editsOf choice us) : ∃ u ∈ us, ∃ new, choice u = some new ∧ ∃ span ∈ u.spans,
      e = ⟨span.start, span.stop, u.written, new⟩ := by
  obtain ⟨u, hu, he⟩ := List.mem_flatMap.mp h
  split at he
  next => cases he
  next new hnew =>
    obtain ⟨span, hspan, rfl⟩ := List.mem_map.mp he
    exact ⟨u, hu, new, hnew, span, hspan, rfl⟩

/-- An edit of a span of a sound unit fits the call. -/
theorem SoundUnits.fits {source : Text} {us : List CallUnit} (h : SoundUnits source us)
    {u : CallUnit} (hu : u ∈ us) {span : Span} (hspan : span ∈ u.spans) (new : Text) :
    Edit.Fits source ⟨span.start, span.stop, u.written, new⟩ := by
  have hwithin := h.within u hu span hspan
  have h1 := hwithin.start_lt_stop
  have h2 := hwithin.stop_le
  refine ⟨Int.natCast_nonneg _, by dsimp only; omega, by dsimp only; omega, ?_⟩
  rw [Text.slice_natCast, ← h.holds u hu span hspan]
  rfl

theorem SoundUnits.editsOf_fits {source : Text} {us : List CallUnit} (h : SoundUnits source us)
    (choice : CallUnit → Option Text) : ∀ e ∈ editsOf choice us, e.Fits source := by
  intro e he
  obtain ⟨u, hu, new, -, span, hspan, rfl⟩ := mem_editsOf he
  exact h.fits hu hspan new

/-- The edits of chosen units stand at some of the spans of all units. -/
theorem editsOf_pairwise {choice : CallUnit → Option Text} {us : List CallUnit}
    (apart : (us.flatMap (·.spans)).Pairwise Span.Apart) :
    (editsOf choice us).Pairwise fun a b => a.asReplacement.Apart b.asReplacement := by
  induction us with
  | nil => exact List.Pairwise.nil
  | cons u us ih =>
    rw [List.flatMap_cons, List.pairwise_append] at apart
    obtain ⟨hown, hothers, hcross⟩ := apart
    rw [editsOf, List.flatMap_cons, List.pairwise_append]
    refine ⟨?_, ih hothers, ?_⟩
    · split
      next => exact List.Pairwise.nil
      next =>
        rw [List.pairwise_map]
        exact hown.imp fun h => h
    · intro a ha b hb
      obtain ⟨v, hv, new, -, span, hspan, rfl⟩ := mem_editsOf hb
      split at ha
      next => cases ha
      next =>
        obtain ⟨span', hspan', rfl⟩ := List.mem_map.mp ha
        exact hcross span' hspan' span (List.mem_flatMap.mpr ⟨v, hv, hspan⟩)

/-- **Edits of sound units compose**, in whatever order they are listed. -/
theorem SoundUnits.applyEdits_eq {source : Text} {us : List CallUnit} (h : SoundUnits source us)
    {choice : CallUnit → Option Text} {listed : List Edit} (perm : listed.Perm (editsOf choice us)) :
    NoneSkipped source (listed.mergeSort fun a b => b.start ≤ a.start) ∧
      applyEdits source listed = source.replaceSpans (listed.map Edit.asReplacement) :=
  applyEdits_eq_replaceSpans (fun e he => h.editsOf_fits choice e (perm.mem_iff.mp he))
    ((perm.pairwise_iff Replacement.Apart.symm).mpr (editsOf_pairwise h.apart))

/-- The outcome does not depend on the order in which the edits are listed. -/
theorem SoundUnits.applyEdits_perm {source : Text} {us : List CallUnit} (h : SoundUnits source us)
    {choice : CallUnit → Option Text} {listed : List Edit} (perm : listed.Perm (editsOf choice us)) :
    applyEdits source listed = source.replaceSpans ((editsOf choice us).map Edit.asReplacement) :=
  (h.applyEdits_eq perm).2.trans (replaceSpans_edits_perm perm.symm
    (fun e he => (h.editsOf_fits choice e he).spans) (editsOf_pairwise h.apart) source).symm

/-- **The values of a call are sound and their edits compose.** Whichever units are chosen and
whatever is written for them, in whatever order the edits are listed: none is skipped, and the
outcome is the call with the spans of the chosen units replaced at once. -/
theorem edits_of_units_compose (source : Text) :
    SoundUnits source (units source) ∧
      ∀ (choice : CallUnit → Option Text) (listed : List Edit),
        listed.Perm (editsOf choice (units source)) →
          NoneSkipped source (listed.mergeSort fun a b => b.start ≤ a.start) ∧
            applyEdits source listed = source.replaceSpans (listed.map Edit.asReplacement) :=
  ⟨units_sound source, fun _ _ perm => (units_sound source).applyEdits_eq perm⟩

/-- A name that stands twice is one unit with two spans. -/
theorem units_of_repeated_name : units "add('Bob','Bob')".toList =
    [⟨"Bob".toList, "'Bob'".toList, .quoted, '\'', [⟨4, 9⟩, ⟨10, 15⟩]⟩] := by
  have hclaimed : claimed "add('Bob','Bob')".toList =
      [⟨"Bob".toList, "'Bob'".toList, .quoted, '\'', [⟨4, 9⟩]⟩,
       ⟨"Bob".toList, "'Bob'".toList, .quoted, '\'', [⟨10, 15⟩]⟩] := by decide +kernel
  have hclean : Classify.isGarbage "Bob".toList = false := by decide +kernel
  rw [units, hclaimed, List.mergeSort_of_pairwise (by decide)]
  simp only [List.foldl_cons, List.foldl_nil, accept, hclean]
  decide

/-- The two edits of that unit, listed from right to left. -/
theorem edits_of_repeated_name_compose :
    let source := "add('Bob','Bob')".toList
    let listed : List Edit := [⟨10, 15, "'Bob'".toList, "'Ann'".toList⟩,
      ⟨4, 9, "'Bob'".toList, "'Ann'".toList⟩]
    listed.Perm (editsOf (fun _ => some "'Ann'".toList) (units source)) ∧
      NoneSkipped source (listed.mergeSort fun a b => b.start ≤ a.start) ∧
      applyEdits source listed = "add('Ann','Ann')".toList := by
  intro source listed
  have perm : listed.Perm (editsOf (fun _ => some "'Ann'".toList) (units source)) := by
    rw [units_of_repeated_name]
    exact List.Perm.swap _ _ _
  obtain ⟨hskip, happly⟩ := (edits_of_units_compose source).2 _ listed perm
  refine ⟨perm, hskip, happly.trans ?_⟩
  decide +kernel

end ScriptCall

end GameText
