import GameText.ScriptCall.Unit

/-!
# The spans of a script call's values

Five detectors look at the same literals, and a value that comes again joins its spans to the first
unit with the same text. What has to hold in the end is one property of the list of units,
`SoundUnits`: texts that differ from each other and are no garbage, units in the order of their
first spans, every span inside the call and holding what its unit says is written there, and no two
spans with a character in common.

The proof follows the three passes. A detector proposes units with one span each
(`Proposed`); claiming keeps what is claimed apart (`Claims.Sound`, one step and then a fold); and
accepting, in the order of the call, turns claims into sound units (`accept_sound`, then a fold).
Not established: which values the detectors find.
-/

namespace GameText

namespace ScriptCall

/-! ## Literals stand in the call one after another -/

theorem close?_eq {quote : Char} {s inside rest : Text}
    (h : close? quote s = some (inside, rest)) : s = inside ++ quote :: rest := by
  fun_induction close? quote s generalizing inside rest with
  | case1 => cases h
  | case2 => cases h
  | case3 c cs ih =>
    obtain ⟨⟨inside', rest'⟩, hclose, heq⟩ := Option.map_eq_some_iff.mp h
    cases heq
    rw [ih hclose]
    rfl
  | case4 cs =>
    cases h
    rfl
  | case5 c cs _ _ _ ih =>
    obtain ⟨⟨inside', rest'⟩, hclose, heq⟩ := Option.map_eq_some_iff.mp h
    cases heq
    rw [ih hclose]
    rfl

/-- The literals of a text begin after what is skipped and end inside the text. -/
theorem bounds_of_mem_literalsFrom {offset skip : Nat} {s : Text} {l : Literal}
    (h : l ∈ literalsFrom offset skip s) :
    offset + skip ≤ l.start ∧ l.stop ≤ offset + s.length := by
  induction s generalizing offset skip with
  | nil => cases h
  | cons c cs ih =>
    cases skip with
    | succ k =>
      have := ih (h : l ∈ literalsFrom (offset + 1) k cs)
      simp only [List.length_cons]
      omega
    | zero =>
      simp only [literalsFrom] at h
      split at h
      next =>
        split at h
        next inner rest hclose =>
          have hlen := congrArg List.length (close?_eq hclose)
          simp only [List.length_append, List.length_cons] at hlen
          rcases List.mem_cons.mp h with rfl | htail
          · simp only [Literal.stop, List.length_cons]
            omega
          · have := ih htail
            simp only [List.length_cons]
            omega
        next => cases h
      next =>
        have := ih h
        simp only [List.length_cons]
        omega

theorem literalsFrom_pairwise (offset skip : Nat) (s : Text) :
    (literalsFrom offset skip s).Pairwise fun a b => a.stop ≤ b.start := by
  induction s generalizing offset skip with
  | nil => exact List.Pairwise.nil
  | cons c cs ih =>
    cases skip with
    | succ k => exact ih (offset + 1) k
    | zero =>
      simp only [literalsFrom]
      split
      next =>
        split
        next inner rest hclose =>
          refine List.pairwise_cons.mpr ⟨?_, ih _ _⟩
          intro b hb
          have := (bounds_of_mem_literalsFrom hb).1
          simp only [Literal.stop]
          omega
        next => exact List.Pairwise.nil
      next => exact ih _ _

theorem literals_pairwise (source : Text) :
    (literals source).Pairwise fun a b => a.stop ≤ b.start :=
  literalsFrom_pairwise 0 0 source

theorem stop_le_of_mem_literals {source : Text} {l : Literal} (h : l ∈ literals source) :
    l.stop ≤ source.length := by
  have := (bounds_of_mem_literalsFrom h).2
  omega

theorem Literal.start_lt_stop (l : Literal) : l.start < l.stop := by
  simp only [Literal.stop]
  omega

/-! ## What a detector proposes -/

/-- The span has a character and lies inside the call. -/
structure Span.Within (source : Text) (span : Span) : Prop where
  start_lt_stop : span.start < span.stop
  stop_le : span.stop ≤ source.length

/-- No character is common to both spans. -/
def Span.Apart (a b : Span) : Prop := a.stop ≤ b.start ∨ b.stop ≤ a.start

theorem Span.Apart.symm {a b : Span} (h : a.Apart b) : b.Apart a := Or.symm h

theorem Span.apart_of_overlaps {a b : Span} (h : a.overlaps b = false) : a.Apart b := by
  simp only [Span.overlaps, Bool.and_eq_false_iff, decide_eq_false_iff_not] at h
  simp only [Span.Apart]
  omega

/-- A unit with one span, which holds what the unit says is written there; its kind is told by its
name. -/
structure CallUnit.Proposed (source : Text) (u : CallUnit) : Prop where
  named : Kind.ofName u.kind.name = u.kind
  spans_eq : u.spans = [u.firstSpan]
  within : u.firstSpan.Within source
  holds : u.firstSpan.of source = u.written

theorem CallUnit.proposed_single {source : Text} {span : Span} (h : span.Within source)
    (text : Text) {kind : Kind} (named : Kind.ofName kind.name = kind) (quote : Char) :
    (CallUnit.single source text kind quote span).Proposed source :=
  ⟨named, rfl, h, rfl⟩

theorem Literal.within {source : Text} {l : Literal} (h : l ∈ literals source) :
    Span.Within source ⟨l.start, l.stop⟩ :=
  ⟨l.start_lt_stop, stop_le_of_mem_literals h⟩

theorem proposed_of_mem_pluginArguments {source : Text} {u : CallUnit}
    (h : u ∈ (pluginArguments source (literals source)).1) : u.Proposed source := by
  unfold pluginArguments at h
  split at h
  next => cases h
  next call _ =>
    split at h
    next members _ =>
      obtain ⟨l, hl, hu⟩ := List.mem_filterMap.mp h
      split at hu
      next => cases hu
      next =>
        split at hu
        next => cases hu
        next value _ =>
          dsimp only at hu
          split at hu
          next =>
            cases hu
            exact CallUnit.proposed_single (Literal.within hl) _ (by decide) _
          next => cases hu
    next => cases h

/-- A run of joined literals is a part of the literals, in their order. -/
theorem sublist_of_mem_chainsFrom {source : Text} {run ls chain : List Literal}
    (h : chain ∈ chainsFrom source run ls) : chain.Sublist (run.reverse ++ ls) := by
  induction ls generalizing run with
  | nil =>
    cases List.mem_singleton.mp h
    exact List.sublist_append_left _ _
  | cons l ls ih =>
    have hclosed : ∀ {next : List Literal}, (chain.Sublist (next.reverse ++ ls)) →
        next.reverse.Sublist [l] → chain.Sublist (run.reverse ++ l :: ls) := fun hsub hnext =>
      hsub.trans ((hnext.append_right ls).trans (List.sublist_append_right _ _))
    simp only [chainsFrom] at h
    split at h
    next =>
      rcases List.mem_cons.mp h with rfl | h
      · exact List.sublist_append_left _ _
      · exact hclosed (ih h) (List.nil_sublist _)
    next =>
      split at h
      next last before =>
        split at h
        next =>
          have := ih h
          rwa [List.reverse_cons (a := l), List.append_assoc] at this
        next =>
          rcases List.mem_cons.mp h with rfl | h
          · exact List.sublist_append_left _ _
          · exact hclosed (ih h) (List.Sublist.refl _)
      next => exact ih h

/-- In a row of literals one after another, the first begins where the last ends or before. -/
theorem start_lt_stop_of_ends {ls : List Literal} (h : ls.Pairwise fun a b => a.stop ≤ b.start)
    {first last : Literal} (hfirst : ls.head? = some first) (hlast : ls.getLast? = some last) :
    first.start < last.stop := by
  cases ls with
  | nil => cases hfirst
  | cons l ls =>
    obtain rfl : l = first := Option.some.inj hfirst
    cases ls with
    | nil =>
      obtain rfl : l = last := Option.some.inj hlast
      exact l.start_lt_stop
    | cons l' ls =>
      rw [List.getLast?_cons_cons] at hlast
      have hle := (List.pairwise_cons.mp h).1 last (List.mem_of_getLast? hlast)
      have h1 := l.start_lt_stop
      have h2 := last.start_lt_stop
      omega

theorem proposed_of_chainUnit? {source : Text} {chain : List Literal}
    (hchain : chain ∈ chains source (literals source)) {u : CallUnit}
    (h : chainUnit? source chain = some u) : u.Proposed source := by
  have hrun : chain ∈ chainsFrom source [] (literals source) := (List.mem_filter.mp hchain).1
  have hsub : chain.Sublist (literals source) := sublist_of_mem_chainsFrom hrun
  unfold chainUnit? at h
  split at h
  next first last hfirst hlast =>
    cases h
    refine CallUnit.proposed_single ⟨?_, ?_⟩ _ (by decide) _
    · exact start_lt_stop_of_ends (List.Pairwise.sublist hsub (literals_pairwise source)) hfirst hlast
    · exact stop_le_of_mem_literals (hsub.subset (List.mem_of_getLast? hlast))
  next => cases h

theorem proposed_of_plainUnit? {source : Text} {l : Literal} (hl : l ∈ literals source)
    {u : CallUnit} (h : plainUnit? source l = some u) : u.Proposed source := by
  have hwithin := Literal.within hl
  unfold plainUnit? at h
  split at h
  next => cases h
  next =>
    split at h
    next n _ =>
      cases h
      have hkeyed : Span.Within source ⟨l.start - n, l.stop⟩ :=
        ⟨Nat.lt_of_le_of_lt (Nat.sub_le _ _) l.start_lt_stop, hwithin.stop_le⟩
      exact CallUnit.proposed_single hkeyed _ (by decide) _
    next =>
      split at h
      next => cases h
      next =>
        cases h
        exact CallUnit.proposed_single hwithin _ (by decide) _

/-! ## Claiming -/

/-- The claims so far: units with one span each, all spans taken, none with a character in common. -/
structure Claims.Sound (source : Text) (claims : Claims) : Prop where
  proposed : ∀ u ∈ claims.units, u.Proposed source
  taken : ∀ u ∈ claims.units, u.firstSpan ∈ claims.taken
  apart : claims.units.Pairwise fun a b => a.firstSpan.Apart b.firstSpan

theorem Claims.sound_claim {source : Text} {claims : Claims} (h : claims.Sound source)
    {u : CallUnit} (hu : u.Proposed source) : (claims.claim u).Sound source := by
  unfold Claims.claim
  split
  next => exact h
  next hfree =>
    refine ⟨?_, ?_, ?_⟩
    · intro v hv
      rcases List.mem_append.mp hv with hv | hv
      · exact h.proposed v hv
      · cases List.mem_singleton.mp hv
        exact hu
    · intro v hv
      rcases List.mem_append.mp hv with hv | hv
      · exact List.mem_append_left _ (h.taken v hv)
      · cases List.mem_singleton.mp hv
        exact List.mem_append_right _ List.mem_cons_self
    · refine List.pairwise_append.mpr ⟨h.apart, List.pairwise_singleton _ _, ?_⟩
      intro v hv w hw
      cases List.mem_singleton.mp hw
      have hno : u.firstSpan.overlaps v.firstSpan = false := by
        rw [← Bool.not_eq_true]
        intro hyes
        exact hfree (List.any_eq_true.mpr ⟨_, h.taken v hv, hyes⟩)
      exact (Span.apart_of_overlaps hno).symm

theorem Claims.sound_foldl_claim {source : Text} {us : List CallUnit}
    (hus : ∀ u ∈ us, u.Proposed source) {claims : Claims} (h : claims.Sound source) :
    (us.foldl Claims.claim claims).Sound source := by
  induction us generalizing claims with
  | nil => exact h
  | cons u us ih =>
    exact ih (fun v hv => hus v (List.mem_cons_of_mem _ hv))
      (Claims.sound_claim h (hus u List.mem_cons_self))

/-- A block that is taken without a unit leaves the claims sound. -/
theorem Claims.sound_block {source : Text} {claims : Claims} (h : claims.Sound source)
    (blocks : List Span) : Claims.Sound source { claims with taken := claims.taken ++ blocks } :=
  ⟨h.proposed, fun u hu => List.mem_append_left _ (h.taken u hu), h.apart⟩

/-- What the five detectors claim has one span each, and no two have a character in common. -/
theorem claimed_sound (source : Text) :
    (∀ u ∈ claimed source, u.Proposed source) ∧
      (claimed source).Pairwise fun a b => a.firstSpan.Apart b.firstSpan := by
  have hfirst : Claims.Sound source
      ((((literals source).filter (·.quote == '`')).map (fun l =>
          CallUnit.single source l.inner .template '`' ⟨l.start, l.stop⟩) ++
        (pluginArguments source (literals source)).1).foldl Claims.claim ⟨[], []⟩) := by
    refine Claims.sound_foldl_claim ?_ ⟨nofun, nofun, List.Pairwise.nil⟩
    intro u hu
    rcases List.mem_append.mp hu with hu | hu
    · obtain ⟨l, hl, rfl⟩ := List.mem_map.mp hu
      exact CallUnit.proposed_single (Literal.within (List.mem_filter.mp hl).1) _ (by decide) _
    · exact proposed_of_mem_pluginArguments hu
  have hlater : ∀ u ∈ (chains source (literals source)).filterMap (chainUnit? source) ++
      (literals source).filterMap (plainUnit? source), u.Proposed source := by
    intro u hu
    rcases List.mem_append.mp hu with hu | hu
    · obtain ⟨chain, hchain, hu⟩ := List.mem_filterMap.mp hu
      exact proposed_of_chainUnit? hchain hu
    · obtain ⟨l, hl, hu⟩ := List.mem_filterMap.mp hu
      exact proposed_of_plainUnit? hl hu
  have hall := Claims.sound_foldl_claim hlater
    (Claims.sound_block hfirst (pluginArguments source (literals source)).2.toList)
  exact ⟨hall.proposed, hall.apart⟩

/-! ## Accepting -/

/-- Units that can be edited by their spans: the texts differ and are no garbage, the first spans
stand in order, every span lies in the call and holds what its unit says is written there, and no
character is common to two spans. -/
structure SoundUnits (source : Text) (us : List CallUnit) : Prop where
  texts : (us.map (·.text)).Nodup
  clean : ∀ u ∈ us, Classify.isGarbage u.text = false
  order : us.Pairwise fun a b => a.firstSpan.start < b.firstSpan.start
  spanned : ∀ u ∈ us, u.spans ≠ []
  within : ∀ u ∈ us, ∀ span ∈ u.spans, span.Within source
  holds : ∀ u ∈ us, ∀ span ∈ u.spans, span.of source = u.written
  apart : (us.flatMap (·.spans)).Pairwise Span.Apart

/-- Gives the span of a repeated value to the unit that has its text, if both are written alike. -/
def CallUnit.absorb (u first : CallUnit) : CallUnit :=
  if first.text == u.text && first.written == u.written then
    { first with spans := first.spans ++ u.spans }
  else first

namespace CallUnit

@[simp] theorem absorb_text (u first : CallUnit) : (u.absorb first).text = first.text := by
  unfold absorb
  split <;> rfl

@[simp] theorem absorb_written (u first : CallUnit) :
    (u.absorb first).written = first.written := by
  unfold absorb
  split <;> rfl

@[simp] theorem absorb_kind (u first : CallUnit) : (u.absorb first).kind = first.kind := by
  unfold absorb
  split <;> rfl

theorem mem_absorb_spans {u first : CallUnit} {span : Span}
    (h : span ∈ (u.absorb first).spans) :
    span ∈ first.spans ∨ (span ∈ u.spans ∧ first.text = u.text ∧ first.written = u.written) := by
  unfold absorb at h
  split at h
  next hsame =>
    rw [Bool.and_eq_true, beq_iff_eq, beq_iff_eq] at hsame
    rcases List.mem_append.mp h with h | h
    · exact Or.inl h
    · exact Or.inr ⟨h, hsame⟩
  next => exact Or.inl h

theorem absorb_spans_ne_nil {u first : CallUnit} (h : first.spans ≠ []) :
    (u.absorb first).spans ≠ [] := by
  unfold absorb
  split
  next => exact List.append_ne_nil_of_left_ne_nil h _
  next => exact h

/-- Spans are added behind those that are there, so the first span stays. -/
theorem absorb_firstSpan {u first : CallUnit} (h : first.spans ≠ []) :
    (u.absorb first).firstSpan = first.firstSpan := by
  unfold absorb
  split
  next =>
    obtain ⟨span, spans, hspans⟩ := List.exists_cons_of_ne_nil h
    simp only [firstSpan, hspans, List.cons_append, List.headD_cons]
  next => rfl

end CallUnit

/-- A repeated value adds its spans at most once: only one unit has its text. -/
theorem flatMap_absorb_perm {us : List CallUnit} (texts : (us.map (·.text)).Nodup)
    (u : CallUnit) :
    ((us.map u.absorb).flatMap (·.spans)).Perm (us.flatMap (·.spans)) ∨
      ((us.map u.absorb).flatMap (·.spans)).Perm (us.flatMap (·.spans) ++ u.spans) := by
  induction us with
  | nil => exact Or.inl (List.Perm.refl _)
  | cons first us ih =>
    obtain ⟨hfirst, hrest⟩ := List.nodup_cons.mp texts
    simp only [List.map_cons, List.flatMap_cons]
    by_cases hsame : first.text = u.text
    · have hothers : us.map u.absorb = us.map id := by
        refine List.map_congr_left ?_
        intro other hother
        have hne : (other.text == u.text) = false := by
          rw [beq_eq_false_iff_ne]
          intro heq
          exact hfirst (List.mem_map.mpr ⟨other, hother, heq.trans hsame.symm⟩)
        simp only [CallUnit.absorb, hne, Bool.false_and, Bool.false_eq_true, if_false, id]
      rw [hothers, List.map_id]
      unfold CallUnit.absorb
      split
      next =>
        refine Or.inr ?_
        simp only [List.append_assoc]
        exact List.Perm.append_left _ List.perm_append_comm
      next => exact Or.inl (List.Perm.refl _)
    · have hkeep : u.absorb first = first := by
        simp only [CallUnit.absorb, beq_eq_false_iff_ne.mpr hsame, Bool.false_and,
          Bool.false_eq_true, if_false]
      rw [hkeep, List.append_assoc]
      exact (ih hrest).imp (List.Perm.append_left _) (List.Perm.append_left _)

theorem CallUnit.firstSpan_mem {u : CallUnit} (h : u.spans ≠ []) : u.firstSpan ∈ u.spans := by
  obtain ⟨span, spans, hspans⟩ := List.exists_cons_of_ne_nil h
  simp only [firstSpan, hspans, List.headD_cons, List.mem_cons, true_or]

/-- What acceptance adds to the spans so far is the span of the new unit. -/
theorem mem_accept_spans {us : List CallUnit} {u : CallUnit} {span : Span}
    (h : span ∈ (accept us u).flatMap (·.spans)) :
    span ∈ us.flatMap (·.spans) ∨ span ∈ u.spans := by
  unfold accept at h
  split at h
  next => exact Or.inl h
  next =>
    split at h
    next =>
      obtain ⟨v, hv, hspan⟩ := List.mem_flatMap.mp h
      obtain ⟨first, hfirst, rfl⟩ := List.mem_map.mp hv
      rcases CallUnit.mem_absorb_spans (u := u) hspan with hspan | ⟨hspan, -⟩
      · exact Or.inl (List.mem_flatMap.mpr ⟨first, hfirst, hspan⟩)
      · exact Or.inr hspan
    next =>
      rw [List.flatMap_append, List.flatMap_singleton] at h
      exact List.mem_append.mp h

/-- The span of a proposed unit lies in the call and holds what the unit says is written there. -/
theorem CallUnit.Proposed.of_mem_spans {source : Text} {u : CallUnit} (hu : u.Proposed source)
    {span : Span} (h : span ∈ u.spans) : span.Within source ∧ span.of source = u.written := by
  rw [hu.spans_eq] at h
  cases List.mem_singleton.mp h
  exact ⟨hu.within, hu.holds⟩

/-- A unit that stands behind all spans so far has no character in common with them. -/
theorem SoundUnits.apart_append {source : Text} {us : List CallUnit} (h : SoundUnits source us)
    {u : CallUnit} (hu : u.Proposed source)
    (behind : ∀ span ∈ us.flatMap (·.spans), span.stop ≤ u.firstSpan.start) :
    (us.flatMap (·.spans) ++ u.spans).Pairwise Span.Apart := by
  rw [hu.spans_eq]
  refine List.pairwise_append.mpr ⟨h.apart, List.pairwise_singleton _ _, ?_⟩
  intro a ha b hb
  cases List.mem_singleton.mp hb
  exact Or.inl (behind a ha)

/-- The unit with the same text may take the spans of a repeated value. -/
theorem SoundUnits.map_absorb {source : Text} {us : List CallUnit} (h : SoundUnits source us)
    {u : CallUnit} (hu : u.Proposed source)
    (behind : ∀ span ∈ us.flatMap (·.spans), span.stop ≤ u.firstSpan.start) :
    SoundUnits source (us.map u.absorb) := by
  have hspans : ∀ v ∈ us.map u.absorb, ∀ span ∈ v.spans,
      span.Within source ∧ span.of source = v.written := by
    intro v hv span hspan
    obtain ⟨first, hfirst, rfl⟩ := List.mem_map.mp hv
    rw [CallUnit.absorb_written]
    rcases CallUnit.mem_absorb_spans hspan with hspan | ⟨hspan, -, hwritten⟩
    · exact ⟨h.within first hfirst span hspan, h.holds first hfirst span hspan⟩
    · rw [hwritten]
      exact hu.of_mem_spans hspan
  refine ⟨?texts, ?clean, ?order, ?spanned, fun v hv span hspan => (hspans v hv span hspan).1,
    fun v hv span hspan => (hspans v hv span hspan).2, ?apart⟩
  case texts => simpa only [List.map_map, Function.comp_def, CallUnit.absorb_text] using h.texts
  case clean =>
    intro v hv
    obtain ⟨first, hfirst, rfl⟩ := List.mem_map.mp hv
    rw [CallUnit.absorb_text]
    exact h.clean first hfirst
  case order =>
    rw [List.pairwise_map]
    refine h.order.imp_of_mem ?_
    intro a b ha hb hlt
    rwa [CallUnit.absorb_firstSpan (h.spanned _ ha), CallUnit.absorb_firstSpan (h.spanned _ hb)]
  case spanned =>
    intro v hv
    obtain ⟨first, hfirst, rfl⟩ := List.mem_map.mp hv
    exact CallUnit.absorb_spans_ne_nil (h.spanned first hfirst)
  case apart =>
    rcases flatMap_absorb_perm h.texts u with perm | perm
    · exact (perm.pairwise_iff Span.Apart.symm).mpr h.apart
    · exact (perm.pairwise_iff Span.Apart.symm).mpr (h.apart_append hu behind)

/-- A unit with a new text may be added at the end. -/
theorem SoundUnits.append_singleton {source : Text} {us : List CallUnit}
    (h : SoundUnits source us) {u : CallUnit} (hu : u.Proposed source)
    (behind : ∀ span ∈ us.flatMap (·.spans), span.stop ≤ u.firstSpan.start)
    (clean : Classify.isGarbage u.text = false) (new : u.text ∉ us.map (·.text)) :
    SoundUnits source (us ++ [u]) := by
  have hall : ∀ {p : CallUnit → Prop}, (∀ v ∈ us, p v) → p u → ∀ v ∈ us ++ [u], p v := by
    intro p hus hp v hv
    rcases List.mem_append.mp hv with hv | hv
    · exact hus v hv
    · cases List.mem_singleton.mp hv
      exact hp
  refine ⟨?texts, hall h.clean clean, ?order, hall h.spanned ?spanned,
    hall h.within fun span hspan => (hu.of_mem_spans hspan).1,
    hall h.holds fun span hspan => (hu.of_mem_spans hspan).2, ?apart⟩
  case texts =>
    rw [List.map_append, List.nodup_append]
    refine ⟨h.texts, List.nodup_cons.mpr ⟨List.not_mem_nil, List.nodup_nil⟩, ?_⟩
    intro t ht t' ht' heq
    rw [heq, List.mem_singleton.mp ht'] at ht
    exact new ht
  case order =>
    refine List.pairwise_append.mpr ⟨h.order, List.pairwise_singleton _ _, ?_⟩
    intro a ha b hb
    cases List.mem_singleton.mp hb
    have hfirst := CallUnit.firstSpan_mem (h.spanned a ha)
    exact Nat.lt_of_lt_of_le (h.within a ha _ hfirst).start_lt_stop
      (behind _ (List.mem_flatMap.mpr ⟨a, ha, hfirst⟩))
  case spanned =>
    rw [hu.spans_eq]
    exact List.cons_ne_nil _ _
  case apart =>
    rw [List.flatMap_append, List.flatMap_singleton]
    exact h.apart_append hu behind

/-- Accepting a unit that stands behind all spans so far keeps the units sound. -/
theorem accept_sound {source : Text} {us : List CallUnit} (h : SoundUnits source us)
    {u : CallUnit} (hu : u.Proposed source)
    (behind : ∀ span ∈ us.flatMap (·.spans), span.stop ≤ u.firstSpan.start) :
    SoundUnits source (accept us u) := by
  unfold accept
  split
  next => exact h
  next hclean =>
    split
    next => exact h.map_absorb hu behind
    next hnew =>
      refine h.append_singleton hu behind (Bool.eq_false_iff.mpr hclean) ?_
      intro hmem
      obtain ⟨v, hv, htext⟩ := List.mem_map.mp hmem
      exact hnew (List.any_eq_true.mpr ⟨v, hv, beq_iff_eq.mpr htext⟩)

theorem foldl_accept_sound {source : Text} {us : List CallUnit}
    (hus : ∀ u ∈ us, u.Proposed source)
    (order : us.Pairwise fun a b => a.firstSpan.stop ≤ b.firstSpan.start)
    {accepted : List CallUnit} (h : SoundUnits source accepted)
    (behind : ∀ span ∈ accepted.flatMap (·.spans), ∀ u ∈ us, span.stop ≤ u.firstSpan.start) :
    SoundUnits source (us.foldl accept accepted) := by
  induction us generalizing accepted with
  | nil => exact h
  | cons u us ih =>
    obtain ⟨hahead, horder⟩ := List.pairwise_cons.mp order
    have hu := hus u List.mem_cons_self
    refine ih (fun v hv => hus v (List.mem_cons_of_mem _ hv)) horder
      (accept_sound h hu fun span hspan => behind span hspan u List.mem_cons_self) ?_
    intro span hspan v hv
    rcases mem_accept_spans hspan with hspan | hspan
    · exact behind span hspan v (List.mem_cons_of_mem _ hv)
    · rw [hu.spans_eq] at hspan
      cases List.mem_singleton.mp hspan
      exact hahead v hv

/-- What is claimed, in the order of the call, stands one behind the other. -/
theorem mergeSort_claimed_pairwise (source : Text) :
    ((claimed source).mergeSort fun a b => a.firstSpan.start ≤ b.firstSpan.start).Pairwise
      fun a b => a.firstSpan.stop ≤ b.firstSpan.start := by
  obtain ⟨hproposed, hapart⟩ := claimed_sound source
  have perm : ((claimed source).mergeSort fun a b => a.firstSpan.start ≤ b.firstSpan.start).Perm
      (claimed source) := List.mergeSort_perm _ _
  have hsorted : ((claimed source).mergeSort fun a b =>
      a.firstSpan.start ≤ b.firstSpan.start).Pairwise
        fun a b => a.firstSpan.start ≤ b.firstSpan.start := by
    refine (List.pairwise_mergeSort ?_ ?_ (claimed source)).imp of_decide_eq_true
    · intro a b c hab hbc
      simp only [decide_eq_true_eq] at *
      omega
    · intro a b
      simp only [Bool.or_eq_true, decide_eq_true_eq]
      omega
  refine (hsorted.and ((perm.pairwise_iff Span.Apart.symm).mpr hapart)).imp_of_mem ?_
  intro a b ha hb ⟨hle, hap⟩
  have h1 := (hproposed a (perm.mem_iff.mp ha)).within.start_lt_stop
  have h2 := (hproposed b (perm.mem_iff.mp hb)).within.start_lt_stop
  simp only [Span.Apart] at hap
  omega

/-- **The values of a script call can be edited by their spans.** -/
theorem units_sound (source : Text) : SoundUnits source (units source) :=
  foldl_accept_sound (fun u hu => (claimed_sound source).1 u (List.mem_mergeSort.mp hu))
    (mergeSort_claimed_pairwise source)
    ⟨List.nodup_nil, nofun, List.Pairwise.nil, nofun, nofun, nofun, List.Pairwise.nil⟩ nofun

/-! ## Kinds -/

/-- Acceptance changes no kind. -/
theorem exists_kind_of_mem_foldl_accept {us accepted : List CallUnit} {u : CallUnit}
    (h : u ∈ us.foldl accept accepted) : ∃ v, (v ∈ accepted ∨ v ∈ us) ∧ u.kind = v.kind := by
  induction us generalizing accepted with
  | nil => exact ⟨u, Or.inl h, rfl⟩
  | cons w us ih =>
    obtain ⟨v, hv | hv, hkind⟩ := ih h
    · unfold accept at hv
      split at hv
      next => exact ⟨v, Or.inl hv, hkind⟩
      next =>
        split at hv
        next =>
          obtain ⟨first, hfirst, rfl⟩ := List.mem_map.mp hv
          exact ⟨first, Or.inl hfirst, hkind.trans (CallUnit.absorb_kind w first)⟩
        next =>
          rcases List.mem_append.mp hv with hv | hv
          · exact ⟨v, Or.inl hv, hkind⟩
          · obtain rfl := List.mem_singleton.mp hv
            exact ⟨v, Or.inr List.mem_cons_self, hkind⟩
    · exact ⟨v, Or.inr (List.mem_cons_of_mem w hv), hkind⟩

/-- The kind of a value of a script call is told by its name. -/
theorem named_of_mem_units {source : Text} {u : CallUnit} (h : u ∈ units source) :
    Kind.ofName u.kind.name = u.kind := by
  obtain ⟨v, hv, hkind⟩ := exists_kind_of_mem_foldl_accept h
  have hclaimed := List.mem_mergeSort.mp (hv.resolve_left List.not_mem_nil)
  rw [hkind]
  exact ((claimed_sound source).1 v hclaimed).named

end ScriptCall

end GameText
