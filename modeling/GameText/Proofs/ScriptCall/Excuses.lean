import GameText.Proofs.ScriptCall.Offers

/-!
# No literal is lost without a reason

A literal that no unit of a call holds in the end has an `Excuse`: nothing was offered for it, or
what was offered is garbage, or its value stands in the call before, written in another way
(`literal_recorded_or_excused`). Every offer is claimed, so what remains is acceptance: it goes
through the claims in the order of the call, loses no unit that is accepted, and settles each one at
its turn (`settled_accept`, then a fold).
-/

namespace GameText

namespace ScriptCall

variable {source : Text} {l : Literal} {u v : CallUnit}

/-- Why no unit holds a literal. -/
inductive Excuse (source : Text) (l : Literal) : Prop where
  | garbage {u : CallUnit} (offer : Offer source l u) (text : Classify.isGarbage u.text = true)
  | asset (alone : Alone source l) (file : isAssetFile l.inner.trim = true)
  | key (alone : Alone source l) (place : isObjectKey source l = true)
  | block {call : PluginCall} {members : List (Text × Json)}
      (object : ObjectCall source call members)
      (inside : call.span.start ≤ l.start ∧ l.stop ≤ call.span.stop)
      (other : ∀ value, ¬ ValueCopy source call members l value)
  | repeated {u v : CallUnit} (offer : Offer source l u) (mem : v ∈ units source)
      (text : v.text = u.text) (written : v.written ≠ u.written)
      (earlier : v.firstSpan.start < u.firstSpan.start)

/-- A unit of the call has a span in which the literal lies. -/
def Recorded (source : Text) (l : Literal) : Prop :=
  ∃ u ∈ units source, ∃ span ∈ u.spans, span.start ≤ l.start ∧ l.stop ≤ span.stop

/-! ## Acceptance -/

/-- What becomes of a unit: it keeps its text, its written form and its first span, and may get more
spans. -/
structure CallUnit.GrowsTo (u v : CallUnit) : Prop where
  text : v.text = u.text
  written : v.written = u.written
  firstSpan : v.firstSpan = u.firstSpan
  spans : u.spans ⊆ v.spans

namespace CallUnit

theorem GrowsTo.refl (u : CallUnit) : u.GrowsTo u := ⟨rfl, rfl, rfl, fun _ h => h⟩

theorem GrowsTo.trans {w : CallUnit} (h : u.GrowsTo v) (h' : v.GrowsTo w) : u.GrowsTo w :=
  ⟨h'.text.trans h.text, h'.written.trans h.written, h'.firstSpan.trans h.firstSpan,
    fun _ hspan => h'.spans (h.spans hspan)⟩

theorem growsTo_absorb (h : v.spans ≠ []) (u : CallUnit) : v.GrowsTo (u.absorb v) := by
  refine ⟨absorb_text u v, absorb_written u v, absorb_firstSpan h, ?_⟩
  unfold absorb
  split
  next => exact List.subset_append_left _ _
  next => exact fun _ hspan => hspan

end CallUnit

/-- The unit is accepted, or is not for a reason. -/
def Settled (us : List CallUnit) (u : CallUnit) : Prop :=
  Classify.isGarbage u.text = true ∨ (∃ v ∈ us, u.firstSpan ∈ v.spans) ∨
    ∃ v ∈ us, v.text = u.text ∧ v.written ≠ u.written ∧ v.firstSpan.start < u.firstSpan.start

section Acceptance

variable {accepted : List CallUnit} (spanned : ∀ v ∈ accepted, v.spans ≠ [])

include spanned

/-- Acceptance loses no unit that is accepted. -/
theorem exists_growsTo_accept (u : CallUnit) (hv : v ∈ accepted) :
    ∃ w ∈ accept accepted u, v.GrowsTo w := by
  rw [accept]
  split
  next => exact ⟨v, hv, .refl v⟩
  next =>
    split
    next =>
      exact ⟨u.absorb v, List.mem_map.mpr ⟨v, hv, rfl⟩, CallUnit.growsTo_absorb (spanned v hv) u⟩
    next => exact ⟨v, List.mem_append_left _ hv, .refl v⟩

/-- What is accepted comes from what was accepted before, or is the new unit. -/
theorem exists_of_mem_accept (u : CallUnit) (hv : v ∈ accept accepted u) :
    v = u ∨ ∃ w ∈ accepted, w.GrowsTo v := by
  rw [accept] at hv
  split at hv
  next => exact Or.inr ⟨v, hv, .refl v⟩
  next =>
    split at hv
    next =>
      obtain ⟨w, hw, rfl⟩ := List.mem_map.mp hv
      exact Or.inr ⟨w, hw, CallUnit.growsTo_absorb (spanned w hw) u⟩
    next =>
      rcases List.mem_append.mp hv with hv | hv
      · exact Or.inr ⟨v, hv, .refl v⟩
      · exact Or.inl (List.mem_singleton.mp hv)

/-- A unit behind those that are accepted is settled by its turn. -/
theorem settled_accept (hu : u.firstSpan ∈ u.spans)
    (behind : ∀ v ∈ accepted, v.firstSpan.start < u.firstSpan.start) :
    Settled (accept accepted u) u := by
  rw [accept]
  split
  next hgarbage => exact Or.inl hgarbage
  next =>
    split
    next hknown =>
      obtain ⟨v, hv, htext⟩ := List.any_eq_true.mp hknown
      have hgrows := CallUnit.growsTo_absorb (spanned v hv) u
      have hmem : u.absorb v ∈ accepted.map u.absorb := List.mem_map.mpr ⟨v, hv, rfl⟩
      rw [beq_iff_eq] at htext
      by_cases hwritten : v.written = u.written
      · refine Or.inr (Or.inl ⟨u.absorb v, hmem, ?_⟩)
        rw [CallUnit.absorb, htext, hwritten, beq_self_eq_true, beq_self_eq_true, Bool.and_self,
          if_pos rfl]
        exact List.mem_append_right _ hu
      · refine Or.inr (Or.inr ⟨u.absorb v, hmem, hgrows.text.trans htext, ?_, ?_⟩)
        · rwa [hgrows.written]
        · rw [hgrows.firstSpan]
          exact behind v hv
    next => exact Or.inr (Or.inl ⟨u, List.mem_append_right _ (List.mem_singleton_self u), hu⟩)

end Acceptance

/-- What is settled stays so when the units grow. -/
theorem Settled.grow {us us' : List CallUnit} (h : Settled us u)
    (hgrows : ∀ v ∈ us, ∃ w ∈ us', v.GrowsTo w) : Settled us' u := by
  rcases h with hgarbage | ⟨v, hv, hspan⟩ | ⟨v, hv, htext, hwritten, hstart⟩
  · exact Or.inl hgarbage
  · obtain ⟨w, hw, hvw⟩ := hgrows v hv
    exact Or.inr (Or.inl ⟨w, hw, hvw.spans hspan⟩)
  · obtain ⟨w, hw, hvw⟩ := hgrows v hv
    refine Or.inr (Or.inr ⟨w, hw, hvw.text.trans htext, ?_, ?_⟩)
    · rwa [hvw.written]
    · rwa [hvw.firstSpan]

/-- Units that are accepted in the order of the call are all settled. -/
theorem foldl_accept_settled {us accepted : List CallUnit}
    (spanned : ∀ v ∈ accepted, v.spans ≠ []) (hus : ∀ u ∈ us, u.firstSpan ∈ u.spans)
    (order : us.Pairwise fun a b => a.firstSpan.start < b.firstSpan.start)
    (behind : ∀ v ∈ accepted, ∀ u ∈ us, v.firstSpan.start < u.firstSpan.start) :
    (∀ v ∈ accepted, ∃ w ∈ us.foldl accept accepted, v.GrowsTo w) ∧
      ∀ u ∈ us, Settled (us.foldl accept accepted) u := by
  induction us generalizing accepted with
  | nil => exact ⟨fun v hv => ⟨v, hv, .refl v⟩, nofun⟩
  | cons u us ih =>
    obtain ⟨hahead, horder⟩ := List.pairwise_cons.mp order
    have hu := hus u List.mem_cons_self
    have hnext : ∀ v ∈ accept accepted u, v.spans ≠ [] ∧
        ∀ w ∈ us, v.firstSpan.start < w.firstSpan.start := by
      intro v hv
      rcases exists_of_mem_accept spanned u hv with rfl | ⟨w, hw, hgrows⟩
      · exact ⟨List.ne_nil_of_mem hu, hahead⟩
      · obtain ⟨span, hspan⟩ := List.exists_mem_of_ne_nil _ (spanned w hw)
        refine ⟨List.ne_nil_of_mem (hgrows.spans hspan), fun x hx => ?_⟩
        rw [hgrows.firstSpan]
        exact behind w hw x (List.mem_cons_of_mem _ hx)
    obtain ⟨hgrow, hsettled⟩ := ih (fun v hv => (hnext v hv).1)
      (fun w hw => hus w (List.mem_cons_of_mem _ hw)) horder fun v hv => (hnext v hv).2
    refine ⟨fun v hv => ?_, List.forall_mem_cons.mpr ⟨?_, hsettled⟩⟩
    · obtain ⟨w, hw, hvw⟩ := exists_growsTo_accept spanned u hv
      obtain ⟨x, hx, hwx⟩ := hgrow w hw
      exact ⟨x, hx, hvw.trans hwx⟩
    · refine (settled_accept spanned hu fun v hv => ?_).grow hgrow
      exact behind v hv u List.mem_cons_self

/-- What is claimed is accepted, or is not for a reason. -/
theorem settled_of_mem_claimed (h : u ∈ claimed source) : Settled (units source) u := by
  obtain ⟨hproposed, -⟩ := claimed_sound source
  have hown : ∀ v ∈ (claimed source).mergeSort fun a b => a.firstSpan.start ≤ b.firstSpan.start,
      v.Proposed source := fun v hv => hproposed v (List.mem_mergeSort.mp hv)
  have hnone : ∀ {p : CallUnit → Prop}, ∀ v ∈ ([] : List CallUnit), p v :=
    fun _ hv => absurd hv List.not_mem_nil
  refine (foldl_accept_settled hnone ?_ ?_ hnone).2 u (List.mem_mergeSort.mpr h)
  · intro v hv
    rw [(hown v hv).spans_eq]
    exact List.mem_singleton_self _
  · refine (mergeSort_claimed_pairwise source).imp_of_mem fun {a b} ha _ hle => ?_
    exact Nat.lt_of_lt_of_le (hown a ha).within.start_lt_stop hle

/-! ## The result -/

/-- Nothing is offered for a literal only for a reason. -/
theorem offered_or_excused (hl : l ∈ literals source) :
    (∃ u, Offer source l u) ∨ Excuse source l := by
  by_cases htemplate : l.quote = '`'
  · exact Or.inl ⟨_, .template htemplate⟩
  by_cases hcall : ∃ call members, ObjectCall source call members
  · obtain ⟨call, members, hcall⟩ := hcall
    by_cases hcopy : ∃ value, ValueCopy source call members l value
    · obtain ⟨value, hcopy⟩ := hcopy
      exact Or.inl ⟨_, .argument hcall hcopy⟩
    · exact Or.inr (.block hcall (PluginCall.literal_inside hcall.named hl)
        fun value h => hcopy ⟨value, h⟩)
  have no_call : ∀ call members, ¬ ObjectCall source call members :=
    fun call members h => hcall ⟨call, members, h⟩
  by_cases hchain : ∃ chain ∈ chains source (literals source), l ∈ chain
  · obtain ⟨chain, mem, part⟩ := hchain
    obtain ⟨c, cs, rfl⟩ := List.exists_cons_of_ne_nil (List.ne_nil_of_mem part)
    exact Or.inl ⟨_, .chain no_call mem part rfl⟩
  have alone : Alone source l := ⟨no_call, htemplate, fun chain mem part => hchain ⟨chain, mem, part⟩⟩
  cases hunit : plainUnit? source l with
  | some u => exact Or.inl ⟨u, .plain alone hunit⟩
  | none =>
    refine Or.inr ?_
    rw [plainUnit?, beq_eq_false_iff_ne.mpr htemplate, Bool.false_or] at hunit
    split at hunit
    next hfile => exact .asset alone hfile
    next =>
      split at hunit
      next => cases hunit
      next =>
        split at hunit
        next hkey => exact .key alone hkey
        next => cases hunit

/-- **No literal of a script call is lost without a reason**: it lies in a span of a unit, or one of
the reasons holds. -/
theorem literal_recorded_or_excused (hl : l ∈ literals source) :
    Recorded source l ∨ Excuse source l := by
  rcases offered_or_excused hl with ⟨u, hoffer⟩ | hexcuse
  · rcases settled_of_mem_claimed (hoffer.claimed hl) with
      hgarbage | ⟨v, hv, hspan⟩ | ⟨v, hv, htext, hwritten, hstart⟩
    · exact Or.inr (.garbage hoffer hgarbage)
    · exact Or.inl ⟨v, hv, u.firstSpan, hspan, hoffer.covers hl⟩
    · exact Or.inr (.repeated hoffer hv htext hwritten hstart)
  · exact Or.inr hexcuse

/-- A name that comes again in other quotes is left out for that reason. -/
theorem name_in_other_quotes_excused :
    let source := "add('Bob',\"Bob\")".toList
    let l : Literal := ⟨10, '"', "Bob".toList⟩
    l ∈ literals source ∧ ¬ Recorded source l ∧ Excuse source l := by
  intro source l
  have hl : l ∈ literals source := by decide +kernel
  let single : CallUnit := ⟨"Bob".toList, "'Bob'".toList, .quoted, '\'', [⟨4, 9⟩]⟩
  let double : CallUnit := ⟨"Bob".toList, "\"Bob\"".toList, .quoted, '"', [⟨10, 15⟩]⟩
  have hclaimed : claimed source = [single, double] := by decide +kernel
  have hclean : ¬ Classify.isGarbage "Bob".toList = true := by decide +kernel
  have hfirst : accept [] single = [single] := if_neg hclean
  have hsecond : accept [single] double = [single] := (if_neg hclean).trans (by decide)
  have hunits : units source = [single] := by
    rw [units, hclaimed, List.mergeSort_of_pairwise (by decide), List.foldl_cons, hfirst,
      List.foldl_cons, hsecond, List.foldl_nil]
  have hlost : ¬ Recorded source l := by
    rw [Recorded, hunits]
    decide
  exact ⟨hl, hlost, (literal_recorded_or_excused hl).resolve_left hlost⟩

end ScriptCall

end GameText
