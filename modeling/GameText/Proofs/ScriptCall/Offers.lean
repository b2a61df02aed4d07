import GameText.Proofs.ScriptCall.PluginCalls
import Mathlib.Data.List.Pairwise

/-!
# What is offered for the literals of a call

Each literal of a script call is offered for translation once at most: as a template, as an argument
of a plugin call, as a part of a chain, or by itself, with its key (`Offer`, `Offer.unique`). The
detectors leave alone what is taken already, so it has to be shown that nothing which is taken is in
the way of an offer. What is taken begins and ends with literals, except for keys, and no literal
ends in a key (`CallUnit.Reaches`); so two offers have a character in common only if they are offered
for one literal (`Offer.eq_or_apart`), and every offer is claimed (`Offer.claimed`).
-/

namespace GameText

namespace ScriptCall

variable {source : Text} {l first last first' last' : Literal} {u v : CallUnit}

/-! ## What is offered for a literal -/

/-- The call is a plugin call whose block is an object with these members. -/
structure ObjectCall (source : Text) (call : PluginCall) (members : List (Text × Json)) : Prop where
  named : PluginCall.ofText? source = some call
  object : Json.read? call.block = some (.obj members)

/-- The literal is a copy of a string among the direct values of the object, in the place of a
value. -/
structure ValueCopy (source : Text) (call : PluginCall) (members : List (Text × Json)) (l : Literal)
    (value : Text) : Prop where
  quote : l.quote = '"'
  decoded : decoded? l = some value
  direct : value ∈ directStrings members
  place : (Text.trimStart ((source.take call.span.stop).drop l.stop)).head? ≠ some ':'

/-- The literal stands by itself: it is no template, and in no block and no chain. -/
structure Alone (source : Text) (l : Literal) : Prop where
  no_call : ∀ call members, ¬ ObjectCall source call members
  no_template : l.quote ≠ '`'
  no_chain : ∀ chain ∈ chains source (literals source), l ∉ chain

/-- The unit that is offered for a literal. -/
inductive Offer (source : Text) (l : Literal) : CallUnit → Prop where
  | template (quote : l.quote = '`') :
      Offer source l (.single source l.inner .template '`' ⟨l.start, l.stop⟩)
  | argument {call : PluginCall} {members : List (Text × Json)} {value : Text}
      (object : ObjectCall source call members) (copy : ValueCopy source call members l value) :
      Offer source l (.single source value .pluginArgument '"' ⟨l.start, l.stop⟩)
  | chain {chain : List Literal} {u : CallUnit}
      (no_call : ∀ call members, ¬ ObjectCall source call members)
      (mem : chain ∈ chains source (literals source)) (part : l ∈ chain)
      (unit : chainUnit? source chain = some u) : Offer source l u
  | plain {u : CallUnit} (alone : Alone source l) (unit : plainUnit? source l = some u) :
      Offer source l u

/-! ## Chains -/

/-- The runs of joined literals, one after another, are some of the literals in their order. -/
theorem flatten_chainsFrom_sublist (source : Text) (run ls : List Literal) :
    (chainsFrom source run ls).flatten.Sublist (run.reverse ++ ls) := by
  fun_induction chainsFrom source run ls with
  | case1 run =>
    rw [List.flatten_cons, List.flatten_nil]
  | case2 run l ls _ ih =>
    rw [List.flatten_cons]
    exact List.Sublist.append_left (ih.trans (List.sublist_cons_self _ _)) _
  | case3 l ls _ last before _ ih =>
    rwa [List.reverse_cons, List.append_assoc] at ih
  | case4 l ls _ last before _ ih =>
    rw [List.flatten_cons]
    exact List.Sublist.append_left ih _
  | case5 l ls _ ih => exact ih

/-- A run of joined literals stands together among the literals. -/
theorem infix_of_mem_chainsFrom {source : Text} {run ls chain : List Literal}
    (h : chain ∈ chainsFrom source run ls) : chain <:+: run.reverse ++ ls := by
  fun_induction chainsFrom source run ls with
  | case1 run =>
    have hrun := List.mem_singleton.mp h
    exact ⟨[], [], by rw [hrun, List.nil_append]⟩
  | case2 run l ls _ ih =>
    rcases List.mem_cons.mp h with rfl | h
    · exact (List.prefix_append _ _).isInfix
    · refine (ih h).trans ⟨run.reverse ++ [l], [], ?_⟩
      simp only [List.append_assoc, List.reverse_nil, List.nil_append, List.append_nil,
        List.singleton_append]
  | case3 l ls _ last before _ ih =>
    have hjoined := ih h
    rwa [List.reverse_cons, List.append_assoc] at hjoined
  | case4 l ls _ last before _ ih =>
    rcases List.mem_cons.mp h with rfl | h
    · exact (List.prefix_append _ _).isInfix
    · exact (ih h).trans (List.suffix_append _ _).isInfix
  | case5 l ls _ ih => exact ih h

/-- Templates join nothing: what comes to a run is none. -/
theorem mem_run_or_of_mem_chainsFrom {source : Text} {run ls chain : List Literal} {m : Literal}
    (h : chain ∈ chainsFrom source run ls) (hm : m ∈ chain) : m ∈ run ∨ m.quote ≠ '`' := by
  fun_induction chainsFrom source run ls with
  | case1 run =>
    rw [List.mem_singleton.mp h] at hm
    exact Or.inl (List.mem_reverse.mp hm)
  | case2 run l ls _ ih =>
    rcases List.mem_cons.mp h with rfl | h
    · exact Or.inl (List.mem_reverse.mp hm)
    · exact Or.inr ((ih h).resolve_left List.not_mem_nil)
  | case3 l ls hquote last before _ ih =>
    rcases ih h with hrun | hquote
    · rcases List.mem_cons.mp hrun with rfl | hrun
      · exact Or.inr fun heq => hquote (beq_iff_eq.mpr heq)
      · exact Or.inl hrun
    · exact Or.inr hquote
  | case4 l ls hquote last before _ ih =>
    rcases List.mem_cons.mp h with rfl | h
    · exact Or.inl (List.mem_reverse.mp hm)
    · rcases ih h with hrun | hquote
      · rw [List.mem_singleton.mp hrun]
        exact Or.inr fun heq => hquote (beq_iff_eq.mpr heq)
      · exact Or.inr hquote
  | case5 l ls hquote ih =>
    rcases ih h with hrun | hquote
    · rw [List.mem_singleton.mp hrun]
      exact Or.inr fun heq => hquote (beq_iff_eq.mpr heq)
    · exact Or.inr hquote

section Chains

variable {chain chain' : List Literal} (hchain : chain ∈ chains source (literals source))

include hchain

theorem no_template_of_mem_chain (hl : l ∈ chain) : l.quote ≠ '`' :=
  (mem_run_or_of_mem_chainsFrom (List.mem_filter.mp hchain).1 hl).resolve_left List.not_mem_nil

/-- No literal belongs to two chains. -/
theorem chain_unique (hchain' : chain' ∈ chains source (literals source)) (hl : l ∈ chain)
    (hl' : l ∈ chain') : chain = chain' := by
  have hruns : (chainsFrom source [] (literals source)).flatten.Pairwise
      fun a b => a.stop ≤ b.start :=
    (literals_pairwise source).sublist (flatten_chainsFrom_sublist source [] (literals source))
  have hpair : (chains source (literals source)).Pairwise fun c d => ¬ (l ∈ c ∧ l ∈ d) := by
    refine ((List.pairwise_flatten.mp hruns).2.sublist List.filter_sublist).imp ?_
    rintro c d hle ⟨hc, hd⟩
    exact absurd (hle l hc l hd) (Nat.not_le.mpr l.start_lt_stop)
  have hsymm : Std.Symm fun c d : List Literal => ¬ (l ∈ c ∧ l ∈ d) :=
    ⟨fun _ _ h hboth => h hboth.symm⟩
  by_contra hne
  exact hpair.forall hchain hchain' hne ⟨hl, hl'⟩

end Chains

/-- A literal beside a run that stands together lies before the run or behind it. -/
theorem outside_of_infix {ls chain : List Literal} (htogether : chain <:+: ls)
    (order : ls.Pairwise fun a b => a.stop ≤ b.start) (hfirst : chain.head? = some first)
    (hlast : chain.getLast? = some last) (hl : l ∈ ls) (hout : l ∉ chain) :
    l.stop ≤ first.start ∨ last.stop ≤ l.start := by
  obtain ⟨before, behind, rfl⟩ := htogether
  obtain ⟨hfront, -, hcross⟩ := List.pairwise_append.mp order
  rcases List.mem_append.mp hl with hl | hl
  · rcases List.mem_append.mp hl with hl | hl
    · have hcut := (List.pairwise_append.mp hfront).2.2
      exact Or.inl (hcut l hl first (List.mem_of_head? hfirst))
    · exact absurd hl hout
  · exact Or.inr (hcross last (List.mem_append_right _ (List.mem_of_getLast? hlast)) l hl)

/-- A literal of a run lies between its ends. -/
theorem between_of_mem {chain : List Literal} (order : chain.Pairwise fun a b => a.stop ≤ b.start)
    (hfirst : chain.head? = some first) (hlast : chain.getLast? = some last) (hl : l ∈ chain) :
    first.start ≤ l.start ∧ l.stop ≤ last.stop := by
  have hstart : first.start ≤ l.start := by
    cases chain with
    | nil => cases hl
    | cons c cs =>
      obtain rfl : c = first := Option.some.inj hfirst
      rcases List.mem_cons.mp hl with rfl | hl
      · exact Nat.le_refl _
      · have hle := (List.pairwise_cons.mp order).1 l hl
        have hlt := c.start_lt_stop
        omega
  have hstop : l.stop ≤ last.stop := by
    obtain ⟨before, rfl⟩ := List.getLast?_eq_some_iff.mp hlast
    rcases List.mem_append.mp hl with hl | hl
    · have hle := (List.pairwise_append.mp order).2.2 l hl last (List.mem_singleton_self _)
      have hlt := last.start_lt_stop
      omega
    · rw [List.mem_singleton.mp hl]
  exact ⟨hstart, hstop⟩

/-! ## Offers are not in each other's way -/

/-- The span of the unit reaches from one literal up to another, or begins before the first one,
where no literal ends. -/
structure CallUnit.Reaches (source : Text) (u : CallUnit) (first last : Literal) : Prop where
  last_mem : last ∈ literals source
  stop : u.firstSpan.stop = last.stop
  start : u.firstSpan.start ≤ first.start
  clear : ∀ m ∈ literals source, m.stop ≤ first.start → m.stop ≤ u.firstSpan.start

namespace CallUnit.Reaches

/-- Units whose literals stand one behind the other have no character in common. -/
theorem apart (hu : u.Reaches source first last) (hv : v.Reaches source first' last')
    (h : last.stop ≤ first'.start ∨ last'.stop ≤ first.start) :
    u.firstSpan.Apart v.firstSpan := by
  rcases h with h | h
  · have hle := hv.clear last hu.last_mem h
    rw [← hu.stop] at hle
    exact Or.inl hle
  · have hle := hu.clear last' hv.last_mem h
    rw [← hv.stop] at hle
    exact Or.inr hle

end CallUnit.Reaches

theorem CallUnit.reaches_single (hlast : last ∈ literals source) (first : Literal) (text : Text)
    (kind : Kind) (quote : Char) :
    (CallUnit.single source text kind quote ⟨first.start, last.stop⟩).Reaches source first last :=
  ⟨hlast, rfl, Nat.le_refl _, fun _ _ h => h⟩

/-- Different literals of a call stand one behind the other. -/
theorem stop_le_start_or (hl : l ∈ literals source) (hfirst : first ∈ literals source)
    (hne : l ≠ first) : l.stop ≤ first.start ∨ first.stop ≤ l.start := by
  have hsymm : Std.Symm fun a b : Literal => a.stop ≤ b.start ∨ b.stop ≤ a.start :=
    ⟨fun _ _ => Or.symm⟩
  have hpair : (literals source).Pairwise fun a b => a.stop ≤ b.start ∨ b.stop ≤ a.start :=
    (literals_pairwise source).imp Or.inl
  exact hpair.forall hl hfirst hne

/-- A literal by itself reaches over its key, in which no literal ends. -/
theorem reaches_of_plainUnit? (hl : l ∈ literals source) (h : plainUnit? source l = some u) :
    u.Reaches source l l := by
  unfold plainUnit? at h
  split at h
  next => cases h
  next =>
    split at h
    next n hkey =>
      cases h
      obtain ⟨front, head, hsplit, hlength, hhead⟩ := exists_keyHead_of_keyLength? hkey
      have hle := stop_le_of_mem_literals hl
      have hlt := l.start_lt_stop
      have hstart := congrArg List.length hsplit
      rw [List.length_take, List.length_append] at hstart
      have hsource : source = front ++ (head ++ source.drop l.start) := by
        rw [← List.append_assoc, ← hsplit, List.take_append_drop]
      refine ⟨hl, rfl, Nat.sub_le _ _, ?_⟩
      intro m hm hbefore
      rw [hsource] at hm
      have hout := stop_outside hhead.no_quote hm
      change m.stop ≤ l.start - n
      omega
    next =>
      split at h
      next => cases h
      next =>
        cases h
        exact CallUnit.reaches_single hl l _ _ _

theorem reaches_of_chainUnit? {chain : List Literal}
    (hchain : chain ∈ chains source (literals source)) (h : chainUnit? source chain = some u) :
    ∃ first last, chain.head? = some first ∧ chain.getLast? = some last ∧
      u.Reaches source first last := by
  have hsub : chain.Sublist (literals source) :=
    sublist_of_mem_chainsFrom (List.mem_filter.mp hchain).1
  unfold chainUnit? at h
  split at h
  next first last hfirst hlast =>
    cases h
    exact ⟨first, last, hfirst, hlast, CallUnit.reaches_single
      (hsub.subset (List.mem_of_getLast? hlast)) first _ _ _⟩
  next => cases h

namespace Offer

/-- **A literal is offered once at most.** -/
theorem unique (hu : Offer source l u) (hv : Offer source l v) : u = v := by
  cases hu with
  | template hquote =>
    cases hv with
    | template => rfl
    | argument _ copy => exact absurd (hquote.symm.trans copy.quote) (by decide)
    | chain _ mem part => exact absurd hquote (no_template_of_mem_chain mem part)
    | plain alone => exact absurd hquote alone.no_template
  | argument object copy =>
    cases hv with
    | template hquote => exact absurd (hquote.symm.trans copy.quote) (by decide)
    | argument object' copy' =>
      obtain rfl := Option.some.inj (object.named.symm.trans object'.named)
      cases object.object.symm.trans object'.object
      rw [Option.some.inj (copy.decoded.symm.trans copy'.decoded)]
    | chain no_call => exact absurd object (no_call _ _)
    | plain alone => exact absurd object (alone.no_call _ _)
  | chain no_call mem part unit =>
    cases hv with
    | template hquote => exact absurd hquote (no_template_of_mem_chain mem part)
    | argument object => exact absurd object (no_call _ _)
    | chain _ mem' part' unit' =>
      obtain rfl := chain_unique mem mem' part part'
      exact Option.some.inj (unit.symm.trans unit')
    | plain alone => exact absurd part (alone.no_chain _ mem)
  | plain alone unit =>
    cases hv with
    | template hquote => exact absurd hquote alone.no_template
    | argument object => exact absurd object (alone.no_call _ _)
    | chain _ mem part => exact absurd part (alone.no_chain _ mem)
    | plain _ unit' => exact Option.some.inj (unit.symm.trans unit')

end Offer

/-- The literals that a unit is offered for reach from one to another, and all others lie
outside. -/
structure CallUnit.OfferedFrom (source : Text) (u : CallUnit) (first last : Literal) : Prop where
  reaches : u.Reaches source first last
  first_mem : first ∈ literals source
  first_offer : Offer source first u
  last_offer : Offer source last u
  forward : first.start < last.stop
  outside : ∀ m ∈ literals source, ¬ Offer source m u → m.stop ≤ first.start ∨ last.stop ≤ m.start

namespace Offer

/-- A unit that is offered for one literal only. -/
theorem offeredFrom_self (h : Offer source l u) (hl : l ∈ literals source)
    (hreaches : u.Reaches source l l) : u.OfferedFrom source l l := by
  refine ⟨hreaches, hl, h, h, l.start_lt_stop, ?_⟩
  intro m hm hother
  apply stop_le_start_or hm hl
  rintro rfl
  exact hother h

theorem exists_offeredFrom (h : Offer source l u) (hl : l ∈ literals source) :
    ∃ first last, u.OfferedFrom source first last ∧ first.start ≤ l.start ∧ l.stop ≤ last.stop := by
  have hoffer := h
  cases h with
  | template =>
    exact ⟨l, l, hoffer.offeredFrom_self hl (CallUnit.reaches_single hl l _ _ _), Nat.le_refl _,
      Nat.le_refl _⟩
  | argument =>
    exact ⟨l, l, hoffer.offeredFrom_self hl (CallUnit.reaches_single hl l _ _ _), Nat.le_refl _,
      Nat.le_refl _⟩
  | plain alone unit =>
    exact ⟨l, l, hoffer.offeredFrom_self hl (reaches_of_plainUnit? hl unit), Nat.le_refl _,
      Nat.le_refl _⟩
  | @chain chain _ no_call mem part unit =>
    obtain ⟨first, last, hfirst, hlast, hreaches⟩ := reaches_of_chainUnit? mem unit
    have htogether : chain <:+: literals source :=
      infix_of_mem_chainsFrom (List.mem_filter.mp mem).1
    have order := (literals_pairwise source).sublist htogether.sublist
    have hmem := List.mem_of_head? hfirst
    have hbetween := between_of_mem order hfirst hlast part
    refine ⟨first, last, ⟨hreaches, htogether.subset hmem, .chain no_call mem hmem unit,
      .chain no_call mem (List.mem_of_getLast? hlast) unit, ?_, ?_⟩, hbetween⟩
    · exact start_lt_stop_of_ends order hfirst hlast
    · intro m hm hother
      exact outside_of_infix htogether (literals_pairwise source) hfirst hlast hm
        fun hpart => hother (.chain no_call mem hpart unit)

/-- The span of an offered unit holds the literal. -/
theorem covers (h : Offer source l u) (hl : l ∈ literals source) :
    u.firstSpan.start ≤ l.start ∧ l.stop ≤ u.firstSpan.stop := by
  obtain ⟨first, last, hfrom, hstart, hstop⟩ := h.exists_offeredFrom hl
  have hle := hfrom.reaches.start
  rw [hfrom.reaches.stop]
  exact ⟨Nat.le_trans hle hstart, hstop⟩

/-- **Offers are not in each other's way.** -/
theorem eq_or_apart (hu : Offer source l u) (hl : l ∈ literals source) {l' : Literal}
    (hv : Offer source l' v) (hl' : l' ∈ literals source) :
    v = u ∨ u.firstSpan.Apart v.firstSpan := by
  by_cases heq : v = u
  · exact Or.inl heq
  obtain ⟨first, last, hfrom, -⟩ := hu.exists_offeredFrom hl
  obtain ⟨first', last', hfrom', -⟩ := hv.exists_offeredFrom hl'
  -- The ends of each stand outside the other.
  have h1 := hfrom.outside first' hfrom'.first_mem fun h => heq (hfrom'.first_offer.unique h)
  have h2 := hfrom.outside last' hfrom'.reaches.last_mem fun h => heq (hfrom'.last_offer.unique h)
  have h3 := hfrom'.outside first hfrom.first_mem fun h => heq (h.unique hfrom.first_offer)
  have hforward := hfrom.forward
  have hforward' := hfrom'.forward
  have hfirst := first.start_lt_stop
  have hfirst' := first'.start_lt_stop
  have hlast' := last'.start_lt_stop
  exact Or.inr (hfrom.reaches.apart hfrom'.reaches (by omega))

end Offer

/-! ## Claims -/

theorem Span.overlaps_of_apart {a b : Span} (h : a.Apart b) : a.overlaps b = false := by
  simp only [Span.Apart] at h
  simp only [Span.overlaps, Bool.and_eq_false_iff, decide_eq_false_iff_not]
  omega

namespace Claims

variable {claims : Claims} {us : List CallUnit}

theorem mem_claim_of_mem (h : u ∈ claims.units) (v : CallUnit) : u ∈ (claims.claim v).units := by
  rw [claim]
  split
  next => exact h
  next => exact List.mem_append_left _ h

/-- What is claimed stays claimed. -/
theorem mem_foldl_of_mem (us : List CallUnit) (h : u ∈ claims.units) :
    u ∈ (us.foldl claim claims).units := by
  induction us generalizing claims with
  | nil => exact h
  | cons v us ih => exact ih (mem_claim_of_mem h v)

theorem mem_taken_claim {span : Span} (h : span ∈ (claims.claim v).taken) :
    span ∈ claims.taken ∨ span = v.firstSpan := by
  rw [claim] at h
  split at h
  next => exact Or.inl h
  next => exact (List.mem_append.mp h).imp_right List.mem_singleton.mp

/-- What is taken in the end was taken before or is the span of an offer. -/
theorem mem_taken_foldl {span : Span} (h : span ∈ (us.foldl claim claims).taken) :
    span ∈ claims.taken ∨ ∃ v ∈ us, span = v.firstSpan := by
  induction us generalizing claims with
  | nil => exact Or.inl h
  | cons v us ih =>
    rcases ih h with hspan | ⟨w, hw, rfl⟩
    · exact (mem_taken_claim hspan).imp_right fun heq => ⟨v, List.mem_cons_self, heq⟩
    · exact Or.inr ⟨w, List.mem_cons_of_mem _ hw, rfl⟩

/-- **An offer that nothing is in the way of is claimed**: neither what is taken already nor another
offer. -/
theorem mem_foldl_of_apart (hu : u ∈ us)
    (free : ∀ span ∈ claims.taken, u.firstSpan.Apart span)
    (others : ∀ v ∈ us, v = u ∨ u.firstSpan.Apart v.firstSpan) :
    u ∈ (us.foldl claim claims).units := by
  have hown : ∀ {claims : Claims}, (∀ span ∈ claims.taken, u.firstSpan.Apart span) →
      u ∈ (claims.claim u).units := by
    intro claims free
    have hnone : claims.taken.any u.firstSpan.overlaps = false := by
      rw [List.any_eq_false]
      intro span hspan
      rw [Span.overlaps_of_apart (free span hspan)]
      exact Bool.false_ne_true
    rw [claim, hnone, if_neg Bool.false_ne_true]
    exact List.mem_append_right _ (List.mem_singleton_self u)
  induction us generalizing claims with
  | nil => cases hu
  | cons v us ih =>
    rw [List.foldl_cons]
    rcases others v List.mem_cons_self with rfl | hv
    · exact mem_foldl_of_mem us (hown free)
    · rcases List.mem_cons.mp hu with rfl | hu
      · exact mem_foldl_of_mem us (hown free)
      · refine ih hu ?_ fun w hw => others w (List.mem_cons_of_mem _ hw)
        intro span hspan
        rcases mem_taken_claim hspan with hspan | rfl
        · exact free span hspan
        · exact hv

end Claims

/-! ## What is offered is claimed -/

/-- What the detectors of templates and of arguments offer. -/
def firstOffers (source : Text) : List CallUnit :=
  (((literals source).filter (·.quote == '`')).map fun l =>
    CallUnit.single source l.inner .template '`' ⟨l.start, l.stop⟩) ++
      (pluginArguments source (literals source)).1

/-- What the detector of chains offers. -/
def chainOffers (source : Text) : List CallUnit :=
  (chains source (literals source)).filterMap (chainUnit? source)

/-- What the detectors of keys and of plain literals offer. -/
def plainOffers (source : Text) : List CallUnit := (literals source).filterMap (plainUnit? source)

theorem pluginArguments_of_no_call (h : ∀ call members, ¬ ObjectCall source call members)
    (ls : List Literal) : pluginArguments source ls = ([], none) := by
  rw [pluginArguments]
  split
  next => rfl
  next call hcall =>
    split
    next members hobject => exact absurd ⟨hcall, hobject⟩ (h call members)
    next => rfl

section Object

variable {call : PluginCall} {members : List (Text × Json)}

theorem mem_pluginArguments_iff (h : ObjectCall source call members) :
    u ∈ (pluginArguments source (literals source)).1 ↔ ∃ l ∈ literals source, ∃ value,
      ValueCopy source call members l value ∧
        u = .single source value .pluginArgument '"' ⟨l.start, l.stop⟩ := by
  rw [pluginArguments, h.named]
  dsimp only
  rw [h.object]
  dsimp only
  rw [List.mem_filterMap]
  refine exists_congr fun l => and_congr_right fun hl => ?_
  obtain ⟨hstart, hstop⟩ := PluginCall.literal_inside h.named hl
  by_cases hquote : l.quote = '"'
  · have hinside : (l.quote != '"' || decide (l.start < call.span.start) ||
        decide (call.span.stop < l.stop)) = false := by
      rw [hquote, decide_eq_false (Nat.not_lt.mpr hstart), decide_eq_false (Nat.not_lt.mpr hstop)]
      rfl
    rw [hinside, if_neg Bool.false_ne_true]
    cases hdecoded : decoded? l with
    | none =>
      refine ⟨fun hu => (nomatch hu), ?_⟩
      rintro ⟨value, hcopy, -⟩
      rw [hcopy.decoded] at hdecoded
      cases hdecoded
    | some value =>
      dsimp only
      constructor
      · intro hu
        split at hu
        next hplace =>
          cases hu
          rw [Bool.and_eq_true, List.contains_iff_mem, bne_iff_ne] at hplace
          exact ⟨value, ⟨hquote, hdecoded, hplace.1, hplace.2⟩, rfl⟩
        next => cases hu
      · rintro ⟨value', hcopy, rfl⟩
        obtain rfl : value = value' := Option.some.inj (hdecoded.symm.trans hcopy.decoded)
        rw [if_pos]
        rw [Bool.and_eq_true, List.contains_iff_mem, bne_iff_ne]
        exact ⟨hcopy.direct, hcopy.place⟩
  · have houtside : (l.quote != '"' || decide (l.start < call.span.start) ||
        decide (call.span.stop < l.stop)) = true := by
      rw [bne_iff_ne.mpr hquote, Bool.true_or, Bool.true_or]
    rw [houtside, if_pos rfl]
    refine ⟨fun hu => (nomatch hu), ?_⟩
    rintro ⟨value, hcopy, -⟩
    exact absurd hcopy.quote hquote

end Object

theorem offer_of_mem_firstOffers (h : u ∈ firstOffers source) :
    ∃ l ∈ literals source, Offer source l u := by
  rcases List.mem_append.mp h with h | h
  · obtain ⟨l, hl, rfl⟩ := List.mem_map.mp h
    obtain ⟨hl, hquote⟩ := List.mem_filter.mp hl
    exact ⟨l, hl, .template (beq_iff_eq.mp hquote)⟩
  · by_cases hcall : ∃ call members, ObjectCall source call members
    · obtain ⟨call, members, hcall⟩ := hcall
      obtain ⟨l, hl, value, hcopy, rfl⟩ := (mem_pluginArguments_iff hcall).mp h
      exact ⟨l, hl, .argument hcall hcopy⟩
    · rw [pluginArguments_of_no_call fun call members h => hcall ⟨call, members, h⟩] at h
      cases h

theorem offer_of_mem_chainOffers (no_call : ∀ call members, ¬ ObjectCall source call members)
    (h : u ∈ chainOffers source) : ∃ l ∈ literals source, Offer source l u := by
  obtain ⟨chain, hchain, hunit⟩ := List.mem_filterMap.mp h
  obtain ⟨first, last, hfirst, -⟩ := reaches_of_chainUnit? hchain hunit
  have htogether := infix_of_mem_chainsFrom (List.mem_filter.mp hchain).1
  have hmem := List.mem_of_head? hfirst
  exact ⟨first, htogether.subset hmem, .chain no_call hchain hmem hunit⟩

/-- Offers that are made one after another are all claimed. -/
theorem claimed_of_offers {us : List CallUnit}
    (hus : ∀ u ∈ us, ∃ l ∈ literals source, Offer source l u) (hu : u ∈ us) :
    u ∈ (us.foldl Claims.claim ⟨[], []⟩).units := by
  apply Claims.mem_foldl_of_apart hu (fun _ hspan => absurd hspan List.not_mem_nil)
  intro v hv
  obtain ⟨l, hl, hoffer⟩ := hus u hu
  obtain ⟨l', hl', hoffer'⟩ := hus v hv
  exact hoffer.eq_or_apart hl hoffer' hl'

/-- What is claimed, offer by offer: the block is taken behind the first offers. -/
theorem claimed_eq_foldl (source : Text) : claimed source =
    ((chainOffers source ++ plainOffers source).foldl Claims.claim
      { (firstOffers source).foldl Claims.claim ⟨[], []⟩ with
        taken := ((firstOffers source).foldl Claims.claim ⟨[], []⟩).taken ++
          (pluginArguments source (literals source)).2.toList }).units := rfl

/-- Where no block is taken, all offers are made in one row. -/
theorem claimed_of_no_call (no_call : ∀ call members, ¬ ObjectCall source call members) :
    claimed source = ((plainOffers source).foldl Claims.claim
      ((firstOffers source ++ chainOffers source).foldl Claims.claim ⟨[], []⟩)).units := by
  rw [claimed_eq_foldl, pluginArguments_of_no_call no_call, Option.toList_none, List.append_nil,
    List.foldl_append, List.foldl_append]

/-- **What is offered for a literal is claimed.** -/
theorem Offer.claimed (h : Offer source l u) (hl : l ∈ literals source) :
    u ∈ ScriptCall.claimed source := by
  have hfirst : u ∈ firstOffers source → u ∈ ScriptCall.claimed source := fun hu =>
    Claims.mem_foldl_of_mem _ (claimed_of_offers (fun v hv => offer_of_mem_firstOffers hv) hu)
  have hearly : (∀ call members, ¬ ObjectCall source call members) →
      ∀ v ∈ firstOffers source ++ chainOffers source, ∃ l ∈ literals source, Offer source l v := by
    intro no_call v hv
    rcases List.mem_append.mp hv with hv | hv
    · exact offer_of_mem_firstOffers hv
    · exact offer_of_mem_chainOffers no_call hv
  have hoffer := h
  cases h with
  | template hquote =>
    have hl : l ∈ (literals source).filter (·.quote == '`') :=
      List.mem_filter.mpr ⟨hl, beq_iff_eq.mpr hquote⟩
    exact hfirst (List.mem_append_left _ (List.mem_map.mpr ⟨l, hl, rfl⟩))
  | argument object copy =>
    exact hfirst (List.mem_append_right _ <|
      (mem_pluginArguments_iff object).mpr ⟨l, hl, _, copy, rfl⟩)
  | chain no_call mem part unit =>
    rw [claimed_of_no_call no_call]
    have hu := List.mem_append_right (firstOffers source)
      (List.mem_filterMap.mpr ⟨_, mem, unit⟩)
    exact Claims.mem_foldl_of_mem _ (claimed_of_offers (hearly no_call) hu)
  | plain alone unit =>
    rw [claimed_of_no_call alone.no_call]
    by_cases hu : u ∈ firstOffers source ++ chainOffers source
    · exact Claims.mem_foldl_of_mem _ (claimed_of_offers (hearly alone.no_call) hu)
    apply Claims.mem_foldl_of_apart (List.mem_filterMap.mpr ⟨l, hl, unit⟩)
    · intro span hspan
      obtain ⟨v, hv, rfl⟩ := (Claims.mem_taken_foldl hspan).resolve_left List.not_mem_nil
      obtain ⟨l', hl', hoffer'⟩ := hearly alone.no_call v hv
      refine (hoffer.eq_or_apart hl hoffer' hl').resolve_left ?_
      rintro rfl
      exact hu hv
    · intro v hv
      obtain ⟨l', hl', hunit⟩ := List.mem_filterMap.mp hv
      by_cases heq : l' = l
      · subst heq
        exact Or.inl (Option.some.inj (hunit.symm.trans unit))
      · exact Or.inr ((reaches_of_plainUnit? hl unit).apart (reaches_of_plainUnit? hl' hunit)
          (stop_le_start_or hl hl' (Ne.symm heq)))

end ScriptCall

end GameText
