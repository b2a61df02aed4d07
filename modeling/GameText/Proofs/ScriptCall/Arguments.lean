import GameText.Proofs.Json.Retext
import GameText.Proofs.ScriptCall.BlockLiterals
import GameText.Proofs.ScriptCall.Offers

/-!
# Editing the arguments of a plugin call

A plugin call whose block is an object has no values but its arguments: the block is taken before
the detectors of chains, keys and plain literals are asked (`Claims.foldl_blocked`). Each argument
stands on a string token of the block (`ObjectCall.exists_token`), whose text is the text of its
unit (`ArgumentUnits`). So new texts for the units are new texts for string tokens, and what is
written is again a plugin call, in whose block the object has the new texts at the paths to these
tokens and is as it was everywhere else (`edited_arguments_update_object`).
-/

namespace GameText

namespace ScriptCall

variable {source : Text} {call : PluginCall} {members : List (Text × Json)} {l : Literal}
  {u : CallUnit}

/-! ## The block as a document -/

/-- The document that the block of an object call is read as. -/
structure BlockDocument (call : PluginCall) (members : List (Text × Json)) (d : Json.Document) :
    Prop where
  readable : d.Readable
  text : d.text = call.block
  value : d.value = .obj members

theorem ObjectCall.exists_document (h : ObjectCall source call members) :
    ∃ d, Json.Document.read call.block = .ok d ∧ BlockDocument call members d := by
  have hobject := h.object
  unfold Json.read? Json.read at hobject
  cases hread : Json.Document.read call.block with
  | error refusal =>
    rw [hread] at hobject
    cases hobject
  | ok d =>
    rw [hread] at hobject
    obtain ⟨hreadable, htext⟩ := Json.Document.readable_of_read hread
    exact ⟨d, rfl, hreadable, htext, Option.some.inj hobject⟩

namespace BlockDocument

variable {d : Json.Document}

/-- The block is the object alone. -/
theorem exists_object (h : BlockDocument call members d) (hblock : PluginCall.InBraces call.block) :
    ∃ blanks items, d = ⟨[], .object blanks items, []⟩ := by
  obtain ⟨before, root, after⟩ := d
  obtain ⟨⟨hbefore, hroot, hafter⟩, htext, hvalue⟩ := h
  change before ++ root.text ++ after = call.block at htext
  obtain ⟨blanks, items, rfl⟩ : ∃ blanks items, root = .object blanks items := by
    change root.value = .obj members at hvalue
    cases root with
    | scalar raw value =>
      have hscalar := Json.Scalar.isScalar hroot
      rw [show value = .obj members from hvalue] at hscalar
      cases hscalar
    | string raw text => cases hvalue
    | array blanks items => cases hvalue
    | object blanks items => exact ⟨blanks, items, rfl⟩
  have hfront : before = [] := by
    cases before with
    | nil => rfl
    | cons c cs =>
      have hopens := hblock.opens
      rw [← htext] at hopens
      obtain rfl : c = '\x7b' := Option.some.inj hopens
      cases hbefore _ List.mem_cons_self
  have hback : after = [] := by
    by_contra hne
    have hcloses := hblock.closes
    rw [← htext, List.getLast?_append_of_ne_nil _ hne] at hcloses
    cases hafter _ (List.mem_of_getLast? hcloses)
  exact ⟨blanks, items, by rw [hfront, hback]⟩

/-- With other tokens it is in braces again. -/
theorem inBraces_retext (h : BlockDocument call members d)
    (hblock : PluginCall.InBraces call.block) (texts : Json.SpanTexts) (offset : Nat) :
    PluginCall.InBraces (d.retext texts offset).text := by
  obtain ⟨blanks, items, rfl⟩ := h.exists_object hblock
  have htext : ∀ inner : Text, PluginCall.InBraces ('\x7b' :: (inner ++ ['\x7d'])) := by
    intro inner
    refine ⟨?_, rfl, ?_⟩
    · rw [List.length_cons, List.length_append, List.length_singleton]
      omega
    · rw [← List.cons_append, List.getLast?_concat]
  have hobject := htext (blanks ++
    (items.retext texts (offset + 0 + (1 + blanks.length))).text)
  simpa only [Json.Document.text, Json.Document.retext, Json.Node.retext, Json.Node.text,
    List.nil_append, List.append_nil, List.length_nil, List.cons_append] using hobject

end BlockDocument

/-! ## Arguments stand on string tokens -/

theorem literals_of_call (h : PluginCall.ofText? source = some call) (hwhole : Whole call.block) :
    literals source = (literals call.block).map (.shift call.beforeBlock) := by
  obtain ⟨lead, name, gap, tail, hhead, -, htail, rfl, hbefore⟩ := PluginCall.exists_of_ofText? h
  obtain ⟨hfront, hfrontNone⟩ := whole_of_no_quote hhead.no_quote
  obtain ⟨-, htailNone⟩ := whole_of_no_quote fun c hc => isQuote_of_isBlank (htail c hc)
  have hnone : literals (lead ++ name ++ gap) = [] := hfrontNone 0
  have hnone' : literals tail = [] := htailNone 0
  rw [literals_append hfront hwhole, hnone, hnone', List.map_nil, List.append_nil, List.nil_append,
    hbefore]

/-- The characters of the block behind one of its offsets, read off the call. -/
theorem drop_take_block (h : PluginCall.ofText? source = some call) (n : Nat) :
    (source.take call.span.stop).drop (call.beforeBlock + n) = call.block.drop n := by
  obtain ⟨front, back, hsource, hbefore, -, -⟩ := PluginCall.exists_cut h
  rw [call.stop_span, hbefore, hsource, ← List.append_assoc, ← List.length_append, List.take_left,
    List.drop_length_add_append]

/-- The span of a token of the block, in the call. -/
def PluginCall.tokenSpan (call : PluginCall) (t : Json.PlacedToken) : Span :=
  ⟨call.beforeBlock + t.span.1, call.beforeBlock + t.span.2⟩

namespace ObjectCall

variable {d : Json.Document}

theorem literals_eq (h : ObjectCall source call members) (hd : BlockDocument call members d) :
    literals source = (literals d.text).map (.shift call.beforeBlock) := by
  rw [hd.text]
  apply literals_of_call h.named
  rw [← hd.text]
  exact (Explains.document hd.readable).whole

/-- A plugin call holds literals in double quotes only. -/
theorem quote (h : ObjectCall source call members) (hd : BlockDocument call members d)
    (hl : l ∈ literals source) : l.quote = '"' := by
  rw [h.literals_eq hd] at hl
  obtain ⟨m, hm, rfl⟩ := List.mem_map.mp hl
  exact (Explains.document hd.readable).quote m hm

/-- **An argument stands on a string token of the block**, which is read as the argument's text. -/
theorem exists_token (h : ObjectCall source call members) (hd : BlockDocument call members d)
    (hl : l ∈ literals source) {value : Text} (hcopy : ValueCopy source call members l value) :
    ∃ t ∈ d.tokens, t.text = value ∧ (⟨l.start, l.stop⟩ : Span) = call.tokenSpan t := by
  rw [h.literals_eq hd] at hl
  obtain ⟨m, hm, rfl⟩ := List.mem_map.mp hl
  rcases (Explains.document hd.readable).origin m hm with ⟨t, ht, hstart, hraw⟩ | hcolon
  · refine ⟨t, ht, ?_, ?_⟩
    · have hread : Json.read m.raw = .ok (.str t.text) :=
        hraw ▸ (hd.readable.isStringToken ht).read
      have hdecoded : (Json.read? m.raw).bind Json.text? = some value := hcopy.decoded
      rw [Json.read?, hread] at hdecoded
      exact Option.some.inj hdecoded
    · have hlength := congrArg List.length hraw
      simp only [Literal.raw, List.length_append, List.length_cons, List.length_nil] at hlength
      simp only [PluginCall.tokenSpan, Json.PlacedToken.span, Literal.shift, Literal.stop,
        Span.mk.injEq]
      omega
  · obtain ⟨blanks, rest, hdrop, hblanks⟩ := hcolon
    have hfollowing : Text.trimStart (blanks ++ ':' :: rest) = ':' :: rest :=
      Text.dropWhile_append_of_stops hblanks (Text.stops_cons.mpr rfl)
    have hplace := hcopy.place
    rw [stop_shift, drop_take_block h.named, ← hd.text, hdrop, hfollowing] at hplace
    exact absurd rfl hplace

end ObjectCall

/-! ## The units are arguments -/

/-- Offers that are in the way of something taken change nothing. -/
theorem Claims.foldl_blocked {us : List CallUnit} {claims : Claims}
    (h : ∀ u ∈ us, ∃ span ∈ claims.taken, u.firstSpan.overlaps span = true) :
    us.foldl Claims.claim claims = claims := by
  induction us with
  | nil => rfl
  | cons u us ih =>
    obtain ⟨hu, hus⟩ := List.forall_mem_cons.mp h
    rw [List.foldl_cons, Claims.claim, if_pos (List.any_eq_true.mpr hu)]
    exact ih hus

/-- A unit that reaches a literal of the block is in the way of the block. -/
theorem CallUnit.Reaches.overlaps {first last : Literal} (h : u.Reaches source first last)
    (hcall : PluginCall.ofText? source = some call) (hforward : first.start < last.stop) :
    u.firstSpan.overlaps call.span = true := by
  obtain ⟨hstart, hstop⟩ := PluginCall.literal_inside hcall h.last_mem
  have hreach := h.start
  have hend := h.stop
  have hlast := last.start_lt_stop
  rw [Span.overlaps, Bool.and_eq_true, decide_eq_true_eq, decide_eq_true_eq]
  omega

namespace ObjectCall

variable {d : Json.Document}

/-- What the block takes, no later detector claims. -/
theorem claimed_eq (h : ObjectCall source call members) :
    claimed source = ((firstOffers source).foldl Claims.claim ⟨[], []⟩).units := by
  have hblock : (pluginArguments source (literals source)).2 = some call.span := by
    rw [pluginArguments, h.named]
    dsimp only
    rw [h.object]
  rw [claimed_eq_foldl, hblock, Claims.foldl_blocked]
  intro u hu
  refine ⟨call.span, List.mem_append_right _ (List.mem_singleton_self _), ?_⟩
  rcases List.mem_append.mp hu with hu | hu
  · obtain ⟨chain, hchain, hunit⟩ := List.mem_filterMap.mp hu
    obtain ⟨first, last, hfirst, hlast, hreaches⟩ := reaches_of_chainUnit? hchain hunit
    have order := (literals_pairwise source).sublist
      (sublist_of_mem_chainsFrom (List.mem_filter.mp hchain).1)
    exact hreaches.overlaps h.named (start_lt_stop_of_ends order hfirst hlast)
  · obtain ⟨l, hl, hunit⟩ := List.mem_filterMap.mp hu
    exact (reaches_of_plainUnit? hl hunit).overlaps h.named l.start_lt_stop

/-- **What is claimed in an object call are copies of direct values.** -/
theorem exists_copy_of_mem_claimed (h : ObjectCall source call members)
    (hd : BlockDocument call members d) (hu : u ∈ claimed source) :
    ∃ l ∈ literals source, ∃ value, ValueCopy source call members l value ∧
      u = .single source value .pluginArgument '"' ⟨l.start, l.stop⟩ := by
  rw [h.claimed_eq] at hu
  have hoffer := (mem_foldl_claim hu).resolve_left List.not_mem_nil
  rcases List.mem_append.mp hoffer with htemplate | hargument
  · obtain ⟨l, hl, -⟩ := List.mem_map.mp htemplate
    obtain ⟨hl, hquote⟩ := List.mem_filter.mp hl
    rw [h.quote hd hl] at hquote
    cases hquote
  · exact (mem_pluginArguments_iff h).mp hargument

end ObjectCall

/-- A span of an accepted unit was claimed for the text of the unit. -/
theorem exists_claim_of_span {us accepted : List CallUnit} {span : Span}
    (h : u ∈ us.foldl accept accepted) (hspan : span ∈ u.spans) :
    ∃ v, (v ∈ accepted ∨ v ∈ us) ∧ v.text = u.text ∧ span ∈ v.spans := by
  induction us generalizing accepted with
  | nil => exact ⟨u, Or.inl h, rfl, hspan⟩
  | cons w us ih =>
    obtain ⟨v, hv | hv, htext, hspan⟩ := ih h
    · unfold accept at hv
      split at hv
      next => exact ⟨v, Or.inl hv, htext, hspan⟩
      next =>
        split at hv
        next =>
          obtain ⟨first, hfirst, rfl⟩ := List.mem_map.mp hv
          have hkept : first.text = u.text := (CallUnit.absorb_text w first).symm.trans htext
          rcases CallUnit.mem_absorb_spans hspan with hspan | ⟨hspan, hsame, -⟩
          · exact ⟨first, Or.inl hfirst, hkept, hspan⟩
          · exact ⟨w, Or.inr List.mem_cons_self, hsame.symm.trans hkept, hspan⟩
        next =>
          rcases List.mem_append.mp hv with hv | hv
          · exact ⟨v, Or.inl hv, htext, hspan⟩
          · obtain rfl := List.mem_singleton.mp hv
            exact ⟨v, Or.inr List.mem_cons_self, htext, hspan⟩
    · exact ⟨v, Or.inr (List.mem_cons_of_mem w hv), htext, hspan⟩

/-- The units of an object call are arguments, and stand on string tokens of the block that are read
as their texts. -/
structure ArgumentUnits (call : PluginCall) (d : Json.Document) (us : List CallUnit) : Prop where
  kind : ∀ u ∈ us, u.kind = .pluginArgument
  token : ∀ u ∈ us, ∀ span ∈ u.spans, ∃ t ∈ d.tokens, t.text = u.text ∧ span = call.tokenSpan t

theorem ObjectCall.argumentUnits {d : Json.Document} (h : ObjectCall source call members)
    (hd : BlockDocument call members d) : ArgumentUnits call d (units source) := by
  refine ⟨?_, ?_⟩
  · intro u hu
    obtain ⟨v, hv, hkind⟩ := exists_kind_of_mem_foldl_accept hu
    have hclaimed := List.mem_mergeSort.mp (hv.resolve_left List.not_mem_nil)
    obtain ⟨l, -, value, -, rfl⟩ := h.exists_copy_of_mem_claimed hd hclaimed
    exact hkind
  · intro u hu span hspan
    obtain ⟨v, hv, htext, hspan⟩ := exists_claim_of_span hu hspan
    have hclaimed := List.mem_mergeSort.mp (hv.resolve_left List.not_mem_nil)
    obtain ⟨l, hl, value, hcopy, rfl⟩ := h.exists_copy_of_mem_claimed hd hclaimed
    obtain ⟨t, ht, hvalue, htoken⟩ := h.exists_token hd hl hcopy
    exact ⟨t, ht, hvalue.trans htext, (List.mem_singleton.mp hspan).trans htoken⟩

/-! ## New texts by span -/

/-- The new text for a span: that of the unit that has it. -/
def textAt (texts : CallUnit → Option Text) (us : List CallUnit) (span : Span) : Option Text :=
  us.findSome? fun u => if span ∈ u.spans then texts u else none

/-- No two units of a call have a span in common. -/
theorem SoundUnits.unit_unique {us : List CallUnit} (h : SoundUnits source us) {u v : CallUnit}
    (hu : u ∈ us) (hv : v ∈ us) {span : Span} (hspan : span ∈ u.spans) (hspan' : span ∈ v.spans) :
    u = v := by
  have hpair : us.Pairwise fun a b => ∀ s ∈ a.spans, ∀ t ∈ b.spans, s.Apart t :=
    (List.pairwise_flatMap.mp h.apart).2
  have hsymm : Std.Symm fun a b : CallUnit => ∀ s ∈ a.spans, ∀ t ∈ b.spans, s.Apart t :=
    ⟨fun _ _ hab s hs t ht => (hab t ht s hs).symm⟩
  by_contra hne
  have hapart := hpair.forall hu hv hne span hspan span hspan'
  have hlt := (h.within u hu span hspan).start_lt_stop
  rw [Span.Apart] at hapart
  omega

theorem SoundUnits.textAt_eq_some {us : List CallUnit} (h : SoundUnits source us)
    {texts : CallUnit → Option Text} {span : Span} {new : Text} :
    textAt texts us span = some new ↔ ∃ u ∈ us, span ∈ u.spans ∧ texts u = some new := by
  constructor
  · intro hnew
    obtain ⟨u, hu, hfound⟩ := List.exists_of_findSome?_eq_some hnew
    split at hfound
    next hspan => exact ⟨u, hu, hspan, hfound⟩
    next => cases hfound
  · rintro ⟨u, hu, hspan, hnew⟩
    cases hfound : textAt texts us span with
    | none =>
      have hnone := List.findSome?_eq_none_iff.mp hfound u hu
      rw [if_pos hspan, hnew] at hnone
      cases hnone
    | some other =>
      obtain ⟨v, hv, hother⟩ := List.exists_of_findSome?_eq_some hfound
      split at hother
      next hspan' =>
        obtain rfl := h.unit_unique hu hv hspan hspan'
        rw [← hother, hnew]
      next => cases hother

theorem CallUnit.render_argument (h : u.kind = .pluginArgument) (t : Text) :
    u.render t = Json.quote t := by
  rw [CallUnit.render, h]
  rfl

/-- What the rewrites of arguments replace, by the new texts of the spans. -/
theorem mem_rewrites_iff {us : List CallUnit} (h : SoundUnits source us)
    (hkind : ∀ u ∈ us, u.kind = .pluginArgument) {texts : CallUnit → Option Text}
    {r : Replacement} : r ∈ (rewritesOf texts us).map Edit.asReplacement ↔
      ∃ u ∈ us, ∃ span ∈ u.spans, ∃ new, textAt texts us span = some new ∧
        r = ⟨span.start, span.stop, Json.quote new⟩ := by
  constructor
  · intro hr
    obtain ⟨e, he, rfl⟩ := List.mem_map.mp hr
    obtain ⟨u, hu, written, hwritten, span, hspan, rfl⟩ := mem_editsOf he
    obtain ⟨new, hnew, rfl⟩ := Option.map_eq_some_iff.mp hwritten
    refine ⟨u, hu, span, hspan, new, h.textAt_eq_some.mpr ⟨u, hu, hspan, hnew⟩, ?_⟩
    rw [CallUnit.render_argument (hkind u hu)]
    rfl
  · rintro ⟨u, hu, span, hspan, new, hnew, rfl⟩
    obtain ⟨v, hv, hspan', hnew⟩ := h.textAt_eq_some.mp hnew
    obtain rfl := h.unit_unique hu hv hspan hspan'
    rw [← CallUnit.render_argument (hkind u hu) new]
    refine List.mem_map.mpr ⟨⟨span.start, span.stop, u.written, u.render new⟩, ?_, rfl⟩
    refine List.mem_flatMap.mpr ⟨u, hu, ?_⟩
    dsimp only
    rw [hnew]
    exact List.mem_map.mpr ⟨span, hspan, rfl⟩

/-- The new texts of a block, by the spans of the call. -/
def spanTexts (texts : CallUnit → Option Text) (us : List CallUnit) : Json.SpanTexts := fun span =>
  textAt texts us ⟨span.1, span.2⟩

theorem mem_replacements_iff {texts : CallUnit → Option Text} {us : List CallUnit}
    {ts : List Json.PlacedToken} {r : Replacement} :
    r ∈ (spanTexts texts us).replacements (ts.map (.shift call.beforeBlock)) ↔
      ∃ t ∈ ts, ∃ new, textAt texts us (call.tokenSpan t) = some new ∧
        r = ⟨(call.tokenSpan t).start, (call.tokenSpan t).stop, Json.quote new⟩ := by
  have hspan : ∀ t : Json.PlacedToken, (t.shift call.beforeBlock).span =
      ((call.tokenSpan t).start, (call.tokenSpan t).stop) := Json.PlacedToken.span_shift _
  simp only [Json.SpanTexts.replacements, List.filterMap_map, List.mem_filterMap,
    Function.comp_apply, Json.SpanTexts.replacement?, hspan, Option.map_eq_some_iff, spanTexts,
    @eq_comm _ _ r]

theorem nodup_of_apart {rs : List Replacement} (hsize : ∀ r ∈ rs, r.start < r.stop)
    (hapart : rs.Pairwise Replacement.Apart) : rs.Nodup := by
  refine hapart.imp_of_mem ?_
  rintro r _ hr - hself rfl
  have hlt := hsize r hr
  rw [Replacement.Apart] at hself
  omega

/-- **The rewrites of arguments are those of the string tokens they stand on**, in some order. -/
theorem ArgumentUnits.rewrites_perm {d : Json.Document} {us : List CallUnit}
    (h : ArgumentUnits call d us) (hd : d.Readable) (hsound : SoundUnits source us)
    (texts : CallUnit → Option Text) : ((rewritesOf texts us).map Edit.asReplacement).Perm
      ((spanTexts texts us).replacements (d.tokens.map (.shift call.beforeBlock))) := by
  have hrewritten := hd.retext_rewritten (spanTexts texts us) call.beforeBlock
  have hedits : ((rewritesOf texts us).map Edit.asReplacement).Nodup := by
    refine nodup_of_apart ?_ (List.pairwise_map.mpr (editsOf_pairwise hsound.apart))
    intro r hr
    obtain ⟨u, hu, span, hspan, new, -, rfl⟩ := (mem_rewrites_iff hsound h.kind).mp hr
    exact (hsound.within u hu span hspan).start_lt_stop
  have htokens := nodup_of_apart hrewritten.start_lt_stop (hrewritten.pairwise.imp Or.inl)
  refine (List.perm_ext_iff_of_nodup hedits htokens).mpr fun r => ?_
  rw [mem_rewrites_iff hsound h.kind, mem_replacements_iff]
  constructor
  · rintro ⟨u, hu, span, hspan, new, hnew, rfl⟩
    obtain ⟨t, ht, -, rfl⟩ := h.token u hu span hspan
    exact ⟨t, ht, new, hnew, rfl⟩
  · rintro ⟨t, -, new, hnew, rfl⟩
    obtain ⟨u, hu, hspan, -⟩ := hsound.textAt_eq_some.mp hnew
    exact ⟨u, hu, _, hspan, new, hnew, rfl⟩

/-! ## The call that is written -/

/-- The new text for the string at a path of the block: that for the token which the path leads
to. -/
def argumentTexts (texts : CallUnit → Option Text) (us : List CallUnit) (call : PluginCall)
    (d : Json.Document) : Json.NewTexts := fun path =>
  (d.locate path).bind fun span =>
    spanTexts texts us (call.beforeBlock + span.1, call.beforeBlock + span.2)

/-- A path has a new text if it leads to a token on which a unit with a new text stands. -/
theorem argumentTexts_eq_some {us : List CallUnit} (h : SoundUnits source us)
    {texts : CallUnit → Option Text} {d : Json.Document} {path : Json.Path} {new : Text} :
    argumentTexts texts us call d path = some new ↔ ∃ u ∈ us, texts u = some new ∧
      ∃ t ∈ d.tokens, t.path = path ∧ d.locate path = some t.span ∧ call.tokenSpan t ∈ u.spans := by
  rw [argumentTexts, Option.bind_eq_some_iff]
  constructor
  · rintro ⟨span, hspan, hnew⟩
    obtain ⟨u, hu, hmem, htext⟩ := h.textAt_eq_some.mp hnew
    obtain ⟨t, ht, hpath, rfl⟩ :=
      Json.exists_mem_of_lastAt?_eq_some ((d.locate_eq path).symm.trans hspan)
    exact ⟨u, hu, htext, t, ht, hpath, hspan, hmem⟩
  · rintro ⟨u, hu, htext, t, -, -, hspan, hmem⟩
    exact ⟨t.span, hspan, h.textAt_eq_some.mpr ⟨u, hu, hmem, htext⟩⟩

/-- What the edits of arguments leave is the call with a block in which tokens are written anew. -/
theorem ObjectCall.applyEdits_eq {d : Json.Document} (h : ObjectCall source call members)
    (hd : BlockDocument call members d) {texts : CallUnit → Option Text} {listed : List Edit}
    (perm : listed.Perm (rewritesOf texts (units source))) :
    applyEdits source listed = source.take call.beforeBlock ++
      ((d.retext (spanTexts texts (units source)) call.beforeBlock).text ++
        source.drop call.span.stop) := by
  obtain ⟨front, back, hsource, hbefore, hfront, hback⟩ := PluginCall.exists_cut h.named
  have hsound := units_sound source
  have hblock := hd.readable.retext_rewritten (spanTexts texts (units source)) call.beforeBlock
  have htokens := Text.replaceSpansFrom_perm
    ((h.argumentUnits hd).rewrites_perm hd.readable hsound texts).symm hblock.start_lt_stop
    (hblock.pairwise.imp Or.inl) 0 source
  rw [hd.text, hbefore, ← Nat.zero_add front.length] at hblock
  have hcall := (hblock.enclosed front back).replaceSpansFrom_eq
  rw [hfront, hback, hsound.applyEdits_perm perm, hbefore, ← Nat.zero_add front.length, ← hcall,
    ← hsource, Nat.zero_add, ← hbefore]
  exact htokens.symm

/-- **Editing the arguments of a plugin call is an update of the object in its block.** Every unit of
the call is an argument, and each of its spans is that of a string token of the block which is read
as the unit's text. Units get new texts, with any characters, and the edits are made in any order:
what is written is a plugin call with the same name, in whose block the object has a new text at
each path that leads to a token on which a rewritten unit stands, and is as it was everywhere
else. -/
theorem edited_arguments_update_object (h : ObjectCall source call members)
    (texts : CallUnit → Option Text) {listed : List Edit}
    (perm : listed.Perm (rewritesOf texts (units source))) :
    (∀ u ∈ units source, u.kind = .pluginArgument) ∧
    ∃ (d : Json.Document) (newTexts : Json.NewTexts) (block : Text),
      Json.Document.read call.block = .ok d ∧ d.value = .obj members ∧
      (∀ u ∈ units source, ∀ span ∈ u.spans, ∃ t ∈ d.tokens, t.text = u.text ∧
        span = call.tokenSpan t) ∧
      (∀ path new, newTexts path = some new ↔ ∃ u ∈ units source, texts u = some new ∧
        ∃ t ∈ d.tokens, t.path = path ∧ d.locate path = some t.span ∧
          call.tokenSpan t ∈ u.spans) ∧
      applyEdits source listed =
        source.take call.beforeBlock ++ (block ++ source.drop call.span.stop) ∧
      PluginCall.ofText? (applyEdits source listed) = some ⟨call.beforeBlock, block⟩ ∧
      Json.read? block = some ((Json.obj members).mapStrings newTexts.edit) := by
  obtain ⟨d, hread, hd⟩ := h.exists_document
  obtain ⟨-, -, -, -, -, hbraces, -⟩ := PluginCall.exists_of_ofText? h.named
  have hunits := h.argumentUnits hd
  have happly := h.applyEdits_eq hd perm
  refine ⟨hunits.kind, d, argumentTexts texts (units source) call d, _, hread, hd.value,
    hunits.token, fun path new => argumentTexts_eq_some (units_sound source), happly, ?_, ?_⟩
  · rw [happly]
    exact PluginCall.ofText?_replaced h.named (hd.inBraces_retext hbraces _ _)
  · have hplaces : ∀ path span, d.locate path = some span →
        argumentTexts texts (units source) call d path = spanTexts texts (units source)
          (call.beforeBlock + span.1, call.beforeBlock + span.2) := by
      intro path span hspan
      rw [argumentTexts, hspan, Option.bind_some]
    have hblock := hd.readable.read_retext hplaces
    rw [Json.read?, hblock, hd.value]
    rfl

/-- A text in quotes is written into the window of a plugin, whose number stays. -/
theorem edited_log_window :
    let text := "The door is locked.".toList
    let new := "It says \"no\".".toList
    let block := "\x7b\"text\": \"The door is locked.\", \"wait\": 30\x7d".toList
    let members : List (Text × Json) := [("text".toList, .str text), ("wait".toList, .int 30)]
    let source := "LogWindow ".toList ++ block
    let listed : List Edit :=
      [⟨19, 40, "\"The door is locked.\"".toList, "\"It says \\\"no\\\".\"".toList⟩]
    ObjectCall source ⟨10, block⟩ members ∧
      listed.Perm (rewritesOf (fun _ => some new) (units source)) ∧
      ∃ written, PluginCall.ofText? (applyEdits source listed) = some ⟨10, written⟩ ∧
        Json.read? written = some (.obj [("text".toList, .str new), ("wait".toList, .int 30)]) := by
  intro text new block members source listed
  let window : Json.Members := .cons [] (Json.quote "text".toList) "text".toList [] [' ']
    (.string (Json.quote text) text) [] (.cons [' '] (Json.quote "wait".toList) "wait".toList [] [' ']
      (.scalar "30".toList (.int 30)) [] .nil)
  let d : Json.Document := ⟨[], .object [] window, []⟩
  have hnone : ∀ {p : Char → Bool}, ∀ c ∈ ([] : Text), p c = true :=
    fun _ hc => absurd hc List.not_mem_nil
  have hblank : Json.IsBlank [' '] := List.all_eq_true.mp rfl
  have hnumber : Json.Scalar "30".toList (.int 30) := by
    have hformed : Json.NumberToken.WellFormed ⟨false, "30".toList, [], none⟩ :=
      ⟨.inr ⟨by decide, by decide, List.all_eq_true.mp rfl⟩, hnone,
        fun _ he => absurd he (Option.not_mem_none _)⟩
    exact hformed.scalar (by decide)
  have hreadable : d.Readable :=
    ⟨hnone, ⟨hnone, .inr rfl, hnone, Json.isStringToken_quote _, hnone, hblank,
      Json.isStringToken_quote _, hnone, hblank, Json.isStringToken_quote _, hnone, hblank, hnumber,
      hnone, trivial⟩, hnone⟩
  have htext : d.text = block := by decide +kernel
  have hread : Json.Document.read block = .ok d := htext ▸ hreadable.read
  have hobject : Json.read? block = some (.obj members) := by
    rw [Json.read?, Json.read, hread]
    rfl
  have hnamed : PluginCall.ofText? source = some ⟨10, block⟩ := by
    have hhead : PluginCall.IsHead [] "LogWindow".toList [' '] :=
      ⟨hnone, rfl, List.all_eq_true.mp rfl, by decide, List.all_eq_true.mp rfl⟩
    have hbraces : PluginCall.InBraces block := ⟨by decide, rfl, by decide⟩
    have hfound := PluginCall.ofText?_append hhead hbraces hnone
    rwa [List.append_nil] at hfound
  let unit : CallUnit := ⟨text, Json.quote text, .pluginArgument, '"', [⟨19, 40⟩]⟩
  have hunits : units source = [unit] := by
    have hclaimed : claimed source = [unit] := by decide +kernel
    have hclean : ¬ Classify.isGarbage text = true := by decide +kernel
    have haccept : accept [] unit = [unit] := if_neg hclean
    rw [units, hclaimed, List.mergeSort_singleton, List.foldl_cons, haccept, List.foldl_nil]
  have perm : listed.Perm (rewritesOf (fun _ => some new) (units source)) := by
    rw [hunits]
    exact .of_eq (by decide +kernel)
  have hcall : ObjectCall source ⟨10, block⟩ members := ⟨hnamed, hobject⟩
  obtain ⟨-, d', newTexts, written, hread', -, -, hnew, -, hwritten, hvalue⟩ :=
    edited_arguments_update_object hcall (fun _ => some new) perm
  obtain rfl : d = d' := Except.ok.inj (hread.symm.trans hread')
  have hkey : newTexts [.key "text".toList] = some new := by
    refine (hnew _ _).mpr ⟨unit, ?_, rfl, ⟨[.key "text".toList], 9, Json.quote text, text⟩, ?_, rfl,
      ?_, ?_⟩
    · rw [hunits]
      exact List.mem_singleton_self unit
    · decide +kernel
    · decide +kernel
    · decide +kernel
  refine ⟨hcall, perm, written, hwritten, hvalue.trans ?_⟩
  simp only [members, Json.mapStrings, Json.mapMembers, Json.NewTexts.edit, hkey, Option.getD_some]
  rfl

end ScriptCall

end GameText
