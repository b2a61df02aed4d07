import GameText.Proofs.ScriptCall.Rendered
import GameText.Proofs.Text.Trim

/-!
# Plugin calls

A plugin call is a head, a block in braces, and blanks (`PluginCall.ofText?_append`,
`PluginCall.exists_of_ofText?`). Neither the name in the head nor blanks hold a quote, and a literal
begins and ends with one; so every literal of the call stands in its block
(`PluginCall.literal_inside`).
-/

namespace GameText

namespace ScriptCall

/-! ## The first and the last character of a literal -/

section Ends

variable {source : Text} {l : Literal}

theorem Literal.getElem?_start (h : l ∈ literals source) : source[l.start]? = some l.quote := by
  obtain ⟨-, -, -, hcut⟩ := Literal.seams h
  have hlt := l.start_lt_stop
  have hle := stop_le_of_mem_literals h
  have hlength : (source.take l.start).length = l.start := by
    rw [List.length_take]
    omega
  rw [← List.getElem?_take_of_lt hlt, hcut, List.getElem?_append_right (by omega), hlength,
    Nat.sub_self]
  rfl

theorem Literal.getElem?_last (h : l ∈ literals source) : source[l.stop - 1]? = some l.quote := by
  obtain ⟨-, -, -, hcut⟩ := Literal.seams h
  have hlt := l.start_lt_stop
  have hle := stop_le_of_mem_literals h
  have hlength : (source.take l.start).length = l.start := by
    rw [List.length_take]
    omega
  have hlast : l.stop - 1 - l.start = (l.quote :: l.inner).length := by
    simp only [Literal.stop, List.length_cons]
    omega
  have hclose : enclosed l.quote l.inner = (l.quote :: l.inner) ++ [l.quote] := rfl
  rw [← List.getElem?_take_of_lt (show l.stop - 1 < l.stop by omega), hcut,
    List.getElem?_append_right (by omega), hlength, hlast, hclose, List.getElem?_concat_length]

end Ends

section Between

variable {before clear behind : Text} (hclear : ∀ c ∈ clear, isQuote c = false)

include hclear

theorem no_quote_at {n : Nat} {c : Char} (hc : (before ++ (clear ++ behind))[n]? = some c)
    (hquote : isQuote c = true) : n < before.length ∨ before.length + clear.length ≤ n := by
  by_contra hin
  rw [not_or, Nat.not_lt, Nat.not_le] at hin
  rw [List.getElem?_append_right hin.1, List.getElem?_append_left (by omega)] at hc
  rw [hclear c (List.mem_of_getElem? hc)] at hquote
  cases hquote

/-- No literal begins among characters without a quote. -/
theorem start_outside {l : Literal} (h : l ∈ literals (before ++ (clear ++ behind))) :
    l.start < before.length ∨ before.length + clear.length ≤ l.start :=
  no_quote_at hclear (Literal.getElem?_start h) (Literal.seams h).1

/-- No literal ends among characters without a quote. -/
theorem stop_outside {l : Literal} (h : l ∈ literals (before ++ (clear ++ behind))) :
    l.stop ≤ before.length ∨ before.length + clear.length < l.stop := by
  have hlt := l.start_lt_stop
  have hout := no_quote_at hclear (Literal.getElem?_last h) (Literal.seams h).1
  omega

end Between

/-! ## The parts of a plugin call -/

namespace PluginCall

/-- What stands in front of a block: blanks, a name, and at least one blank. -/
structure IsHead (lead name gap : Text) : Prop where
  lead : ∀ c ∈ lead, isBlank c = true
  begins : name.head?.any isNameStart = true
  name : ∀ c ∈ name.tail, isPluginNameChar c = true
  gap_ne_nil : gap ≠ []
  gap : ∀ c ∈ gap, isBlank c = true

/-- The text stands in braces. -/
structure InBraces (block : Text) : Prop where
  two : 2 ≤ block.length
  opens : block.head? = some '\x7b'
  closes : block.getLast? = some '\x7d'

theorem isNameStart_of_isBlank {c : Char} (h : isBlank c = true) : isNameStart c = false :=
  not_of_isBlank (by decide +kernel) h

theorem isPluginNameChar_of_isBlank {c : Char} (h : isBlank c = true) :
    isPluginNameChar c = false := by
  rw [isPluginNameChar, isWordChar_of_isBlank h, Bool.false_or, beq_eq_false_iff_ne]
  rintro rfl
  exact absurd h (by decide)

variable {source lead name gap block tail : Text} {call : PluginCall}

/-- A head, a block in braces, and blanks are read as a plugin call. -/
theorem ofText?_append (hhead : IsHead lead name gap) (hblock : InBraces block)
    (htail : ∀ c ∈ tail, isBlank c = true) :
    ofText? (lead ++ name ++ gap ++ (block ++ tail)) =
      some ⟨(lead ++ name ++ gap).length, block⟩ := by
  obtain ⟨c, cs, rfl⟩ : ∃ c cs, name = c :: cs := by
    cases name with
    | nil => cases hhead.begins
    | cons c cs => exact ⟨c, cs, rfl⟩
  have hc : isNameStart c = true := hhead.begins
  have hcBlank : isBlank c = false := by
    rw [← Bool.not_eq_true]
    intro hblank
    rw [isNameStart_of_isBlank hblank] at hc
    cases hc
  obtain ⟨d, ds, rfl⟩ := List.exists_cons_of_ne_nil hhead.gap_ne_nil
  have hd : isBlank d = true := hhead.gap d List.mem_cons_self
  have hnamed : Text.trimStart (lead ++ c :: cs ++ d :: ds ++ (block ++ tail)) =
      c :: (cs ++ (d :: ds ++ (block ++ tail))) := by
    rw [List.append_assoc, List.append_assoc]
    exact Text.dropWhile_append_of_stops hhead.lead (Text.stops_cons.mpr hcBlank)
  have hafter : (cs ++ (d :: ds ++ (block ++ tail))).dropWhile isPluginNameChar =
      d :: ds ++ (block ++ tail) :=
    Text.dropWhile_append_of_stops hhead.name
      (Text.stops_cons.mpr (isPluginNameChar_of_isBlank hd))
  have hopens : Text.Stops isBlank (block ++ tail) := by
    obtain ⟨b, bs, rfl⟩ := List.exists_cons_of_ne_nil (List.length_pos_iff.mp
      (Nat.lt_of_lt_of_le Nat.two_pos hblock.two))
    obtain rfl : b = '\x7b' := Option.some.inj hblock.opens
    exact Text.stops_cons.mpr (by decide)
  have hgap : Text.trimStart (d :: ds ++ (block ++ tail)) = block ++ tail :=
    Text.dropWhile_append_of_stops hhead.gap hopens
  have hcloses : Text.Stops isBlank block.reverse := by
    intro b hb
    rw [List.head?_reverse, hblock.closes] at hb
    obtain rfl := Option.some.inj hb
    decide
  have hblockEnd : Text.trimEnd (block ++ tail) = block := by
    have hnil : Text.trimEnd tail = [] := by
      rw [Text.trimEnd, List.reverse_eq_nil_iff, List.dropWhile_eq_nil_iff]
      exact fun b hb => htail b (List.mem_reverse.mp hb)
    rw [Text.trimEnd_append hcloses, hnil, List.append_nil]
  have hlength : (lead ++ c :: cs ++ d :: ds ++ (block ++ tail)).length - (block ++ tail).length =
      (lead ++ c :: cs ++ d :: ds).length := by
    rw [List.length_append, Nat.add_sub_cancel]
  simp only [ofText?, hnamed, List.drop_one, List.tail_cons, hafter, hgap, hblockEnd, hlength]
  rw [if_pos]
  simp only [List.cons_append, List.head?_cons, Option.any_some, hc, hd, hblock.opens,
    hblock.closes, hblock.two, decide_true, beq_self_eq_true, Bool.and_self]

/-- What is read as a plugin call is a head, a block in braces, and blanks. -/
theorem exists_of_ofText? (h : ofText? source = some call) :
    ∃ lead name gap tail, IsHead lead name gap ∧ InBraces call.block ∧
      (∀ c ∈ tail, isBlank c = true) ∧ source = lead ++ name ++ gap ++ (call.block ++ tail) ∧
        call.beforeBlock = (lead ++ name ++ gap).length := by
  unfold ofText? at h
  dsimp only at h
  split at h
  next hcall =>
    cases h
    simp only [Bool.and_eq_true, decide_eq_true_eq, beq_iff_eq] at hcall
    obtain ⟨⟨⟨⟨hname, hgap⟩, htwo⟩, hopens⟩, hcloses⟩ := hcall
    have hblanks : ∀ s : Text, ∀ c ∈ s.takeWhile isBlank, isBlank c = true := fun _ =>
      List.all_eq_true.mp List.all_takeWhile
    have hsource := (List.takeWhile_append_dropWhile (p := isBlank) (l := source)).symm
    change source = _ ++ source.trimStart at hsource
    generalize source.trimStart = named at hname hgap htwo hopens hcloses hsource ⊢
    obtain ⟨c, cs, rfl⟩ : ∃ c cs, named = c :: cs := by
      cases named with
      | nil => cases hname
      | cons c cs => exact ⟨c, cs, rfl⟩
    simp only [List.drop_one, List.tail_cons] at hgap htwo hopens hcloses ⊢
    have hcs := (List.takeWhile_append_dropWhile (p := isPluginNameChar) (l := cs)).symm
    generalize (cs.dropWhile isPluginNameChar : Text) = afterName at hgap htwo hopens hcloses hcs ⊢
    have hafter := (List.takeWhile_append_dropWhile (p := isBlank) (l := afterName)).symm
    change afterName = _ ++ Text.trimStart afterName at hafter
    have htail := (Text.trimEnd_append_blanksAtEnd (Text.trimStart afterName)).symm
    have hall : source = source.takeWhile isBlank ++ (c :: cs.takeWhile isPluginNameChar) ++
        afterName.takeWhile isBlank ++ Text.trimStart afterName := by
      rw [List.append_assoc, ← hafter, List.append_assoc, List.cons_append, ← hcs]
      exact hsource
    refine ⟨source.takeWhile isBlank, c :: cs.takeWhile isPluginNameChar,
      afterName.takeWhile isBlank, Text.blanksAtEnd (Text.trimStart afterName), ⟨hblanks _, hname,
      List.all_eq_true.mp List.all_takeWhile, ?_, hblanks _⟩, ⟨htwo, hopens, hcloses⟩, ?_, ?_, ?_⟩
    · intro hnone
      cases afterName with
      | nil => cases hgap
      | cons d ds =>
        have hd : isBlank d = true := hgap
        rw [List.takeWhile_cons_of_pos hd] at hnone
        cases hnone
    · exact fun d hd => hblanks _ d (List.mem_reverse.mp hd)
    · rw [← htail]
      exact hall
    · have hlength := congrArg List.length hall
      rw [List.length_append] at hlength
      exact Nat.sub_eq_of_eq_add hlength
  next => cases h

theorem stop_span (call : PluginCall) : call.span.stop = call.beforeBlock + call.block.length := rfl

/-- A plugin call is what stands before its block, the block, and what stands behind it. -/
theorem exists_cut (h : ofText? source = some call) : ∃ front back,
    source = front ++ (call.block ++ back) ∧ call.beforeBlock = front.length ∧
      source.take call.beforeBlock = front ∧ source.drop call.span.stop = back := by
  obtain ⟨lead, name, gap, tail, -, -, -, hsource, hbefore⟩ := exists_of_ofText? h
  refine ⟨_, tail, hsource, hbefore, ?_, ?_⟩
  · rw [hbefore, hsource, List.take_left]
  · rw [stop_span, hbefore, hsource, ← List.append_assoc, ← List.length_append, List.drop_left]

/-- With another block it is a plugin call again. -/
theorem ofText?_replaced (h : ofText? source = some call) (hblock : InBraces block) :
    ofText? (source.take call.beforeBlock ++ (block ++ source.drop call.span.stop)) =
      some ⟨call.beforeBlock, block⟩ := by
  obtain ⟨lead, name, gap, tail, hhead, -, htail, hsource, hbefore⟩ := exists_of_ofText? h
  obtain ⟨front, back, hcut, hlength, hfront, hback⟩ := exists_cut h
  obtain ⟨rfl, hrest⟩ := List.append_inj (hcut.symm.trans hsource) (hlength.symm.trans hbefore)
  obtain rfl := List.append_cancel_left hrest
  rw [hfront, hback, hbefore]
  exact ofText?_append hhead hblock htail

/-! ## The literals of a plugin call -/

theorem IsHead.no_quote (h : IsHead lead name gap) :
    ∀ c ∈ lead ++ name ++ gap, isQuote c = false := by
  intro c hc
  rcases List.mem_append.mp hc with hc | hc
  · rcases List.mem_append.mp hc with hc | hc
    · exact isQuote_of_isBlank (h.lead c hc)
    · rw [← Bool.not_eq_true]
      intro hquote
      have hnone : isPluginNameChar c = false ∧ isNameStart c = false := by
        rcases isQuote_iff.mp hquote with rfl | rfl | rfl <;> decide +kernel
      have hbegins := h.begins
      have hchars := h.name
      cases name with
      | nil => cases hc
      | cons d ds =>
        rcases List.mem_cons.mp hc with rfl | hc
        · rw [List.head?_cons, Option.any_some, hnone.2] at hbegins
          cases hbegins
        · have hchar := hchars c hc
          rw [hnone.1] at hchar
          cases hchar
  · exact isQuote_of_isBlank (h.gap c hc)

/-- Every literal of a plugin call stands in its block. -/
theorem literal_inside (h : ofText? source = some call) {l : Literal} (hl : l ∈ literals source) :
    call.span.start ≤ l.start ∧ l.stop ≤ call.span.stop := by
  obtain ⟨lead, name, gap, tail, hhead, -, htail, rfl, hbefore⟩ := exists_of_ofText? h
  have hstop := stop_le_of_mem_literals hl
  have hfirst : l ∈ literals ([] ++ (lead ++ name ++ gap ++ (call.block ++ tail))) := hl
  have hfront := start_outside hhead.no_quote hfirst
  have hblanks : ∀ c ∈ tail, isQuote c = false := fun c hc => isQuote_of_isBlank (htail c hc)
  have hback : l.stop ≤ (lead ++ name ++ gap ++ call.block).length ∨
      (lead ++ name ++ gap ++ call.block).length + tail.length < l.stop := by
    have hend : l ∈ literals (lead ++ name ++ gap ++ call.block ++ (tail ++ [])) := by
      rwa [List.append_nil, List.append_assoc]
    exact stop_outside hblanks hend
  simp only [List.length_append, List.length_nil] at hstop hfront hback hbefore
  simp only [span]
  omega

end PluginCall

end ScriptCall

end GameText
