import GameText.Proofs.Text.Pieces
import GameText.Proofs.Text.Trim
import GameText.Text.TagRuns

/-!
# The parts of a line

A run is a text of blanks and complete tags. Every line is a run, a center and a run, and the two
runs are the longest ones: the rest behind the leading run begins with neither a blank nor a tag, and
no place inside the center leaves a run behind it (`Settled`). A line in three such parts is cut into
just these (`TagRuns.ofLine_of_settled`). So the parts of a line are the line
(`TagRuns.text_ofLine`), nothing is left for the trimming to do, and a text without brackets that is
written between the runs of a line is found again between them (`TagRuns.ofLine_decomposes`).
-/

namespace GameText

namespace Tag

theorem close?_eq {s inside rest : Text} (h : close? s = some (inside, rest)) :
    s = inside ++ ']' :: rest := by
  induction s generalizing inside rest with
  | nil => cases h
  | cons c cs ih =>
    rw [close?] at h
    split at h
    next hc =>
      cases h
      rw [hc]
      rfl
    next =>
      obtain ⟨⟨inside', rest'⟩, hclose, heq⟩ := Option.map_eq_some_iff.mp h
      cases heq
      rw [ih hclose]
      rfl

/-- A tag ends at the first closing bracket. -/
theorem close?_eq_some_iff {s inside rest : Text} :
    close? s = some (inside, rest) ↔ ']' ∉ inside ∧ s = inside ++ ']' :: rest := by
  constructor
  · intro h
    refine ⟨?_, close?_eq h⟩
    induction s generalizing inside with
    | nil => cases h
    | cons c cs ih =>
      rw [close?] at h
      split at h
      next =>
        cases h
        exact List.not_mem_nil
      next hc =>
        obtain ⟨⟨inside', rest'⟩, hclose, heq⟩ := Option.map_eq_some_iff.mp h
        cases heq
        exact List.not_mem_cons_of_ne_of_not_mem (Ne.symm hc) (ih hclose)
  · rintro ⟨hinside, rfl⟩
    induction inside with
    | nil => rw [List.nil_append, close?, if_pos rfl]
    | cons c cs ih =>
      obtain ⟨hc, hcs⟩ := List.ne_and_not_mem_of_not_mem_cons hinside
      rw [List.cons_append, close?, if_neg hc.symm, ih hcs]
      rfl

theorem tag?_eq_some {before : Option Char} {s inside rest : Text}
    (h : tag? before s = some (inside, rest)) : s = '[' :: (inside ++ ']' :: rest) := by
  cases s with
  | nil => cases h
  | cons c cs =>
    by_cases hc : c = '['
    · subst hc
      rw [close?_eq (show close? cs = some (inside, rest) from h)]
    · simp only [tag?] at h
      split at h
      next heq => exact absurd (List.cons.inj heq).1 hc
      next => cases h

theorem tag?_cuts : Recognizer.Cuts tag? := fun _ s inside rest h => by
  refine ⟨'[' :: (inside ++ [']']), List.cons_ne_nil _ _, ?_⟩
  rw [tag?_eq_some h]
  simp only [List.cons_append, List.append_assoc, List.nil_append]

/-! ## Runs -/

/-- A complete tag: an opening bracket, and everything up to the next closing one. -/
def Complete (tag : Text) : Prop := ∃ inside, ']' ∉ inside ∧ tag = '[' :: (inside ++ [']'])

/-- Blanks and complete tags, and nothing else. -/
inductive Run : Text → Prop
  | nil : Run []
  | blank {c : Char} {s : Text} (hc : isBlank c = true) (rest : Run s) : Run (c :: s)
  | tag {t s : Text} (complete : Complete t) (rest : Run s) : Run (t ++ s)

theorem afterRun_cons (c : Char) (cs : Text) :
    afterRun (c :: cs) =
      if isBlank c then afterRun cs
      else if c = '[' then ((close? cs).map fun found => afterRun found.2).getD (c :: cs)
      else c :: cs := by
  rw [afterRun.eq_def]
  dsimp only
  congr 2
  split
  next hclose =>
    rw [hclose]
    rfl
  next hclose =>
    rw [hclose]
    rfl

theorem afterRun_blank {c : Char} (hc : isBlank c = true) (cs : Text) :
    afterRun (c :: cs) = afterRun cs := by
  rw [afterRun_cons, if_pos hc]

theorem Complete.afterRun_append {tag : Text} (h : Complete tag) (s : Text) :
    afterRun (tag ++ s) = afterRun s := by
  obtain ⟨inside, hinside, rfl⟩ := h
  have hclose : close? (inside ++ ']' :: s) = some (inside, s) :=
    close?_eq_some_iff.mpr ⟨hinside, rfl⟩
  rw [List.cons_append, List.append_assoc, List.singleton_append, afterRun_cons,
    if_neg (by decide), if_pos rfl, hclose]
  rfl

/-- A character that is no blank and no opening bracket ends a run. -/
theorem afterRun_plain {c : Char} (hblank : isBlank c = false) (hc : c ≠ '[') (cs : Text) :
    afterRun (c :: cs) = c :: cs := by
  rw [afterRun_cons, if_neg (by rw [hblank]; decide), if_neg hc]

/-- A run in front plays no part in what follows the longest run. -/
theorem Run.afterRun_append {run : Text} (h : Run run) (s : Text) :
    afterRun (run ++ s) = afterRun s := by
  induction h with
  | nil => rfl
  | blank hc _ ih => rw [List.cons_append, afterRun_blank hc, ih]
  | tag complete _ ih => rw [List.append_assoc, complete.afterRun_append, ih]

/-- What stands in front of the rest is a run. -/
theorem exists_afterRun (s : Text) : ∃ run, Run run ∧ s = run ++ afterRun s := by
  fun_induction afterRun s with
  | case1 => exact ⟨[], .nil, rfl⟩
  | case2 c cs hc ih =>
    obtain ⟨run, hrun, hs⟩ := ih
    exact ⟨c :: run, .blank hc hrun, congrArg (c :: ·) hs⟩
  | case3 cs inside rest hclose _ ih =>
    obtain ⟨run, hrun, hs⟩ := ih
    obtain ⟨hinside, hcs⟩ := close?_eq_some_iff.mp hclose
    refine ⟨'[' :: (inside ++ [']']) ++ run, .tag ⟨inside, hinside, rfl⟩ hrun, ?_⟩
    rw [List.append_assoc, ← hs, hcs]
    simp only [List.cons_append, List.append_assoc, List.nil_append]
  | case4 cs _ _ => exact ⟨[], .nil, rfl⟩
  | case5 c cs _ _ => exact ⟨[], .nil, rfl⟩

/-- Nothing follows the longest run of a text exactly if the text is a run. -/
theorem afterRun_eq_nil_iff {s : Text} : afterRun s = [] ↔ Run s := by
  constructor
  · intro h
    obtain ⟨run, hrun, hs⟩ := exists_afterRun s
    rw [h, List.append_nil] at hs
    rwa [hs]
  · intro h
    have happend := h.afterRun_append []
    rw [List.append_nil] at happend
    rw [happend, afterRun.eq_def]

theorem length_afterRun_le (s : Text) : (afterRun s).length ≤ s.length := by
  obtain ⟨run, -, hs⟩ := exists_afterRun s
  have hlength := congrArg List.length hs
  rw [List.length_append] at hlength
  omega

/-- What follows the longest run begins with no run. -/
theorem eq_nil_of_run_prefix {s run : Text} (hs : afterRun s = s) (hrun : Run run)
    (hbegins : run <+: s) : run = [] := by
  obtain ⟨rest, rfl⟩ := hbegins
  rw [hrun.afterRun_append] at hs
  have hle := length_afterRun_le rest
  have hlength := congrArg List.length hs
  rw [List.length_append] at hlength
  exact List.length_eq_zero_iff.mp (by omega)

theorem afterRun_afterRun (s : Text) : afterRun (afterRun s) = afterRun s := by
  obtain ⟨run, hrun, hs⟩ := exists_afterRun s
  rw [← hrun.afterRun_append (afterRun s), ← hs]

/-- A tag is a run, and so is a blank. -/
theorem Complete.run {tag : Text} (h : Complete tag) : Run tag := by
  rw [← List.append_nil tag]
  exact .tag h .nil

theorem Complete.ne_nil {tag : Text} (h : Complete tag) : tag ≠ [] := by
  obtain ⟨inside, -, rfl⟩ := h
  exact List.cons_ne_nil _ _

/-- What is left of a run behind a run is a run. -/
theorem Run.of_append {run rest : Text} (h : Run (run ++ rest)) (hrun : Run run) : Run rest := by
  rw [← afterRun_eq_nil_iff] at h ⊢
  rwa [hrun.afterRun_append] at h

end Tag

namespace TagRuns

open Tag

/-! ## The longest runs -/

/-- What stands before the trailing run is a beginning of the text, and a run follows it. -/
theorem exists_beforeTrailing (s : Text) : ∃ run, Run run ∧ s = beforeTrailing s ++ run := by
  induction s with
  | nil => exact ⟨[], .nil, rfl⟩
  | cons c cs ih =>
    rw [beforeTrailing]
    split
    next hempty =>
      exact ⟨c :: cs, afterRun_eq_nil_iff.mp (List.isEmpty_iff.mp hempty), rfl⟩
    next =>
      obtain ⟨run, hrun, hcs⟩ := ih
      exact ⟨run, hrun, congrArg (c :: ·) hcs⟩

/-- No longer run ends the text. -/
theorem beforeTrailing_prefix (front : Text) {run : Text} (h : Run run) :
    beforeTrailing (front ++ run) <+: front := by
  induction front with
  | nil =>
    cases run with
    | nil => exact List.nil_prefix
    | cons c cs =>
      have hnothing : beforeTrailing (c :: cs) = [] := by
        rw [beforeTrailing, if_pos (by rw [afterRun_eq_nil_iff.mpr h]; rfl)]
      exact List.prefix_nil.mpr hnothing
  | cons c cs ih =>
    rw [List.cons_append, beforeTrailing]
    split
    next => exact List.nil_prefix
    next => exact (List.prefix_cons_inj c).mpr ih

/-- A center with the run behind it: neither a blank nor a tag stands in front, and no place of the
center leaves a run behind it. -/
structure Settled (center tail : Text) : Prop where
  run : Run tail
  front : afterRun (center ++ tail) = center ++ tail
  back : beforeTrailing (center ++ tail) = center

/-- **Every line is a run, a center and a run**, both runs as long as they can be. -/
theorem exists_settled (line : Text) :
    ∃ lead center tail, Run lead ∧ Settled center tail ∧ line = lead ++ (center ++ tail) := by
  obtain ⟨lead, hlead, hline⟩ := exists_afterRun line
  obtain ⟨tail, htail, hrest⟩ := exists_beforeTrailing (afterRun line)
  refine ⟨lead, beforeTrailing (afterRun line), tail, hlead, ⟨htail, ?_, ?_⟩, ?_⟩
  · rw [← hrest, afterRun_afterRun]
  · rw [← hrest]
  · rw [← hrest]
    exact hline

section Settled

variable {center tail : Text} (h : Settled center tail)

include h

/-- The center begins with no run. -/
theorem Settled.eq_nil_of_prefix {run : Text} (hrun : Run run) (hbegins : run <+: center) :
    run = [] :=
  eq_nil_of_run_prefix h.front hrun (hbegins.trans (List.prefix_append center tail))

/-- No run that ends the text reaches into the center. -/
theorem Settled.suffix_tail {run : Text} (hrun : Run run) (hsuffix : run <:+ center ++ tail) :
    run <:+ tail := by
  obtain ⟨front, hfront⟩ := hsuffix
  have hcenter := beforeTrailing_prefix front hrun
  rw [hfront, h.back] at hcenter
  obtain ⟨more, rfl⟩ := hcenter
  rw [List.append_assoc, List.append_cancel_left_eq] at hfront
  exact ⟨more, hfront⟩

/-- The center ends with no run. -/
theorem Settled.eq_nil_of_suffix {run : Text} (hrun : Run run) (hsuffix : run <:+ center) :
    run = [] := by
  obtain ⟨front, rfl⟩ := hsuffix
  have hboth : Run (run ++ tail) := by
    rw [← afterRun_eq_nil_iff, hrun.afterRun_append, afterRun_eq_nil_iff]
    exact h.run
  have hcenter := beforeTrailing_prefix front hboth
  rw [← List.append_assoc, h.back] at hcenter
  have hlength := hcenter.length_le
  rw [List.length_append] at hlength
  exact List.length_eq_zero_iff.mp (by omega)

/-- Nothing is left for trimming to take off the center. -/
theorem Settled.stops : Text.Stops isBlank center ∧ Text.Stops isBlank center.reverse := by
  refine ⟨fun c hc => ?_, fun c hc => ?_⟩
  · obtain ⟨cs, rfl⟩ := List.head?_eq_some_iff.mp hc
    by_contra hblank
    have hnil := h.eq_nil_of_prefix (.blank (Bool.of_not_eq_false hblank) .nil) ⟨cs, rfl⟩
    cases hnil
  · rw [List.head?_reverse] at hc
    obtain ⟨cs, rfl⟩ := List.getLast?_eq_some_iff.mp hc
    by_contra hblank
    have hnil := h.eq_nil_of_suffix (.blank (Bool.of_not_eq_false hblank) .nil) ⟨cs, rfl⟩
    cases hnil

/-- **A line in settled parts is cut into them.** -/
theorem ofLine_of_settled {lead : Text} (hlead : Run lead) :
    ofLine (lead ++ (center ++ tail)) = ⟨lead, center, tail⟩ := by
  obtain ⟨hstart, hend⟩ := h.stops
  have htrimStart := Text.trimStart_of_stops hstart
  have htrimEnd := Text.trimEnd_of_stops hend
  have hblanks : center.blanksAtEnd = [] := by
    have hparts := Text.trimEnd_append_blanksAtEnd center
    rw [htrimEnd] at hparts
    exact List.append_cancel_left (hparts.trans (List.append_nil center).symm)
  have hrest : afterRun (lead ++ (center ++ tail)) = center ++ tail := by
    rw [hlead.afterRun_append, h.front]
  have hnothing : consumed center center = [] := consumed_append [] center
  simp only [ofLine, hrest, h.back, consumed_append, htrimStart, htrimEnd, hblanks, hnothing,
    List.append_nil, List.nil_append, List.drop_left]

end Settled

/-- In front of the first opening bracket a run has only blanks. -/
theorem isBlank_of_run_append {s rest : Text} (hopen : '[' ∉ s) (h : Run (s ++ rest)) :
    ∀ c ∈ s, isBlank c = true := by
  induction s with
  | nil => exact fun _ hc => nomatch hc
  | cons c cs ih =>
    obtain ⟨hc, hcs⟩ := List.ne_and_not_mem_of_not_mem_cons hopen
    rw [List.cons_append, ← afterRun_eq_nil_iff] at h
    by_cases hblank : isBlank c = true
    · rw [afterRun_blank hblank, afterRun_eq_nil_iff] at h
      exact List.forall_mem_cons.mpr ⟨hblank, ih hcs h⟩
    · rw [afterRun_plain (Bool.eq_false_iff.mpr hblank) hc.symm] at h
      cases h

/-- A text without brackets and without blanks at its ends is a center, whatever run follows it. -/
theorem settled_of_prose {t tail : Text} (hne : t ≠ []) (htrim : t.trim = t) (hopen : '[' ∉ t)
    (htail : Run tail) : Settled t tail := by
  obtain ⟨hstart, hend⟩ := Text.trim_eq_self_iff.mp htrim
  refine ⟨htail, ?_, ?_⟩
  · obtain ⟨c, cs, rfl⟩ := List.exists_cons_of_ne_nil hne
    exact afterRun_plain (Text.stops_cons.mp hstart) (List.ne_of_not_mem_cons hopen).symm _
  · obtain ⟨run, hrun, hsplit⟩ := exists_beforeTrailing (t ++ tail)
    obtain ⟨more, hmore⟩ := beforeTrailing_prefix t htail
    -- The run behind would begin inside the text, with blanks up to its last character.
    have hsame : beforeTrailing (t ++ tail) ++ (more ++ tail) = beforeTrailing (t ++ tail) ++ run := by
      rw [← hsplit, ← List.append_assoc, hmore]
    have hrest : more ++ tail = run := List.append_cancel_left hsame
    have hblank := isBlank_of_run_append
      (fun hmem => hopen (hmore ▸ List.mem_append_right _ hmem)) (hrest ▸ hrun)
    rcases List.eq_nil_or_concat more with rfl | ⟨init, c, rfl⟩
    · rwa [List.append_nil] at hmore
    · have hlast := hend c (by rw [← hmore]; simp)
      rw [hblank c (by simp)] at hlast
      cases hlast

/-- **The three parts of a line are the line.** -/
theorem text_ofLine (line : Text) : (ofLine line).text = line := by
  obtain ⟨lead, center, tail, hlead, hsettled, rfl⟩ := exists_settled line
  rw [ofLine_of_settled hsettled hlead, text, List.append_assoc]

/-- **What the parts of a line are**: the line is a run, a center and a run, both runs are the longest
ones, and the center has no blank and no complete tag at either end. Prose that is written between
the two runs in place of the center is found there again. -/
theorem ofLine_decomposes (line : Text) :
    let parts := ofLine line
    line = parts.lead ++ parts.center ++ parts.tail ∧ Run parts.lead ∧ Run parts.tail ∧
      (∀ run, Run run → run <+: line → run <+: parts.lead) ∧
      (∀ run, Run run → run <:+ parts.center ++ parts.tail → run <:+ parts.tail) ∧
      parts.center.trim = parts.center ∧
      (∀ tag, Complete tag → ¬ tag <+: parts.center ∧ ¬ tag <:+ parts.center) ∧
      ∀ t : Text, t ≠ [] → t.trim = t → '[' ∉ t →
        ofLine (parts.lead ++ t ++ parts.tail) = ⟨parts.lead, t, parts.tail⟩ := by
  obtain ⟨lead, center, tail, hlead, hsettled, rfl⟩ := exists_settled line
  rw [ofLine_of_settled hsettled hlead]
  refine ⟨(List.append_assoc _ _ _).symm, hlead, hsettled.run, fun run hrun hbegins => ?_,
    fun run hrun hsuffix => hsettled.suffix_tail hrun hsuffix, Text.trim_eq_self_iff.mpr hsettled.stops,
    fun tag htag => ⟨fun hbegins => ?_, fun hsuffix => ?_⟩, fun t hne htrim hopen => ?_⟩
  · rcases List.prefix_or_prefix_of_prefix hbegins (List.prefix_append lead _) with hle | ⟨more, rfl⟩
    · exact hle
    · have hmore := eq_nil_of_run_prefix hsettled.front (hrun.of_append hlead)
        ((List.prefix_append_right_inj lead).mp hbegins)
      subst hmore
      exact ⟨[], by rw [List.append_nil, List.append_nil]⟩
  · exact htag.ne_nil (hsettled.eq_nil_of_prefix htag.run hbegins)
  · exact htag.ne_nil (hsettled.eq_nil_of_suffix htag.run hsuffix)
  · rw [List.append_assoc]
    exact ofLine_of_settled (settled_of_prose hne htrim hopen hsettled.run) hlead

/-- A tag may hold opening brackets, and one inside the center is not set apart. -/
theorem prose_found_between_nested_tags :
    let parts : TagRuns :=
      ⟨" [a[b]\u3000[c] ".toList, "x [y] z".toList, " [d [e][f]\t".toList⟩
    let prose : Text := "Good morning, all".toList
    ofLine " [a[b]\u3000[c] x [y] z [d [e][f]\t".toList = parts ∧
      prose ≠ [] ∧ prose.trim = prose ∧ '[' ∉ prose ∧
      ofLine (parts.lead ++ prose ++ parts.tail) = ⟨parts.lead, prose, parts.tail⟩ := by
  intro parts prose
  have hparts : ofLine " [a[b]\u3000[c] x [y] z [d [e][f]\t".toList = parts := by decide +kernel
  have hne : prose ≠ [] := by decide
  have htrim : prose.trim = prose := by decide +kernel
  have hopen : '[' ∉ prose := by decide
  have hfound : ∀ found, ofLine " [a[b]\u3000[c] x [y] z [d [e][f]\t".toList = found →
      ofLine (found.lead ++ prose ++ found.tail) = ⟨found.lead, prose, found.tail⟩ := by
    rintro _ rfl
    exact (ofLine_decomposes _).2.2.2.2.2.2.2 prose hne htrim hopen
  exact ⟨hparts, hne, htrim, hopen, hfound parts hparts⟩

end TagRuns

end GameText
