import GameText.Text.Basic

/-!
# Spans of a text replaced at once

A replacement names a span of a text by its offsets and gives the text that takes its place.
`Text.replaceSpans` reads the source once, from left to right: a replacement is written where its
span begins, the characters inside spans are left out, and every other character stays. The order
in which the replacements are listed plays no part, so this is the second side of every law that
says what a row of edits, made one after another, does to a text.

`Text.replaceSpans_stretches` is the form in which those laws use it: for a text cut into stretches,
some of which are written anew, replacing the spans of those stretches writes each stretch in its
place. `Text.Rewritten` says the same of two texts and joins part by part, for a text that is a tree.
Not established: anything about spans that overlap.
-/

namespace GameText

/-- A span of a text, from one offset up to another, and the text that takes its place. -/
structure Replacement where
  start : Nat
  stop : Nat
  text : Text
deriving DecidableEq, Repr

namespace Replacement

/-- The character at an offset lies inside the span. -/
def covers (r : Replacement) (i : Nat) : Bool := r.start ≤ i && i < r.stop

/-- No character is common to both spans. -/
def Apart (a b : Replacement) : Prop := a.stop ≤ b.start ∨ b.stop ≤ a.start

theorem Apart.symm {a b : Replacement} (h : Apart a b) : Apart b a := Or.symm h

end Replacement

namespace Text

/-- What is written at an offset: the texts of the replacements whose spans begin there. -/
def writtenAt (rs : List Replacement) (i : Nat) : Text :=
  (rs.filter fun r => r.start == i).flatMap (·.text)

/-- The character at an offset lies inside a span. -/
def coveredAt (rs : List Replacement) (i : Nat) : Bool := rs.any (·.covers i)

/-- A text that begins at an offset with all spans replaced at once. -/
def replaceSpansFrom (rs : List Replacement) (offset : Nat) : Text → Text
  | [] => []
  | c :: cs =>
    writtenAt rs offset ++ (if coveredAt rs offset then [] else [c]) ++
      replaceSpansFrom rs (offset + 1) cs

/-- A text with all spans replaced at once. -/
def replaceSpans (rs : List Replacement) (s : Text) : Text := replaceSpansFrom rs 0 s

/-- What stands between two offsets. -/
theorem take_drop_middle (a b c : Text) :
    ((a ++ (b ++ c)).take (a.length + b.length)).drop a.length = b := by
  rw [List.take_length_add_append, List.take_left' rfl, List.drop_left' rfl]

/-! ## Reading from left to right -/

theorem replaceSpansFrom_append (rs : List Replacement) (offset : Nat) (s t : Text) :
    replaceSpansFrom rs offset (s ++ t) =
      replaceSpansFrom rs offset s ++ replaceSpansFrom rs (offset + s.length) t := by
  induction s generalizing offset with
  | nil => rfl
  | cons c cs ih =>
    simp only [List.cons_append, replaceSpansFrom, ih, List.length_cons, List.append_assoc]
    rw [show offset + 1 + cs.length = offset + (cs.length + 1) by omega]

/-- Only what the replacements do at the offsets of the text counts. -/
theorem replaceSpansFrom_congr {rs rs' : List Replacement} {offset : Nat} {s : Text}
    (h : ∀ i, offset ≤ i → i < offset + s.length →
      writtenAt rs i = writtenAt rs' i ∧ coveredAt rs i = coveredAt rs' i) :
    replaceSpansFrom rs offset s = replaceSpansFrom rs' offset s := by
  induction s generalizing offset with
  | nil => rfl
  | cons c cs ih =>
    obtain ⟨hw, hc⟩ := h offset (Nat.le_refl _) (by simp only [List.length_cons]; omega)
    have hrest : replaceSpansFrom rs (offset + 1) cs = replaceSpansFrom rs' (offset + 1) cs :=
      ih fun i hi hlt => h i (by omega) (by simp only [List.length_cons]; omega)
    simp only [replaceSpansFrom, hw, hc, hrest]

/-- A replacement whose span lies outside the text does nothing to it. -/
theorem replaceSpansFrom_cons_outside {r : Replacement} {rs : List Replacement} {offset : Nat}
    {s : Text} (hr : r.start < r.stop) (h : r.stop ≤ offset ∨ offset + s.length ≤ r.start) :
    replaceSpansFrom (r :: rs) offset s = replaceSpansFrom rs offset s := by
  refine replaceSpansFrom_congr fun i hi hlt => ⟨?_, ?_⟩
  · have hne : (r.start == i) = false := by
      rw [beq_eq_false_iff_ne]
      omega
    simp only [writtenAt, List.filter_cons, hne, Bool.false_eq_true, if_false]
  · have hout : r.covers i = false := by
      simp only [Replacement.covers, Bool.and_eq_false_iff, decide_eq_false_iff_not]
      omega
    simp only [coveredAt, List.any_cons, hout, Bool.false_or]

theorem replaceSpansFrom_nil (offset : Nat) (s : Text) : replaceSpansFrom [] offset s = s := by
  induction s generalizing offset with
  | nil => rfl
  | cons c cs ih =>
    simp only [replaceSpansFrom, ih, writtenAt, coveredAt, List.filter_nil, List.flatMap_nil,
      List.any_nil, Bool.false_eq_true, if_false, List.nil_append, List.singleton_append]

theorem replaceSpans_nil (s : Text) : replaceSpans [] s = s := replaceSpansFrom_nil 0 s

/-- A text that no span touches stays. -/
theorem replaceSpansFrom_outside {rs : List Replacement} {offset : Nat} {s : Text}
    (h : ∀ r ∈ rs, r.start < r.stop ∧ (r.stop ≤ offset ∨ offset + s.length ≤ r.start)) :
    replaceSpansFrom rs offset s = s := by
  induction rs with
  | nil => exact replaceSpansFrom_nil offset s
  | cons r rs ih =>
    obtain ⟨hr, hout⟩ := h r List.mem_cons_self
    rw [replaceSpansFrom_cons_outside hr hout]
    exact ih fun r' hr' => h r' (List.mem_cons_of_mem _ hr')

/-- Inside a span nothing is left of the text, if no other span begins there. -/
theorem replaceSpansFrom_inside {r : Replacement} {rs : List Replacement} {offset : Nat}
    {s : Text} (hstart : r.start < offset) (hstop : offset + s.length ≤ r.stop)
    (h : ∀ r' ∈ rs, r'.start < r'.stop ∧ (r'.stop ≤ offset ∨ offset + s.length ≤ r'.start)) :
    replaceSpansFrom (r :: rs) offset s = [] := by
  induction s generalizing offset with
  | nil => rfl
  | cons c cs ih =>
    simp only [List.length_cons] at hstop h
    have hnew : writtenAt (r :: rs) offset = [] := by
      simp only [writtenAt, List.flatMap_eq_nil_iff, List.mem_filter, List.mem_cons, beq_iff_eq]
      rintro r' ⟨rfl | hr', hbegins⟩
      · omega
      · have := h r' hr'
        omega
    have hcov : coveredAt (r :: rs) offset = true := by
      simp only [coveredAt, List.any_cons, Replacement.covers, Bool.or_eq_true, Bool.and_eq_true,
        decide_eq_true_eq]
      exact Or.inl ⟨by omega, by omega⟩
    have hrest : replaceSpansFrom (r :: rs) (offset + 1) cs = [] :=
      ih (by omega) (by omega) fun r' hr' => by
        have := h r' hr'
        omega
    simp only [replaceSpansFrom, hnew, hcov, hrest, if_true, List.append_nil]

/-- Over its own span a replacement puts its text in the place of what is there. -/
theorem replaceSpansFrom_span {r : Replacement} {rs : List Replacement} {s : Text}
    (hlen : r.stop = r.start + s.length) (hne : s ≠ [])
    (h : ∀ r' ∈ rs, r'.start < r'.stop ∧ r.Apart r') :
    replaceSpansFrom (r :: rs) r.start s = r.text := by
  cases s with
  | nil => exact absurd rfl hne
  | cons c cs =>
    simp only [List.length_cons] at hlen
    have hfilter : (rs.filter fun r' => r'.start == r.start) = [] := by
      rw [List.filter_eq_nil_iff]
      intro r' hr'
      have hapart := h r' hr'
      simp only [Replacement.Apart] at hapart
      rw [beq_iff_eq]
      omega
    have hcov : coveredAt (r :: rs) r.start = true := by
      simp only [coveredAt, List.any_cons, Replacement.covers, Bool.or_eq_true, Bool.and_eq_true,
        decide_eq_true_eq]
      exact Or.inl ⟨Nat.le_refl _, by omega⟩
    have hrest : replaceSpansFrom (r :: rs) (r.start + 1) cs = [] := by
      refine replaceSpansFrom_inside (by omega) (by omega) ?_
      intro r' hr'
      have hapart := h r' hr'
      simp only [Replacement.Apart] at hapart
      omega
    simp only [replaceSpansFrom, writtenAt, List.filter_cons, beq_self_eq_true, if_true, hfilter,
      List.flatMap_singleton, hcov, hrest, List.append_nil]

/-- The last span of a text: what stands before it is replaced without it, and what stands behind
it stays. -/
theorem replaceSpans_cons_last {r : Replacement} {rs : List Replacement} {before s behind : Text}
    (hstart : r.start = before.length) (hstop : r.stop = before.length + s.length) (hne : s ≠ [])
    (h : ∀ r' ∈ rs, r'.start < r'.stop ∧ r'.stop ≤ before.length) :
    replaceSpans (r :: rs) (before ++ (s ++ behind)) =
      replaceSpans rs before ++ (r.text ++ behind) := by
  have hlen : 0 < s.length := List.length_pos_iff.mpr hne
  have hbefore : replaceSpansFrom (r :: rs) 0 before = replaceSpansFrom rs 0 before :=
    replaceSpansFrom_cons_outside (by omega) (Or.inr (by omega))
  have hspan : replaceSpansFrom (r :: rs) before.length s = r.text := by
    rw [← hstart]
    exact replaceSpansFrom_span (by omega) hne fun r' hr' =>
      ⟨(h r' hr').1, Or.inr (by have := (h r' hr').2; omega)⟩
  have hbehind : replaceSpansFrom (r :: rs) (before.length + s.length) behind = behind := by
    refine replaceSpansFrom_outside ?_
    intro r' hr'
    rcases List.mem_cons.mp hr' with rfl | hr'
    · omega
    · have := h r' hr'
      omega
  rw [replaceSpans, replaceSpansFrom_append, replaceSpansFrom_append, Nat.zero_add, hbefore, hspan,
    hbehind, replaceSpans]

/-- Spans behind the front of a text leave the front as it is. -/
theorem replaceSpans_front {rs : List Replacement} {front behind : Text}
    (h : ∀ r ∈ rs, r.start < r.stop ∧ front.length ≤ r.start) :
    replaceSpans rs (front ++ behind) = front ++ replaceSpansFrom rs front.length behind := by
  have hfront : replaceSpansFrom rs 0 front = front :=
    replaceSpansFrom_outside fun r hr => ⟨(h r hr).1, Or.inr (by have := (h r hr).2; omega)⟩
  rw [replaceSpans, replaceSpansFrom_append, hfront, Nat.zero_add]

/-- The first span of a text: what stands before it stays, and what stands behind it is replaced
without it. -/
theorem replaceSpans_cons_first {r : Replacement} {rs : List Replacement} {before s behind : Text}
    (hstart : r.start = before.length) (hstop : r.stop = before.length + s.length) (hne : s ≠ [])
    (h : ∀ r' ∈ rs, r'.start < r'.stop ∧ r.stop ≤ r'.start) :
    replaceSpans (r :: rs) (before ++ (s ++ behind)) =
      before ++ (r.text ++ replaceSpansFrom rs (before.length + s.length) behind) := by
  have hlen : 0 < s.length := List.length_pos_iff.mpr hne
  have hfront : ∀ r' ∈ r :: rs, r'.start < r'.stop ∧ before.length ≤ r'.start := by
    intro r' hr'
    rcases List.mem_cons.mp hr' with rfl | hr'
    · omega
    · have := h r' hr'
      omega
  have hspan : replaceSpansFrom (r :: rs) before.length s = r.text := by
    rw [← hstart]
    exact replaceSpansFrom_span (by omega) hne fun r' hr' => ⟨(h r' hr').1, Or.inl (h r' hr').2⟩
  have hbehind : replaceSpansFrom (r :: rs) (before.length + s.length) behind =
      replaceSpansFrom rs (before.length + s.length) behind :=
    replaceSpansFrom_cons_outside (by omega) (Or.inl (Nat.le_of_eq hstop))
  rw [replaceSpans_front hfront, replaceSpansFrom_append, hspan, hbehind]

/-! ## The order of the list -/

/-- Spans without a common character begin at different offsets. -/
theorem filter_start_eq_of_mem {rs : List Replacement} (hsize : ∀ r ∈ rs, r.start < r.stop)
    (hapart : rs.Pairwise Replacement.Apart) {r : Replacement} (hr : r ∈ rs) :
    (rs.filter fun r' => r'.start == r.start) = [r] := by
  induction rs with
  | nil => cases hr
  | cons a as ih =>
    obtain ⟨hhead, htail⟩ := List.pairwise_cons.mp hapart
    have hsizes : ∀ r ∈ as, r.start < r.stop := fun r h => hsize r (List.mem_cons_of_mem _ h)
    have ha := hsize a List.mem_cons_self
    rcases List.mem_cons.mp hr with rfl | hr
    · have hnone : (as.filter fun r' => r'.start == r.start) = [] := by
        rw [List.filter_eq_nil_iff]
        intro r' hr'
        have h1 := hhead r' hr'
        have h2 := hsizes r' hr'
        simp only [Replacement.Apart] at h1
        rw [beq_iff_eq]
        omega
      simp only [List.filter_cons, beq_self_eq_true, if_true, hnone]
    · have hne : (a.start == r.start) = false := by
        have h1 := hhead r hr
        have h2 := hsizes r hr
        simp only [Replacement.Apart] at h1
        rw [beq_eq_false_iff_ne]
        omega
      simp only [List.filter_cons, hne, Bool.false_eq_true, if_false]
      exact ih hsizes htail hr

theorem writtenAt_perm {rs rs' : List Replacement} (perm : rs.Perm rs')
    (hsize : ∀ r ∈ rs, r.start < r.stop) (hapart : rs.Pairwise Replacement.Apart) (i : Nat) :
    writtenAt rs i = writtenAt rs' i := by
  have hsize' : ∀ r ∈ rs', r.start < r.stop := fun r h => hsize r (perm.mem_iff.mpr h)
  have hapart' : rs'.Pairwise Replacement.Apart :=
    (perm.pairwise_iff Replacement.Apart.symm).mp hapart
  by_cases hbegins : ∃ r ∈ rs, r.start = i
  · obtain ⟨r, hr, rfl⟩ := hbegins
    rw [writtenAt, writtenAt, filter_start_eq_of_mem hsize hapart hr,
      filter_start_eq_of_mem hsize' hapart' (perm.mem_iff.mp hr)]
  · have hnone : ∀ {l : List Replacement}, (∀ r ∈ l, r ∈ rs) →
        (l.filter fun r => r.start == i) = [] := fun hsub => by
      rw [List.filter_eq_nil_iff]
      intro r hr hi
      exact hbegins ⟨r, hsub r hr, eq_of_beq hi⟩
    rw [writtenAt, writtenAt, hnone fun _ h => h, hnone fun _ h => perm.mem_iff.mpr h]

/-- The order in which replacements are listed plays no part. -/
theorem replaceSpansFrom_perm {rs rs' : List Replacement} (perm : rs.Perm rs')
    (hsize : ∀ r ∈ rs, r.start < r.stop) (hapart : rs.Pairwise Replacement.Apart) (offset : Nat)
    (s : Text) : replaceSpansFrom rs offset s = replaceSpansFrom rs' offset s := by
  refine replaceSpansFrom_congr fun i _ _ => ⟨writtenAt_perm perm hsize hapart i, ?_⟩
  rw [coveredAt, coveredAt, Bool.eq_iff_iff, List.any_eq_true, List.any_eq_true]
  exact exists_congr fun r => and_congr_left' perm.mem_iff

/-! ## A text in stretches -/

/-- A stretch of a text, and what is to be written in its place, if anything. -/
structure Stretch where
  raw : Text
  new? : Option Text

namespace Stretch

/-- What stands in the place of a stretch. -/
def written (s : Stretch) : Text := s.new?.getD s.raw

/-- The replacements of a row of stretches that begins at an offset. -/
def replacements (offset : Nat) : List Stretch → List Replacement
  | [] => []
  | ⟨raw, none⟩ :: ss => replacements (offset + raw.length) ss
  | ⟨raw, some new⟩ :: ss =>
    ⟨offset, offset + raw.length, new⟩ :: replacements (offset + raw.length) ss

theorem replacements_append (offset : Nat) (ss ts : List Stretch) :
    replacements offset (ss ++ ts) =
      replacements offset ss ++ replacements (offset + (ss.flatMap raw).length) ts := by
  induction ss generalizing offset with
  | nil => rfl
  | cons s ss ih =>
    obtain ⟨raw, new?⟩ := s
    cases new? <;>
      simp only [List.cons_append, replacements, ih, List.flatMap_cons, List.length_append,
        Nat.add_assoc]

/-- Stretches that are kept on both sides of a row only move it. -/
theorem replacements_enclosed (offset : Nat) (front back : Text) (ss : List Stretch) :
    replacements offset (⟨front, none⟩ :: (ss ++ [⟨back, none⟩])) =
      replacements (offset + front.length) ss := by
  rw [replacements, replacements_append, replacements, replacements, List.append_nil]

/-- The spans of written stretches have characters and do not begin before the row. -/
theorem mem_replacements {offset : Nat} {ss : List Stretch}
    (h : ∀ s ∈ ss, s.new?.isSome → s.raw ≠ []) {r : Replacement}
    (hr : r ∈ replacements offset ss) : r.start < r.stop ∧ offset ≤ r.start := by
  induction ss generalizing offset with
  | nil => cases hr
  | cons s ss ih =>
    obtain ⟨raw, new?⟩ := s
    have hss : ∀ s ∈ ss, s.new?.isSome → s.raw ≠ [] := fun s hs => h s (List.mem_cons_of_mem _ hs)
    cases new? with
    | none =>
      have := ih hss hr
      omega
    | some new =>
      have hraw : 0 < raw.length := List.length_pos_iff.mpr (h _ List.mem_cons_self rfl)
      rcases List.mem_cons.mp hr with rfl | hr
      · exact ⟨by dsimp only; omega, Nat.le_refl _⟩
      · have := ih hss hr
        omega

/-- The spans of written stretches stand one after another. -/
theorem replacements_pairwise {offset : Nat} {ss : List Stretch}
    (h : ∀ s ∈ ss, s.new?.isSome → s.raw ≠ []) :
    (replacements offset ss).Pairwise fun a b => a.stop ≤ b.start := by
  induction ss generalizing offset with
  | nil => exact List.Pairwise.nil
  | cons s ss ih =>
    obtain ⟨raw, new?⟩ := s
    have hss : ∀ s ∈ ss, s.new?.isSome → s.raw ≠ [] := fun s hs => h s (List.mem_cons_of_mem _ hs)
    cases new? with
    | none => exact ih hss
    | some new => exact List.pairwise_cons.mpr ⟨fun r hr => (mem_replacements hss hr).2, ih hss⟩

end Stretch

/-- Replacing the spans of some stretches of a text writes each stretch in its place. -/
theorem replaceSpansFrom_stretches {ss : List Stretch}
    (h : ∀ s ∈ ss, s.new?.isSome → s.raw ≠ []) (offset : Nat) :
    replaceSpansFrom (Stretch.replacements offset ss) offset (ss.flatMap Stretch.raw) =
      ss.flatMap Stretch.written := by
  induction ss generalizing offset with
  | nil => rfl
  | cons s ss ih =>
    obtain ⟨raw, new?⟩ := s
    have hss : ∀ s ∈ ss, s.new?.isSome → s.raw ≠ [] := fun s hs => h s (List.mem_cons_of_mem _ hs)
    have hafter : ∀ r ∈ Stretch.replacements (offset + raw.length) ss,
        r.start < r.stop ∧ offset + raw.length ≤ r.start :=
      fun r hr => Stretch.mem_replacements hss hr
    simp only [List.flatMap_cons, replaceSpansFrom_append]
    cases new? with
    | none =>
      simp only [Stretch.replacements, Stretch.written, Option.getD_none]
      rw [ih hss, replaceSpansFrom_outside fun r hr => ⟨(hafter r hr).1, Or.inr (hafter r hr).2⟩]
    | some new =>
      have hraw : raw ≠ [] := h _ List.mem_cons_self rfl
      have hlen : 0 < raw.length := List.length_pos_iff.mpr hraw
      simp only [Stretch.replacements, Stretch.written, Option.getD_some]
      rw [replaceSpansFrom_cons_outside (s := ss.flatMap Stretch.raw)
          (by dsimp only; omega) (Or.inl (Nat.le_refl _)), ih hss]
      congr 1
      exact replaceSpansFrom_span rfl hraw fun r hr => ⟨(hafter r hr).1, Or.inl (hafter r hr).2⟩

/-- Replacing the spans of some stretches of a whole text writes each stretch in its place. -/
theorem replaceSpans_stretches {ss : List Stretch} (h : ∀ s ∈ ss, s.new?.isSome → s.raw ≠ []) :
    replaceSpans (Stretch.replacements 0 ss) (ss.flatMap Stretch.raw) =
      ss.flatMap Stretch.written :=
  replaceSpansFrom_stretches h 0

/-! ## A text written anew in parts -/

/-- One text is another one, which begins at an offset, with the replacements made in it. -/
def Rewritten (offset : Nat) (old new : Text) (rs : List Replacement) : Prop :=
  ∃ ss : List Stretch, (∀ s ∈ ss, s.new?.isSome → s.raw ≠ []) ∧ ss.flatMap Stretch.raw = old ∧
    ss.flatMap Stretch.written = new ∧ Stretch.replacements offset ss = rs

namespace Rewritten

variable {offset : Nat} {old new old' new' : Text} {rs rs' : List Replacement}

theorem refl (offset : Nat) (s : Text) : Rewritten offset s s [] := by
  refine ⟨[⟨s, none⟩], ?_, ?_, ?_, rfl⟩
  · intro stretch hstretch hnew
    rw [List.mem_singleton.mp hstretch] at hnew
    cases hnew
  · rw [List.flatMap_singleton]
  · rw [List.flatMap_singleton]
    rfl

/-- A stretch that is written anew. -/
theorem single (offset : Nat) {raw : Text} (hraw : raw ≠ []) (new : Text) :
    Rewritten offset raw new [⟨offset, offset + raw.length, new⟩] := by
  refine ⟨[⟨raw, some new⟩], ?_, ?_, ?_, rfl⟩
  · intro stretch hstretch _
    rw [List.mem_singleton.mp hstretch]
    exact hraw
  · rw [List.flatMap_singleton]
  · rw [List.flatMap_singleton]
    rfl

theorem append (h : Rewritten offset old new rs)
    (h' : Rewritten (offset + old.length) old' new' rs') :
    Rewritten offset (old ++ old') (new ++ new') (rs ++ rs') := by
  obtain ⟨ss, hne, rfl, rfl, rfl⟩ := h
  obtain ⟨ss', hne', rfl, rfl, rfl⟩ := h'
  refine ⟨ss ++ ss', ?_, List.flatMap_append, List.flatMap_append, ?_⟩
  · intro stretch hstretch
    rcases List.mem_append.mp hstretch with hstretch | hstretch
    · exact hne stretch hstretch
    · exact hne' stretch hstretch
  · exact Stretch.replacements_append offset ss ss'

/-- What stands in front of a text and behind it only moves it. -/
theorem enclosed (front back : Text) (h : Rewritten (offset + front.length) old new rs) :
    Rewritten offset (front ++ (old ++ back)) (front ++ (new ++ back)) rs := by
  have hboth := (refl offset front).append (h.append (refl _ back))
  rwa [List.append_nil, List.nil_append] at hboth

/-- One text written anew, what stands after it, and another one written anew. -/
theorem follow (before between : Text) (h : Rewritten (offset + before.length) old new rs)
    (h' : Rewritten (offset + before.length + old.length + between.length) old' new' rs') :
    Rewritten offset (before ++ (old ++ (between ++ old'))) (before ++ (new ++ (between ++ new')))
      (rs ++ rs') := by
  have htail := (refl (offset + before.length + old.length) between).append h'
  exact (refl offset before).append (h.append htail)

theorem replaceSpansFrom_eq (h : Rewritten offset old new rs) :
    replaceSpansFrom rs offset old = new := by
  obtain ⟨ss, hne, rfl, rfl, rfl⟩ := h
  exact replaceSpansFrom_stretches hne offset

theorem pairwise (h : Rewritten offset old new rs) : rs.Pairwise fun a b => a.stop ≤ b.start := by
  obtain ⟨ss, hne, -, -, rfl⟩ := h
  exact Stretch.replacements_pairwise hne

theorem start_lt_stop (h : Rewritten offset old new rs) : ∀ r ∈ rs, r.start < r.stop := by
  obtain ⟨ss, hne, -, -, rfl⟩ := h
  exact fun r hr => (Stretch.mem_replacements hne hr).1

end Rewritten

end Text

end GameText
