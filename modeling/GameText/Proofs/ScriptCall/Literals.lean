import GameText.Proofs.ScriptCall.Units
import GameText.Proofs.Text.Replacement
import Mathlib.Data.List.Nodup

/-!
# The literals of a call that was changed in places

The search for literals knows nothing of units and edits: it goes from quote to quote. A text in
which every quote belongs to a literal that closes is `Whole`, and behind a whole text the search
begins anew (`Whole.literalsFrom_append`). So if spans between whole beginnings of a call are
replaced by whole texts, what is found in the call afterwards is what was found outside the spans,
moved, and what is found in the new texts, and nothing else (`literals_replaceSpans`). A literal
that is never closed ends the search with the rest of the call, its `openTail`, which stays.

The induction is on the text as the search takes it (`literal_induction`), and for the replacements
on their row from right to left, so that a step splits the call before and behind the last span.
-/

namespace GameText

namespace ScriptCall

/-! ## Closing -/

/-- A quote that is no backslash closes a literal with these characters inside, and no earlier one
does. -/
def Closes (quote : Char) (inner : Text) : Prop :=
  ∀ rest, close? quote (inner ++ quote :: rest) = some (inner, rest)

theorem isQuote_ne_backslash {q : Char} (hq : isQuote q = true) : q ≠ '\\' := by
  rintro rfl
  cases hq

theorem close?_pair (quote c : Char) (cs : Text) : close? quote ('\\' :: c :: cs) =
    (close? quote cs).map fun (inside, rest) => ('\\' :: c :: inside, rest) := by
  rw [close?]

theorem close?_plain {quote c : Char} (hslash : c ≠ '\\') (hquote : c ≠ quote) (cs : Text) :
    close? quote (c :: cs) = (close? quote cs).map fun (inside, rest) => (c :: inside, rest) := by
  rw [close?, if_neg hquote] <;> simp only [hslash, false_imp_iff, implies_true]

theorem closes_nil {quote : Char} (hslash : quote ≠ '\\') : Closes quote [] := by
  intro rest
  rw [List.nil_append, close?, if_pos rfl] <;> simp only [hslash, false_imp_iff, implies_true]

theorem Closes.pair {quote : Char} {inner : Text} (h : Closes quote inner) (c : Char) :
    Closes quote ('\\' :: c :: inner) := by
  intro rest
  rw [List.cons_append, List.cons_append, close?_pair, h rest]
  rfl

theorem Closes.plain {quote c : Char} {inner : Text} (h : Closes quote inner) (hslash : c ≠ '\\')
    (hquote : c ≠ quote) : Closes quote (c :: inner) := by
  intro rest
  rw [List.cons_append, close?_plain hslash hquote, h rest]
  rfl

/-- What follows a literal plays no part in where it closes. -/
theorem closes_of_close? {quote : Char} (hslash : quote ≠ '\\') {s inner rest : Text}
    (h : close? quote s = some (inner, rest)) : Closes quote inner := by
  fun_induction close? quote s generalizing inner rest with
  | case1 => cases h
  | case2 => cases h
  | case3 c cs ih =>
    obtain ⟨⟨inner', rest'⟩, hclose, heq⟩ := Option.map_eq_some_iff.mp h
    cases heq
    exact (ih hclose).pair c
  | case4 cs =>
    cases h
    exact closes_nil hslash
  | case5 c cs hlone hbare hquote ih =>
    obtain ⟨⟨inner', rest'⟩, hclose, heq⟩ := Option.map_eq_some_iff.mp h
    cases heq
    refine (ih hclose).plain ?_ hquote
    rintro rfl
    cases cs with
    | nil => exact hlone rfl rfl
    | cons d ds => exact hbare d ds rfl rfl

/-! ## The search -/

/-- The rest of a text from a quote on that nothing closes; `skip` characters belong to a literal
that is already found. -/
def openTailFrom (skip : Nat) : Text → Text
  | [] => []
  | c :: cs =>
    match skip with
    | k + 1 => openTailFrom k cs
    | 0 =>
      if isQuote c then
        match close? c cs with
        | some (inner, _) => openTailFrom (inner.length + 1) cs
        | none => c :: cs
      else openTailFrom 0 cs

/-- The rest of a call from a quote on that nothing closes. -/
def openTail (source : Text) : Text := openTailFrom 0 source

/-- Every quote of the text belongs to a literal that closes. -/
def Whole (s : Text) : Prop := openTail s = []

theorem literalsFrom_skip (offset : Nat) (s t : Text) :
    literalsFrom offset s.length (s ++ t) = literalsFrom (offset + s.length) 0 t := by
  induction s generalizing offset with
  | nil => rfl
  | cons c cs ih =>
    rw [List.cons_append, List.length_cons, literalsFrom, ih]
    congr 1
    omega

theorem openTailFrom_skip (s t : Text) : openTailFrom s.length (s ++ t) = openTail t := by
  induction s with
  | nil => rfl
  | cons c cs ih => exact ih

theorem literalsFrom_gap {c : Char} (hc : isQuote c = false) (offset : Nat) (cs : Text) :
    literalsFrom offset 0 (c :: cs) = literalsFrom (offset + 1) 0 cs := by
  simp only [literalsFrom, hc, Bool.false_eq_true, if_false]

theorem openTail_gap {c : Char} (hc : isQuote c = false) (cs : Text) :
    openTail (c :: cs) = openTail cs := by
  simp only [openTail, openTailFrom, hc, Bool.false_eq_true, if_false]

/-- The characters of a literal with a quote. -/
def enclosed (quote : Char) (inner : Text) : Text := quote :: (inner ++ [quote])

theorem enclosed_append (quote : Char) (inner rest : Text) :
    enclosed quote inner ++ rest = quote :: (inner ++ quote :: rest) := by
  simp [enclosed]

theorem length_enclosed (quote : Char) (inner : Text) :
    (enclosed quote inner).length = inner.length + 2 := by
  simp [enclosed]

theorem literalsFrom_literal {q : Char} {inner : Text} (hq : isQuote q = true)
    (hcloses : Closes q inner) (offset : Nat) (rest : Text) :
    literalsFrom offset 0 (enclosed q inner ++ rest) =
      ⟨offset, q, inner⟩ :: literalsFrom (offset + (enclosed q inner).length) 0 rest := by
  have hskip := literalsFrom_skip (offset + 1) (inner ++ [q]) rest
  simp only [List.length_append, List.length_singleton, List.append_assoc,
    List.singleton_append] at hskip
  rw [enclosed_append, length_enclosed]
  simp only [literalsFrom, hq, if_true, hcloses rest, hskip]
  congr 2
  omega

theorem openTail_literal {q : Char} {inner : Text} (hq : isQuote q = true)
    (hcloses : Closes q inner) (rest : Text) :
    openTail (enclosed q inner ++ rest) = openTail rest := by
  have hskip := openTailFrom_skip (inner ++ [q]) rest
  simp only [List.length_append, List.length_singleton, List.append_assoc,
    List.singleton_append] at hskip
  rw [enclosed_append, openTail]
  simp only [openTailFrom, hq, if_true, hcloses rest, hskip]

theorem literalsFrom_unclosed {q : Char} {cs : Text} (hq : isQuote q = true)
    (hclose : close? q cs = none) (offset : Nat) : literalsFrom offset 0 (q :: cs) = [] := by
  simp only [literalsFrom, hq, if_true, hclose]

theorem openTail_unclosed {q : Char} {cs : Text} (hq : isQuote q = true)
    (hclose : close? q cs = none) : openTail (q :: cs) = q :: cs := by
  simp only [openTail, openTailFrom, hq, if_true, hclose]

/-- Along a text as the search takes it: a character outside literals, a literal, or a quote that
nothing closes. -/
theorem literal_induction {motive : Text → Prop} (nil : motive [])
    (gap : ∀ c cs, isQuote c = false → motive cs → motive (c :: cs))
    (literal : ∀ q inner rest, isQuote q = true → Closes q inner → motive rest →
      motive (enclosed q inner ++ rest))
    (unclosed : ∀ q cs, isQuote q = true → close? q cs = none → motive (q :: cs))
    (s : Text) : motive s := by
  induction hn : s.length using Nat.strongRecOn generalizing s with
  | ind n ih =>
    cases s with
    | nil => exact nil
    | cons c cs =>
      rw [List.length_cons] at hn
      cases hc : isQuote c with
      | false => exact gap c cs hc (ih cs.length (by omega) cs rfl)
      | true =>
        cases hclose : close? c cs with
        | none => exact unclosed c cs hc hclose
        | some found =>
          obtain ⟨inner, rest⟩ := found
          have hcs := close?_eq hclose
          have hlength := congrArg List.length hcs
          rw [List.length_append, List.length_cons] at hlength
          have hrest := literal c inner rest hc
            (closes_of_close? (isQuote_ne_backslash hc) hclose) (ih rest.length (by omega) rest rfl)
          rwa [enclosed_append, ← hcs] at hrest

/-! ## Whole texts -/

theorem whole_nil : Whole [] := rfl

/-- Behind a whole text the search begins anew. -/
theorem Whole.openTail_append {x : Text} (h : Whole x) (y : Text) :
    openTail (x ++ y) = openTail y := by
  induction x using literal_induction with
  | nil => rfl
  | gap c cs hc ih =>
    rw [Whole, openTail_gap hc] at h
    rw [List.cons_append, openTail_gap hc, ih h]
  | literal q inner rest hq hcloses ih =>
    rw [Whole, openTail_literal hq hcloses] at h
    rw [List.append_assoc, openTail_literal hq hcloses, ih h]
  | unclosed q cs hq hclose =>
    rw [Whole, openTail_unclosed hq hclose] at h
    cases h

theorem Whole.literalsFrom_append {x : Text} (h : Whole x) (offset : Nat) (y : Text) :
    literalsFrom offset 0 (x ++ y) =
      literalsFrom offset 0 x ++ literalsFrom (offset + x.length) 0 y := by
  induction x using literal_induction generalizing offset with
  | nil => rfl
  | gap c cs hc ih =>
    rw [Whole, openTail_gap hc] at h
    rw [List.cons_append, literalsFrom_gap hc, literalsFrom_gap hc, ih h, List.length_cons,
      Nat.add_assoc, Nat.add_comm 1]
  | literal q inner rest hq hcloses ih =>
    rw [Whole, openTail_literal hq hcloses] at h
    rw [List.append_assoc, literalsFrom_literal hq hcloses, literalsFrom_literal hq hcloses, ih h,
      List.cons_append, List.length_append, Nat.add_assoc]
  | unclosed q cs hq hclose =>
    rw [Whole, openTail_unclosed hq hclose] at h
    cases h

theorem Whole.append {x y : Text} (hx : Whole x) (hy : Whole y) : Whole (x ++ y) :=
  (hx.openTail_append y).trans hy

/-- What a whole text leaves of a whole text is whole. -/
theorem Whole.of_append {x y : Text} (h : Whole (x ++ y)) (hx : Whole x) : Whole y :=
  (hx.openTail_append y).symm.trans h

theorem whole_enclosed {q : Char} {inner : Text} (hq : isQuote q = true) (h : Closes q inner) :
    Whole (enclosed q inner) := by
  have htail := openTail_literal hq h []
  rwa [List.append_nil] at htail

/-- A text without quotes holds no literal. -/
theorem whole_of_no_quote {s : Text} (h : ∀ c ∈ s, isQuote c = false) :
    Whole s ∧ ∀ offset, literalsFrom offset 0 s = [] := by
  induction s with
  | nil => exact ⟨rfl, fun _ => rfl⟩
  | cons c cs ih =>
    obtain ⟨hwhole, hnone⟩ := ih fun d hd => h d (List.mem_cons_of_mem _ hd)
    have hc := h c List.mem_cons_self
    exact ⟨(openTail_gap hc cs).trans hwhole, fun offset => (literalsFrom_gap hc offset cs).trans
      (hnone _)⟩

/-- Characters that are no quotes do not close a literal. -/
theorem Whole.of_append_no_quote {x y : Text} (h : Whole (x ++ y)) (hy : ∀ c ∈ y, isQuote c = false) :
    Whole x := by
  induction x using literal_induction with
  | nil => exact whole_nil
  | gap c cs hc ih =>
    rw [List.cons_append, Whole, openTail_gap hc] at h
    exact (openTail_gap hc cs).trans (ih h)
  | literal q inner rest hq hcloses ih =>
    rw [List.append_assoc, Whole, openTail_literal hq hcloses] at h
    exact (openTail_literal hq hcloses rest).trans (ih h)
  | unclosed q cs hq hclose =>
    rw [List.cons_append, Whole] at h
    cases hlonger : close? q (cs ++ y) with
    | none =>
      rw [openTail_unclosed hq hlonger] at h
      cases h
    | some found =>
      -- the quote that closes stands among the characters before `y`
      obtain ⟨inner, rest⟩ := found
      obtain ⟨a, hinner, hy'⟩ | ⟨a, hcs, hrest⟩ := List.append_eq_append_iff.mp (close?_eq hlonger)
      · have hmem : q ∈ y := by
          rw [hy']
          exact List.mem_append_right _ List.mem_cons_self
        rw [hy q hmem] at hq
        cases hq
      · cases a with
        | nil =>
          have hmem : q ∈ y := by
            rw [List.nil_append] at hrest
            exact hrest ▸ List.mem_cons_self
          rw [hy q hmem] at hq
          cases hq
        | cons c a =>
          obtain ⟨rfl, -⟩ := List.cons.inj hrest
          have hcloses := closes_of_close? (isQuote_ne_backslash hq) hlonger
          rw [hcs, hcloses] at hclose
          cases hclose

/-- The search from another offset finds the same literals there. -/
def Literal.shift (offset : Nat) (l : Literal) : Literal := { l with start := offset + l.start }

theorem literalsFrom_add (m offset : Nat) (s : Text) :
    literalsFrom (m + offset) 0 s = (literalsFrom offset 0 s).map (.shift m) := by
  induction s using literal_induction generalizing offset with
  | nil => rfl
  | gap c cs hc ih => rw [literalsFrom_gap hc, literalsFrom_gap hc, Nat.add_assoc, ih]
  | literal q inner rest hq hcloses ih =>
    rw [literalsFrom_literal hq hcloses, literalsFrom_literal hq hcloses, Nat.add_assoc, ih]
    rfl
  | unclosed q cs hq hclose =>
    rw [literalsFrom_unclosed hq hclose, literalsFrom_unclosed hq hclose]
    rfl

theorem literalsFrom_eq_shift (offset : Nat) (s : Text) :
    literalsFrom offset 0 s = (literals s).map (.shift offset) :=
  literalsFrom_add offset 0 s

/-- The literals of two whole texts and of what stands behind them. -/
theorem literals_append {x y : Text} (hx : Whole x) (hy : Whole y) (z : Text) :
    literals (x ++ (y ++ z)) = literals x ++ ((literals y).map (.shift x.length) ++
      (literals z).map (.shift (x.length + y.length))) := by
  rw [literals, hx.literalsFrom_append, hy.literalsFrom_append, Nat.zero_add,
    literalsFrom_eq_shift x.length, literalsFrom_eq_shift (x.length + y.length)]
  rfl

/-- The beginning of a text up to a literal is whole, and so is that with the literal. -/
theorem whole_take_of_mem {s : Text} {offset : Nat} {l : Literal} (h : l ∈ literalsFrom offset 0 s) :
    isQuote l.quote = true ∧ Whole (s.take (l.start - offset)) ∧
      s.take (l.stop - offset) = s.take (l.start - offset) ++ enclosed l.quote l.inner ∧
      Closes l.quote l.inner := by
  induction s using literal_induction generalizing offset with
  | nil => cases h
  | gap c cs hc ih =>
    rw [literalsFrom_gap hc] at h
    have hbounds := (bounds_of_mem_literalsFrom h).1
    obtain ⟨hq, hwhole, htake, hcloses⟩ := ih h
    have hlt := l.start_lt_stop
    rw [show l.start - offset = l.start - (offset + 1) + 1 by omega,
      show l.stop - offset = l.stop - (offset + 1) + 1 by omega, List.take_succ_cons,
      List.take_succ_cons, htake]
    exact ⟨hq, (openTail_gap hc _).trans hwhole, rfl, hcloses⟩
  | literal q inner rest hq hcloses ih =>
    rw [literalsFrom_literal hq hcloses] at h
    rcases List.mem_cons.mp h with rfl | h
    · have hstop : offset + inner.length + 2 - offset = (enclosed q inner).length := by
        rw [length_enclosed]
        omega
      refine ⟨hq, ?_, ?_, hcloses⟩
      · rw [Nat.sub_self]
        exact whole_nil
      · simp only [Literal.stop, hstop, Nat.sub_self, List.take_zero, List.nil_append,
          List.take_left]
    · have hbounds := (bounds_of_mem_literalsFrom h).1
      obtain ⟨hq', hwhole, htake, hcloses'⟩ := ih h
      have hlt := l.start_lt_stop
      rw [show l.start - offset = (enclosed q inner).length +
          (l.start - (offset + (enclosed q inner).length)) by omega,
        show l.stop - offset = (enclosed q inner).length +
          (l.stop - (offset + (enclosed q inner).length)) by omega,
        List.take_length_add_append, List.take_length_add_append, htake, List.append_assoc]
      exact ⟨hq', (whole_enclosed hq hcloses).append hwhole, rfl, hcloses'⟩
  | unclosed q cs hq hclose =>
    rw [literalsFrom_unclosed hq hclose] at h
    cases h

/-! ## Whole parts replaced by whole texts -/

/-- Where an offset of a call lies when spans are replaced: behind what becomes of the call before
it. -/
def movedTo (rs : List Replacement) (source : Text) (offset : Nat) : Nat :=
  (Text.replaceSpans rs (source.take offset)).length

/-- The literal lies in one of the spans. -/
def inSpan (rs : List Replacement) (l : Literal) : Bool :=
  rs.any fun r => r.start ≤ l.start && l.stop ≤ r.stop

/-- The literals in no span, where they lie when the spans are replaced. -/
def keptLiterals (rs : List Replacement) (source : Text) : List Literal :=
  ((literals source).filter fun l => !inSpan rs l).map fun l =>
    { l with start := movedTo rs source l.start }

/-- The literals of the new texts, where these are written. -/
def newLiterals (rs : List Replacement) (source : Text) : List Literal :=
  rs.flatMap fun r => (literals r.text).map (.shift (movedTo rs source r.start))

/-- A replacement of a part of a call by a whole text, with whole texts before and behind the part's
first character. -/
structure Seamless (source : Text) (r : Replacement) : Prop where
  start_lt_stop : r.start < r.stop
  stop_le : r.stop ≤ source.length
  front : Whole (source.take r.start)
  back : Whole (source.take r.stop)
  text : Whole r.text

/-- A call split at its last span. -/
structure LastSpan (r : Replacement) (rs : List Replacement) (before span behind : Text) : Prop where
  start_eq : r.start = before.length
  stop_eq : r.stop = before.length + span.length
  nonempty : span ≠ []
  ahead : ∀ r' ∈ rs, r'.start < r'.stop ∧ r'.stop ≤ before.length

namespace LastSpan

variable {r : Replacement} {rs : List Replacement} {before span behind : Text}

theorem start_lt_stop (h : LastSpan r rs before span behind) : r.start < r.stop := by
  have hlength := List.length_pos_iff.mpr h.nonempty
  have hstart := h.start_eq
  have hstop := h.stop_eq
  omega

theorem replaceSpans_eq (h : LastSpan r rs before span behind) :
    Text.replaceSpans (r :: rs) (before ++ (span ++ behind)) =
      Text.replaceSpans rs before ++ (r.text ++ behind) :=
  Text.replaceSpans_cons_last h.start_eq h.stop_eq h.nonempty h.ahead

theorem movedTo_before (h : LastSpan r rs before span behind) {offset : Nat}
    (hoffset : offset ≤ before.length) :
    movedTo (r :: rs) (before ++ (span ++ behind)) offset = movedTo rs before offset := by
  have houtside : 0 + (before.take offset).length ≤ r.start := by
    rw [List.length_take, h.start_eq]
    omega
  rw [movedTo, List.take_append_of_le_length hoffset, Text.replaceSpans,
    Text.replaceSpansFrom_cons_outside h.start_lt_stop (Or.inr houtside)]
  rfl

theorem movedTo_span (h : LastSpan r rs before span behind) :
    movedTo (r :: rs) (before ++ (span ++ behind)) r.start =
      (Text.replaceSpans rs before).length := by
  rw [h.movedTo_before (Nat.le_of_eq h.start_eq), movedTo, h.start_eq, List.take_length]

theorem movedTo_behind (h : LastSpan r rs before span behind) (offset : Nat) :
    movedTo (r :: rs) (before ++ (span ++ behind)) (before.length + span.length + offset) =
      (Text.replaceSpans rs before).length + (r.text.length + (behind.take offset).length) := by
  have hcut : LastSpan r rs before span (behind.take offset) :=
    ⟨h.start_eq, h.stop_eq, h.nonempty, h.ahead⟩
  rw [movedTo, Nat.add_assoc, List.take_length_add_append, List.take_length_add_append,
    hcut.replaceSpans_eq, List.length_append, List.length_append]

theorem inSpan_before (h : LastSpan r rs before span behind) {l : Literal}
    (hl : l ∈ literals before) : inSpan (r :: rs) l = inSpan rs l := by
  have hstop := stop_le_of_mem_literals hl
  have hstart := l.start_lt_stop
  have hout : (decide (r.start ≤ l.start) && decide (l.stop ≤ r.stop)) = false := by
    rw [h.start_eq, Bool.and_eq_false_iff, decide_eq_false_iff_not]
    omega
  rw [inSpan, List.any_cons, hout, Bool.false_or, inSpan]

theorem inSpan_within (h : LastSpan r rs before span behind) {l : Literal} (hl : l ∈ literals span) :
    inSpan (r :: rs) (.shift before.length l) = true := by
  have hstop := stop_le_of_mem_literals hl
  simp only [inSpan, List.any_cons, Literal.shift, Literal.stop, h.start_eq, h.stop_eq,
    Bool.or_eq_true, Bool.and_eq_true, decide_eq_true_eq] at hstop ⊢
  omega

theorem inSpan_behind (h : LastSpan r rs before span behind) (l : Literal) :
    inSpan (r :: rs) (.shift (before.length + span.length) l) = false := by
  rw [inSpan, List.any_eq_false]
  intro r' hr' hboth
  have hstop : r'.stop ≤ before.length + span.length := by
    rcases List.mem_cons.mp hr' with rfl | hr'
    · exact Nat.le_of_eq h.stop_eq
    · exact Nat.le_trans (h.ahead r' hr').2 (Nat.le_add_right _ _)
  have hle := of_decide_eq_true (Bool.and_eq_true_iff.mp hboth).2
  simp only [Literal.shift, Literal.stop] at hle
  omega

/-- What stands before the last span is kept as if the call ended there; what stands in it is not
kept, and what stands behind it is. -/
theorem keptLiterals_eq (h : LastSpan r rs before span behind) (hbefore : Whole before)
    (hspan : Whole span) :
    keptLiterals (r :: rs) (before ++ (span ++ behind)) = keptLiterals rs before ++
      (literals behind).map (.shift ((Text.replaceSpans rs before).length + r.text.length)) := by
  have hnone : ((literals span).map (.shift before.length)).filter
      (fun l => !inSpan (r :: rs) l) = [] := by
    rw [List.filter_eq_nil_iff]
    intro l hl
    obtain ⟨l', hl', rfl⟩ := List.mem_map.mp hl
    rw [h.inSpan_within hl']
    decide
  have hall : ((literals behind).map (.shift (before.length + span.length))).filter
      (fun l => !inSpan (r :: rs) l) =
        (literals behind).map (.shift (before.length + span.length)) := by
    rw [List.filter_eq_self]
    intro l hl
    obtain ⟨l, hl, rfl⟩ := List.mem_map.mp hl
    rw [h.inSpan_behind l]
    rfl
  have hsame : (literals before).filter (fun l => !inSpan (r :: rs) l) =
      (literals before).filter fun l => !inSpan rs l :=
    List.filter_congr fun l hl => by rw [h.inSpan_before hl]
  rw [keptLiterals, literals_append hbefore hspan, List.filter_append, List.filter_append, hnone, hall, hsame,
    List.nil_append, List.map_append, List.map_map, keptLiterals]
  congr 1
  · refine List.map_congr_left ?_
    intro l hl
    have hstop := stop_le_of_mem_literals (List.mem_filter.mp hl).1
    have hstart := l.start_lt_stop
    rw [h.movedTo_before (by omega)]
  · refine List.map_congr_left ?_
    intro l hl
    have hstop := stop_le_of_mem_literals hl
    have hstart := l.start_lt_stop
    have htake : (behind.take l.start).length = l.start := by
      rw [List.length_take]
      omega
    simp only [Function.comp_apply, Literal.shift]
    rw [h.movedTo_behind, htake, Nat.add_assoc]

theorem newLiterals_eq (h : LastSpan r rs before span behind) :
    newLiterals (r :: rs) (before ++ (span ++ behind)) =
      (literals r.text).map (.shift (Text.replaceSpans rs before).length) ++
        newLiterals rs before := by
  rw [newLiterals, List.flatMap_cons, h.movedTo_span, newLiterals]
  congr 1
  rw [List.flatMap_def, List.flatMap_def]
  refine congrArg List.flatten (List.map_congr_left ?_)
  intro r' hr'
  obtain ⟨hlt, hstop⟩ := h.ahead r' hr'
  rw [h.movedTo_before (by omega)]

end LastSpan

/-- The part before the last span, with the spans in it, is as good as the whole call. -/
theorem Seamless.take {source : Text} {r : Replacement} (h : Seamless source r) {n : Nat}
    (hn : r.stop ≤ n) (hlength : n ≤ source.length) : Seamless (source.take n) r := by
  have hlt := h.start_lt_stop
  refine ⟨hlt, ?_, ?_, ?_, h.text⟩
  · rw [List.length_take]
    omega
  · rw [List.take_take, Nat.min_eq_left (by omega)]
    exact h.front
  · rw [List.take_take, Nat.min_eq_left hn]
    exact h.back

/-- A call split at the last of the spans that are replaced. -/
theorem Seamless.exists_lastSpan {r : Replacement} {rs : List Replacement} {source : Text}
    (seamless : ∀ r' ∈ r :: rs, Seamless source r') (order : ∀ r' ∈ rs, r'.stop ≤ r.start) :
    ∃ before span behind, source = before ++ (span ++ behind) ∧ LastSpan r rs before span behind ∧
      Whole before ∧ Whole span ∧ ∀ r' ∈ rs, Seamless before r' := by
  have hr := seamless r List.mem_cons_self
  have hlt := hr.start_lt_stop
  have hle := hr.stop_le
  let before : Text := source.take r.start
  let span : Text := (source.take r.stop).drop r.start
  have hlength : before.length = r.start := by
    rw [List.length_take]
    omega
  have hspanLength : span.length = r.stop - r.start := by
    rw [List.length_drop, List.length_take]
    omega
  have htake : before ++ span = source.take r.stop := by
    have hcut := List.take_append_drop r.start (source.take r.stop)
    rwa [List.take_take, Nat.min_eq_left (Nat.le_of_lt hlt)] at hcut
  have hinner : ∀ r' ∈ rs, Seamless before r' := fun r' hr' =>
    (seamless r' (List.mem_cons_of_mem _ hr')).take (order r' hr') (by omega)
  have hboth : Whole (before ++ span) := by
    rw [htake]
    exact hr.back
  refine ⟨before, span, source.drop r.stop, ?_, ?_, hr.front, hboth.of_append hr.front, hinner⟩
  · rw [← List.append_assoc, htake, List.take_append_drop]
  · exact ⟨hlength.symm, by omega, List.length_pos_iff.mp (by omega), fun r' hr' =>
      ⟨(hinner r' hr').start_lt_stop, by rw [hlength]; exact order r' hr'⟩⟩

theorem keptLiterals_nil (source : Text) : keptLiterals [] source = literals source := by
  have hmoved : ∀ l ∈ literals source, movedTo [] source l.start = l.start := by
    intro l hl
    have hstop := stop_le_of_mem_literals hl
    have hstart := l.start_lt_stop
    rw [movedTo, Text.replaceSpans_nil, List.length_take]
    omega
  have hall : (literals source).filter (fun l => !inSpan [] l) = literals source :=
    List.filter_eq_self.mpr fun _ _ => rfl
  rw [keptLiterals, hall]
  exact (List.map_congr_left fun l hl => by rw [hmoved l hl, id]).trans (List.map_id _)

/-- **What is found in a call after whole parts of it were replaced by whole texts**: the literals
outside the spans and those of the new texts, and the same rest without an end. The spans are listed
from right to left. -/
theorem search_replaceSpans {rs : List Replacement} {source : Text}
    (seamless : ∀ r ∈ rs, Seamless source r)
    (order : rs.Pairwise fun a b => b.stop ≤ a.start) :
    openTail (Text.replaceSpans rs source) = openTail source ∧
      (literals (Text.replaceSpans rs source)).Perm
        (keptLiterals rs source ++ newLiterals rs source) := by
  induction rs generalizing source with
  | nil =>
    rw [Text.replaceSpans_nil, keptLiterals_nil, newLiterals, List.flatMap_nil, List.append_nil]
    exact ⟨rfl, List.Perm.refl _⟩
  | cons r rs ih =>
    obtain ⟨hahead, horder⟩ := List.pairwise_cons.mp order
    have hr := seamless r List.mem_cons_self
    obtain ⟨before, span, behind, rfl, hlast, hbefore, hspan, hinner⟩ :=
      Seamless.exists_lastSpan seamless hahead
    obtain ⟨htail, hperm⟩ := ih hinner horder
    have hnew : Whole (Text.replaceSpans rs before) := htail.trans hbefore
    rw [hlast.replaceSpans_eq, hlast.keptLiterals_eq hbefore hspan, hlast.newLiterals_eq]
    refine ⟨?_, ?_⟩
    · rw [hnew.openTail_append, hr.text.openTail_append, hbefore.openTail_append,
        hspan.openTail_append]
    · rw [literals_append hnew hr.text]
      refine (hperm.append_right _).trans ?_
      rw [List.append_assoc, List.append_assoc]
      refine List.Perm.append_left _ ?_
      rw [← List.append_assoc]
      exact List.perm_append_comm.trans (List.perm_append_comm.append_left _)

/-- Literals of a call that are listed in any order stand in the order of their starts. -/
theorem literals_eq_mergeSort {source : Text} {ls : List Literal} (perm : (literals source).Perm ls) :
    literals source = ls.mergeSort fun a b => a.start ≤ b.start := by
  have hordered : (literals source).Pairwise fun a b => a.start ≤ b.start :=
    (literals_pairwise source).imp fun {a b} h => Nat.le_trans (Nat.le_of_lt a.start_lt_stop) h
  have hsorted : (ls.mergeSort fun a b => a.start ≤ b.start).Pairwise
      fun a b => a.start ≤ b.start := by
    refine (List.pairwise_mergeSort ?_ ?_ ls).imp of_decide_eq_true
    · intro a b c hab hbc
      simp only [decide_eq_true_eq] at *
      omega
    · intro a b
      simp only [Bool.or_eq_true, decide_eq_true_eq]
      omega
  refine List.Perm.eq_of_pairwise ?_ hordered hsorted (perm.trans (List.mergeSort_perm _ _).symm)
  intro a b ha hb hab hba
  have hstarts : ((literals source).map (·.start)).Nodup :=
    List.pairwise_map.mpr <| (literals_pairwise source).imp fun {a b} h =>
      Nat.ne_of_lt (Nat.lt_of_lt_of_le a.start_lt_stop h)
  exact List.inj_on_of_nodup_map hstarts ha (perm.mem_iff.mpr (List.mem_mergeSort.mp hb))
    (Nat.le_antisymm hab hba)

section Order

variable {rs rs' : List Replacement} (perm : rs.Perm rs') (hsize : ∀ r ∈ rs, r.start < r.stop)
  (hapart : rs.Pairwise Replacement.Apart)

include perm hsize hapart

theorem movedTo_perm (source : Text) (offset : Nat) :
    movedTo rs source offset = movedTo rs' source offset := by
  rw [movedTo, movedTo, Text.replaceSpans, Text.replaceSpans,
    Text.replaceSpansFrom_perm perm hsize hapart]

theorem keptLiterals_perm (source : Text) : keptLiterals rs source = keptLiterals rs' source := by
  have hspans : ∀ l : Literal, inSpan rs l = inSpan rs' l := fun l => perm.any_eq
  simp only [keptLiterals, hspans, movedTo_perm perm hsize hapart]

theorem newLiterals_perm (source : Text) :
    (newLiterals rs source).Perm (newLiterals rs' source) := by
  simp only [newLiterals, movedTo_perm perm hsize hapart]
  exact perm.flatMap_right _

end Order

/-- **The literals of a call after whole parts of it were replaced by whole texts**, in order: those
outside the spans, moved, and those of the new texts. The rest without an end stays. -/
theorem literals_replaceSpans {rs sorted : List Replacement} {source : Text}
    (perm : sorted.Perm rs) (order : sorted.Pairwise fun a b => b.stop ≤ a.start)
    (seamless : ∀ r ∈ rs, Seamless source r) :
    literals (Text.replaceSpans rs source) =
        (keptLiterals rs source ++ newLiterals rs source).mergeSort (fun a b => a.start ≤ b.start) ∧
      openTail (Text.replaceSpans rs source) = openTail source := by
  have hseamless : ∀ r ∈ sorted, Seamless source r := fun r hr => seamless r (perm.mem_iff.mp hr)
  have hsize : ∀ r ∈ sorted, r.start < r.stop := fun r hr => (hseamless r hr).start_lt_stop
  have hapart : sorted.Pairwise Replacement.Apart := order.imp Or.inr
  obtain ⟨htail, hfound⟩ := search_replaceSpans hseamless order
  rw [Text.replaceSpans, Text.replaceSpansFrom_perm perm hsize hapart] at htail hfound
  rw [keptLiterals_perm perm hsize hapart] at hfound
  exact ⟨literals_eq_mergeSort (hfound.trans <|
    (newLiterals_perm perm hsize hapart source).append_left _), htail⟩

end ScriptCall

end GameText
