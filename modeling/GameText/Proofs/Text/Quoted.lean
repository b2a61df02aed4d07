import GameText.Proofs.Text.Lines
import GameText.Proofs.Text.Pieces
import GameText.Text.Quoted

/-!
# Literals that close by themselves

A literal is closed by its own characters: whatever follows it, it is recognised again with the same
characters (`Quoted.Closed`). A text written between two quotes is one (`closed_write`), whatever
characters it has, and so is every literal of a line (`closed_of_token_mem`). A character that is no
quote begins no literal, so a line up to a place where no quote is loose is cut the same way
whatever follows (`Settled.firm`).

Which texts are written between quotes as they are is decided by their characters
(`escape_eq_self_iff`).
-/

namespace GameText

namespace Quoted

/-- A character that opens and closes literals. -/
def IsQuote (c : Char) : Prop := c = '"' ∨ c = '\''

instance (c : Char) : Decidable (IsQuote c) := inferInstanceAs (Decidable (_ ∨ _))

theorem isQuote_iff (c : Char) : (decide (c = '"') || decide (c = '\'')) = true ↔ IsQuote c := by
  rw [Bool.or_eq_true, decide_eq_true_eq, decide_eq_true_eq, IsQuote]

theorem IsQuote.ne_backslash {q : Char} (h : IsQuote q) : q ≠ '\\' := by
  rcases h with rfl | rfl <;> decide

theorem IsQuote.ne_cr {q : Char} (h : IsQuote q) : q ≠ '\r' := by
  rcases h with rfl | rfl <;> decide

theorem IsQuote.ne_newline {q : Char} (h : IsQuote q) : q ≠ '\n' := by
  rcases h with rfl | rfl <;> decide

/-! ## Where a literal closes -/

/-- The inside of a literal ends with its closing quote, and the rest follows it. -/
theorem close?_eq {quote : Char} {s inside rest : Text} (h : close? quote s = some (inside, rest)) :
    s = inside ++ rest ∧ ∃ body, inside = body ++ [quote] := by
  fun_induction close? quote s generalizing inside rest with
  | case1 => cases h
  | case2 => cases h
  | case3 => cases h
  | case4 c cs _ ih =>
    obtain ⟨⟨inside', rest'⟩, hclose, heq⟩ := Option.map_eq_some_iff.mp h
    cases heq
    obtain ⟨hsplit, body, hbody⟩ := ih hclose
    exact ⟨by rw [hsplit]; rfl, '\\' :: c :: body, by rw [hbody]; rfl⟩
  | case5 cs =>
    cases h
    exact ⟨rfl, [], rfl⟩
  | case6 c cs _ _ _ ih =>
    obtain ⟨⟨inside', rest'⟩, hclose, heq⟩ := Option.map_eq_some_iff.mp h
    cases heq
    obtain ⟨hsplit, body, hbody⟩ := ih hclose
    exact ⟨by rw [hsplit]; rfl, c :: body, by rw [hbody]; rfl⟩

theorem close?_backslash {quote c : Char} (hc : c ≠ '\n') (cs : Text) :
    close? quote ('\\' :: c :: cs) =
      (close? quote cs).map fun (inside, rest) => ('\\' :: c :: inside, rest) := by
  rw [close?, if_neg hc]

theorem close?_quote {quote : Char} (hq : quote ≠ '\\') (cs : Text) :
    close? quote (quote :: cs) = some ([quote], cs) := by
  rw [close?, if_pos rfl] <;> simp only [hq, false_imp_iff, implies_true]

theorem close?_plain {quote c : Char} (hc : c ≠ '\\') (hq : c ≠ quote) (cs : Text) :
    close? quote (c :: cs) = (close? quote cs).map fun (inside, rest) => (c :: inside, rest) := by
  rw [close?, if_neg hq] <;> simp only [hc, false_imp_iff, implies_true]

/-- What follows a literal plays no part in where it closes. -/
theorem close?_append {quote : Char} {s inside rest : Text}
    (h : close? quote s = some (inside, rest)) (after : Text) :
    close? quote (inside ++ after) = some (inside, after) := by
  fun_induction close? quote s generalizing inside rest with
  | case1 => cases h
  | case2 => cases h
  | case3 => cases h
  | case4 c cs hc ih =>
    obtain ⟨⟨inside', rest'⟩, hclose, heq⟩ := Option.map_eq_some_iff.mp h
    cases heq
    rw [List.cons_append, List.cons_append, close?_backslash hc, ih hclose]
    rfl
  | case5 cs hbare hlone =>
    cases h
    rw [List.cons_append, List.nil_append]
    refine close?_quote ?_ after
    rintro rfl
    cases cs with
    | nil => exact hbare rfl rfl
    | cons c cs => exact hlone c cs rfl rfl
  | case6 c cs hbare hlone hq ih =>
    obtain ⟨⟨inside', rest'⟩, hclose, heq⟩ := Option.map_eq_some_iff.mp h
    cases heq
    have hc : c ≠ '\\' := by
      rintro rfl
      cases cs with
      | nil => exact hbare rfl rfl
      | cons d ds => exact hlone d ds rfl rfl
    rw [List.cons_append, close?_plain hc hq, ih hclose]
    rfl

/-! ## Literals -/

theorem literal?_of_quote {q : Char} (hq : IsQuote q) (before : Option Char) (cs : Text) :
    literal? before (q :: cs) =
      (close? q cs).map fun (inside, rest) => (q :: inside, rest) := by
  rw [literal?, if_pos ((isQuote_iff q).mpr hq)]

/-- A character that is no quote begins no literal. -/
theorem literal?_of_not_quote {c : Char} (hc : ¬ IsQuote c) (before : Option Char) (cs : Text) :
    literal? before (c :: cs) = none := by
  rw [literal?, if_neg (mt (isQuote_iff c).mp hc)]

/-- A text that is recognised as one literal, whatever follows it. -/
def Closed (t : Text) : Prop :=
  ∃ q inside, IsQuote q ∧ t = q :: inside ∧
    ∀ after, close? q (inside ++ after) = some (inside, after)

theorem Closed.ne_nil {t : Text} (h : Closed t) : t ≠ [] := by
  obtain ⟨q, inside, -, rfl, -⟩ := h
  exact List.cons_ne_nil _ _

theorem Closed.literal?_append {t : Text} (h : Closed t) (before : Option Char) (after : Text) :
    literal? before (t ++ after) = some (t, after) := by
  obtain ⟨q, inside, hq, rfl, hclose⟩ := h
  rw [List.cons_append, literal?_of_quote hq, hclose]
  rfl

/-- What is recognised as a literal is closed and stands in front of the rest. -/
theorem closed_of_literal? {before : Option Char} {s value rest : Text}
    (h : literal? before s = some (value, rest)) : Closed value ∧ s = value ++ rest := by
  cases s with
  | nil => cases h
  | cons q cs =>
    by_cases hq : IsQuote q
    · rw [literal?_of_quote hq] at h
      obtain ⟨⟨inside, rest'⟩, hclose, heq⟩ := Option.map_eq_some_iff.mp h
      cases heq
      refine ⟨⟨q, inside, hq, rfl, close?_append hclose⟩, ?_⟩
      rw [List.cons_append, ← (close?_eq hclose).1]
    · rw [literal?_of_not_quote hq] at h
      cases h

theorem literal?_cuts : Recognizer.Cuts literal? := fun _ _ value _ h =>
  ⟨value, (closed_of_literal? h).1.ne_nil, (closed_of_literal? h).2⟩

theorem literal?_blind : Recognizer.Blind literal? := fun before before' s => by
  cases s <;> rfl

/-- The tokens of a line are closed literals, and each is what was recognised. -/
theorem closed_of_token_mem {before : Option Char} {s value raw : Text}
    (h : .token value raw ∈ piecesFrom literal? before s) : Closed raw ∧ value = raw := by
  obtain ⟨-, before', rest, hrec⟩ := recognized_of_token_mem literal?_cuts h
  obtain ⟨hclosed, hsplit⟩ := closed_of_literal? hrec
  obtain rfl : raw = value := List.append_cancel_right hsplit
  exact ⟨hclosed, rfl⟩

/-- A closed literal has a quote at each end. -/
theorem Closed.eq_inner {t : Text} (h : Closed t) :
    ∃ q, IsQuote q ∧ t.take 1 = [q] ∧ t = [q] ++ inner t ++ [q] := by
  obtain ⟨q, inside, hq, rfl, hclose⟩ := h
  obtain ⟨-, body, hbody⟩ := close?_eq (hclose [])
  refine ⟨q, hq, rfl, ?_⟩
  rw [hbody, inner, List.drop_succ_cons, List.drop_zero, List.dropLast_concat]
  rfl

/-! ## Bodies of literals -/

/-- A character that can stand on both sides of a literal. -/
def Encloses (q : Char) : Prop := q ≠ '\\' ∧ ¬ Text.EndsLine q

theorem IsQuote.encloses {q : Char} (h : IsQuote q) : Encloses q :=
  ⟨h.ne_backslash, fun hline => hline.elim h.ne_newline h.ne_cr⟩

/-- What can stand on one line between two quotes: characters that need no protection, and
backslashes, each with the character that it protects. -/
inductive Body (q : Char) : Text → Prop
  | nil : Body q []
  | plain {c : Char} {t : Text} (hslash : c ≠ '\\') (hquote : c ≠ q) (hline : ¬ Text.EndsLine c)
      (rest : Body q t) : Body q (c :: t)
  | pair {c : Char} {t : Text} (hline : ¬ Text.EndsLine c) (rest : Body q t) :
      Body q ('\\' :: c :: t)

/-- **What is written for a text is a body**, whatever characters the text has. -/
theorem body_escape {q : Char} (hq : Encloses q) (t : Text) : Body q (escape [q] t) := by
  have hmark : ∀ c : Char, ¬ (decide (c = '\r') || decide (c = '\n')) = true → ¬ Text.EndsLine c := by
    intro c hbreak hline
    simp only [Bool.or_eq_true, decide_eq_true_eq, not_or] at hbreak
    exact hline.elim hbreak.2 hbreak.1
  have hslash : ¬ Text.EndsLine '\\' := by simp [Text.EndsLine]
  have hletter : ¬ Text.EndsLine 'n' := by simp [Text.EndsLine]
  fun_induction escape [q] t with
  | case1 => exact .nil
  | case2 => exact .pair hslash .nil
  | case3 c cs _ ih => exact .pair hslash ih
  | case4 c cs hbreak ih => exact .pair (hmark c hbreak) ih
  | case5 cs hown => exact absurd (Or.inr (List.cons.inj hown).1.symm) hq.2
  | case6 cs _ ih => exact .pair hletter ih
  | case7 c cs _ _ _ _ ih => exact .pair hq.2 ih
  | case8 c cs _ _ _ _ _ ih => exact .pair hletter ih
  | case9 c cs hbare hlone _ hown hbreak ih =>
    refine .plain ?_ (fun hc => hown (by rw [hc])) (hmark c hbreak) ih
    rintro rfl
    cases cs with
    | nil => exact hbare rfl rfl
    | cons d ds => exact hlone d ds rfl rfl

theorem Body.not_mem {c q : Char} {t : Text} (h : Body q t) (hc : Text.EndsLine c) : c ∉ t := by
  induction h with
  | nil => exact List.not_mem_nil
  | plain _ _ hline _ ih =>
    exact List.not_mem_cons_of_ne_of_not_mem (fun heq => hline (heq ▸ hc)) ih
  | pair hline _ ih =>
    refine List.not_mem_cons_of_ne_of_not_mem ?_
      (List.not_mem_cons_of_ne_of_not_mem (fun heq => hline (heq ▸ hc)) ih)
    rcases hc with rfl | rfl <;> decide

/-- A body closes at the quote behind it. -/
theorem Body.close?_append {q : Char} {t : Text} (h : Body q t) (hq : q ≠ '\\') (after : Text) :
    close? q (t ++ q :: after) = some (t ++ [q], after) := by
  induction h with
  | nil => exact close?_quote hq after
  | plain hslash hquote _ _ ih =>
    rw [List.cons_append, close?_plain hslash hquote, ih]
    rfl
  | pair hline _ ih =>
    rw [List.cons_append, List.cons_append, close?_backslash (fun hc => hline (Or.inl hc)), ih]
    rfl

/-- The inside written for a text closes at its own closing quote. -/
theorem close?_escape {q : Char} (hq : IsQuote q) (t after : Text) :
    close? q (escape [q] t ++ (q :: after)) = some (escape [q] t ++ [q], after) :=
  (body_escape hq.encloses t).close?_append hq.ne_backslash after

/-- **A text written between two quotes is one literal**, whatever characters it has. -/
theorem closed_write {q : Char} (hq : IsQuote q) (t : Text) :
    Closed ([q] ++ escape [q] t ++ [q]) :=
  ⟨q, escape [q] t ++ [q], hq, rfl, fun after => by
    rw [List.append_assoc, List.singleton_append, close?_escape hq]⟩

/-- No character of a terminator is written between quotes. -/
theorem not_mem_escape {c q : Char} (hc : Text.EndsLine c) (hq : Encloses q) (t : Text) :
    c ∉ escape [q] t :=
  (body_escape hq t).not_mem hc

/-! ## Texts that are written as they are -/

theorem escape_backslash {quote c : Char} (hcr : c ≠ '\r') (hline : c ≠ '\n') (cs : Text) :
    escape [quote] ('\\' :: c :: cs) = '\\' :: c :: escape [quote] cs := by
  rw [escape, if_neg (by simp only [hcr, hline, decide_false, Bool.or_false, Bool.false_eq_true,
    not_false_eq_true])]

theorem escape_plain {quote c : Char} (hc : c ≠ '\\') (hq : c ≠ quote) (hcr : c ≠ '\r')
    (hline : c ≠ '\n') (cs : Text) : escape [quote] (c :: cs) = c :: escape [quote] cs := by
  have hown : ¬ [c] = [quote] := fun h => hq (List.cons.inj h).1
  rw [escape, if_neg hown, if_neg (by simp only [hcr, hline, decide_false, Bool.or_false,
    Bool.false_eq_true, not_false_eq_true])] <;>
    simp only [hc, hcr, false_imp_iff, implies_true]

/-- A body escapes to itself. -/
theorem Body.escape_eq {q : Char} {t : Text} (h : Body q t) : escape [q] t = t := by
  induction h with
  | nil => rfl
  | plain hslash hquote hline _ ih =>
    rw [escape_plain hslash hquote (fun hc => hline (Or.inr hc)) (fun hc => hline (Or.inl hc)), ih]
  | pair hline _ ih =>
    rw [escape_backslash (fun hc => hline (Or.inr hc)) (fun hc => hline (Or.inl hc)), ih]

/-- **The texts that are written as they are** are the bodies, since writing any text gives one. -/
theorem escape_eq_self_iff_body {q : Char} (hq : Encloses q) {t : Text} :
    escape [q] t = t ↔ Body q t :=
  ⟨fun h => h ▸ body_escape hq t, Body.escape_eq⟩

/-- The number of backslashes at the end of a text. -/
def backslashesAtEnd (t : Text) : Nat := (t.reverse.takeWhile (· == '\\')).length

theorem backslashesAtEnd_le (t : Text) : backslashesAtEnd t ≤ t.length := by
  have h := List.IsPrefix.length_le <| List.takeWhile_prefix (l := t.reverse) (· == '\\')
  rwa [List.length_reverse] at h

theorem backslashesAtEnd_cons (c : Char) (t : Text) :
    backslashesAtEnd (c :: t) =
      if backslashesAtEnd t = t.length ∧ c = '\\' then t.length + 1 else backslashesAtEnd t := by
  rw [backslashesAtEnd, backslashesAtEnd, List.reverse_cons, List.takeWhile_append,
    List.length_reverse]
  split
  next hall =>
    rw [List.takeWhile_cons, List.length_append, List.length_reverse, hall]
    by_cases hc : c = '\\'
    · rw [if_pos (by rw [beq_iff_eq]; exact hc), if_pos ⟨rfl, hc⟩]
      rfl
    · rw [if_neg (by rw [beq_iff_eq]; exact hc), if_neg fun h => hc h.2]
      rfl
  next hnot => rw [if_neg fun h => hnot h.1]

/-- A backslash and the character that it protects do not count, or count as two. -/
theorem backslashesAtEnd_pair (c : Char) (t : Text) :
    backslashesAtEnd ('\\' :: c :: t) % 2 = backslashesAtEnd t % 2 := by
  have hle := backslashesAtEnd_le t
  rw [backslashesAtEnd_cons, backslashesAtEnd_cons, List.length_cons]
  split
  next hall =>
    rw [if_pos ⟨rfl, rfl⟩]
    omega
  next =>
    rw [if_neg fun h => absurd h.1 (by omega)]

theorem backslashesAtEnd_plain {c : Char} (hc : c ≠ '\\') (t : Text) :
    backslashesAtEnd (c :: t) = backslashesAtEnd t := by
  rw [backslashesAtEnd_cons, if_neg fun h => hc h.2]

/-- Every occurrence of a character stands behind a backslash that protects it: the backslashes in
front of it are odd in number. -/
def Protected (q : Char) (t : Text) : Prop :=
  ∀ before after, t = before ++ q :: after → backslashesAtEnd before % 2 = 1

theorem protected_of_not_mem {q : Char} {t : Text} (h : q ∉ t) : Protected q t := by
  rintro before after rfl
  exact absurd (List.mem_append_right _ List.mem_cons_self) h

theorem protected_pair {q c : Char} (hq : q ≠ '\\') {t : Text} :
    Protected q ('\\' :: c :: t) ↔ Protected q t := by
  constructor
  · rintro h before after rfl
    rw [← backslashesAtEnd_pair c]
    exact h ('\\' :: c :: before) after rfl
  · intro h before after hsplit
    match before with
    | [] => exact absurd (List.cons.inj hsplit).1.symm hq
    | [b] =>
      obtain rfl : b = '\\' := (List.cons.inj hsplit).1.symm
      rfl
    | b :: d :: before =>
      obtain ⟨rfl, hpair⟩ := List.cons.inj hsplit
      obtain ⟨-, hrest⟩ := List.cons.inj hpair
      rw [backslashesAtEnd_pair]
      exact h before after hrest

theorem protected_plain {q c : Char} (hc : c ≠ '\\') {t : Text} :
    Protected q (c :: t) ↔ c ≠ q ∧ Protected q t := by
  constructor
  · intro h
    refine ⟨?_, ?_⟩
    · rintro rfl
      exact absurd (h [] t rfl) (by decide)
    · rintro before after rfl
      rw [← backslashesAtEnd_plain hc]
      exact h (c :: before) after rfl
  · rintro ⟨hne, h⟩ before after hsplit
    rcases List.cons_eq_append_iff.mp hsplit with ⟨-, hrest⟩ | ⟨before', rfl, hrest⟩
    · exact absurd (List.cons.inj hrest).1.symm hne
    · rw [backslashesAtEnd_plain hc]
      exact h before' after hrest

/-- The text has no carriage return, and a backslash at its end is protected by another. -/
def Lasting (t : Text) : Prop := '\r' ∉ t ∧ backslashesAtEnd t % 2 = 0

/-- Along the characters and the pairs of a text: a quote is no backslash, so it can only stand
second in a pair. -/
theorem body_of_protected {q : Char} (hq : q ≠ '\\') : ∀ {t : Text}, (∀ c ∈ t, ¬ Text.EndsLine c) →
    Protected q t → backslashesAtEnd t % 2 = 0 → Body q t
  | [], _, _, _ => .nil
  | [c], hline, hprotected, heven => by
    have hslash : c ≠ '\\' := by
      rintro rfl
      exact absurd heven (by decide)
    exact .plain hslash ((protected_plain hslash).mp hprotected).1 (hline c List.mem_cons_self) .nil
  | c :: d :: t, hline, hprotected, heven => by
    by_cases hslash : c = '\\'
    · subst hslash
      refine .pair (hline d (by simp)) (body_of_protected hq
        (fun e he => hline e (by simp [he])) ((protected_pair hq).mp hprotected) ?_)
      rwa [backslashesAtEnd_pair] at heven
    · obtain ⟨hquote, hrest⟩ := (protected_plain hslash).mp hprotected
      refine .plain hslash hquote (hline c List.mem_cons_self) (body_of_protected hq
        (fun e he => hline e (List.mem_cons_of_mem c he)) hrest ?_)
      rwa [backslashesAtEnd_plain hslash] at heven

/-- **Bodies by their characters**: no break, every quote protected, and no backslash left over at
the end. -/
theorem body_iff {q : Char} (hq : q ≠ '\\') {t : Text} :
    Body q t ↔ '\n' ∉ t ∧ Protected q t ∧ Lasting t := by
  constructor
  · intro h
    refine ⟨h.not_mem (Or.inl rfl), ?_, h.not_mem (Or.inr rfl), ?_⟩
    · induction h with
      | nil => exact protected_of_not_mem List.not_mem_nil
      | plain hslash hquote _ _ ih => exact (protected_plain hslash).mpr ⟨hquote, ih⟩
      | pair _ _ ih => exact (protected_pair hq).mpr ih
    · induction h with
      | nil => rfl
      | plain hslash _ _ _ ih => rw [backslashesAtEnd_plain hslash, ih]
      | pair _ _ ih => rw [backslashesAtEnd_pair, ih]
  · rintro ⟨hnewline, hprotected, hreturn, heven⟩
    refine body_of_protected hq ?_ hprotected heven
    rintro c hc (rfl | rfl)
    · exact hnewline hc
    · exact hreturn hc

/-- **What a text without line feed and without the quote looks like between quotes**: it is
written as it is exactly if it is lasting. -/
theorem escape_eq_self_iff {q : Char} {t : Text} (hq : Encloses q) (hown : q ∉ t)
    (hline : '\n' ∉ t) : escape [q] t = t ↔ Lasting t := by
  rw [escape_eq_self_iff_body hq, body_iff hq.1]
  exact ⟨fun h => h.2.2, fun h => ⟨hline, protected_of_not_mem hown, h⟩⟩

/-- The inside of a literal is a body, unless it holds a break. -/
theorem body_of_close? {q : Char} {s rest body : Text} (h : close? q s = some (body ++ [q], rest))
    (hcr : '\r' ∉ body) (hline : '\n' ∉ body) : Body q body := by
  fun_induction close? q s generalizing body rest with
  | case1 => cases h
  | case2 => cases h
  | case3 => cases h
  | case4 c cs _ ih =>
    obtain ⟨⟨inside, rest'⟩, hclose, heq⟩ := Option.map_eq_some_iff.mp h
    obtain ⟨-, body', rfl⟩ := close?_eq hclose
    have hbody : '\\' :: c :: body' = body :=
      List.append_cancel_right (congrArg Prod.fst heq)
    subst hbody
    simp only [List.mem_cons, not_or] at hcr hline
    exact .pair (fun hc => hc.elim (Ne.symm hline.2.1) (Ne.symm hcr.2.1))
      (ih hclose hcr.2.2 hline.2.2)
  | case5 cs =>
    have hinside : [] ++ [q] = body ++ [q] := congrArg Prod.fst (Option.some.inj h)
    have hbody : [] = body := List.append_cancel_right hinside
    rw [← hbody]
    exact .nil
  | case6 c cs hbare hlone hq ih =>
    obtain ⟨⟨inside, rest'⟩, hclose, heq⟩ := Option.map_eq_some_iff.mp h
    obtain ⟨-, body', rfl⟩ := close?_eq hclose
    have hbody : c :: body' = body := List.append_cancel_right (congrArg Prod.fst heq)
    subst hbody
    simp only [List.mem_cons, not_or] at hcr hline
    refine .plain ?_ hq (fun hc => hc.elim (Ne.symm hline.1) (Ne.symm hcr.1))
      (ih hclose hcr.2 hline.2)
    rintro rfl
    cases cs with
    | nil => exact hbare rfl rfl
    | cons d ds => exact hlone d ds rfl rfl

/-- **The inside of a literal is written as it is**, its escape sequences included, unless it holds
a break. -/
theorem escape_inside {q : Char} {s rest body : Text} (h : close? q s = some (body ++ [q], rest))
    (hcr : '\r' ∉ body) (hline : '\n' ∉ body) : escape [q] body = body :=
  (body_of_close? h hcr hline).escape_eq

/-! ## Where no quote is loose -/

/-- A closed literal, or a character that is no quote. -/
def Settled : Piece Text → Prop
  | .token value raw => Closed raw ∧ value = raw
  | .gap c => ¬ IsQuote c

/-- Settled pieces are cut the same way whatever follows them. -/
theorem Settled.firm {p : Piece Text} (h : Settled p) : literal?.Firm p := by
  cases p with
  | gap c => exact literal?_of_not_quote h
  | token value raw =>
    obtain ⟨hclosed, rfl⟩ := h
    exact ⟨hclosed.ne_nil, hclosed.literal?_append⟩

/-- Along a line of literals: induction on its pieces, without a look back. -/
theorem line_induction {motive : Text → Prop} (nil : motive [])
    (token : ∀ raw rest, Closed raw →
      pieces literal? (raw ++ rest) = .token raw raw :: pieces literal? rest →
      motive rest → motive (raw ++ rest))
    (gap : ∀ c cs, pieces literal? (c :: cs) = .gap c :: pieces literal? cs →
      motive cs → motive (c :: cs))
    (s : Text) : motive s := by
  suffices h : ∀ before : Option Char, motive s from h none
  intro before
  induction before, s using scan_induction literal?_cuts with
  | nil => exact nil
  | token before value raw rest _ hrec _ ih =>
    obtain ⟨hclosed, hsplit⟩ := closed_of_literal? hrec
    obtain rfl : raw = value := List.append_cancel_right hsplit
    refine token raw rest hclosed ?_ ih
    rw [pieces, piecesFrom_token (hclosed.literal?_append _ _) hclosed.ne_nil,
      literal?_blind.piecesFrom_eq _ none]
    rfl
  | gap before c cs hrec _ ih =>
    refine gap c cs ?_ ih
    rw [pieces, piecesFrom_gap ((literal?_blind _ before _).trans hrec),
      literal?_blind.piecesFrom_eq _ none]
    rfl

/-! ## Literals written one after another -/

/-- A quote stands outside the literals in front of the one with an ordinal. -/
def looseQuoteBefore : Nat → List (Piece Text) → Bool
  | _, [] => false
  | n, .gap c :: ps => decide (IsQuote c) || looseQuoteBefore n ps
  | 0, .token _ _ :: _ => false
  | n + 1, .token _ _ :: ps => looseQuoteBefore n ps

@[simp] theorem looseQuoteBefore_gap {n : Nat} {c : Char} {ps : List (Piece Text)} :
    looseQuoteBefore n (.gap c :: ps) = false ↔ ¬ IsQuote c ∧ looseQuoteBefore n ps = false := by
  simp only [looseQuoteBefore, Bool.or_eq_false_iff, decide_eq_false_iff_not]

@[simp] theorem looseQuoteBefore_succ_token (n : Nat) (value raw : Text) (ps : List (Piece Text)) :
    looseQuoteBefore (n + 1) (.token value raw :: ps) = looseQuoteBefore n ps := rfl

theorem rewriteFirst_none (rest : Text) :
    (Piece.rewriteFirst [] (pieces literal? rest)).flatMap Text.Stretch.written = rest := by
  rw [Piece.rewriteFirst_nil_written, flatMap_raw_pieces literal?_cuts]

theorem settled_concat {done : List (Piece Text)} {p : Piece Text}
    (hdone : ∀ p ∈ done, Settled p) (hp : Settled p) : ∀ q ∈ done ++ [p], Settled q := by
  intro q hq
  rcases List.mem_append.mp hq with hq | hq
  · exact hdone q hq
  · rw [List.mem_singleton.mp hq]
    exact hp

/-- **The first literals of a line, written one after another, are written at once**, whatever is
written: each time the line is cut anew, the literals that are done and those to come are found
where they were. `done` holds the pieces behind which the scan stands. -/
theorem foldl_mapNthToken {es : List (Int × Text)} {rest : Text} {done : List (Piece Text)}
    (hordinals : es.map (·.1) = (List.range' (Piece.tokenCount done) es.length).map Int.ofNat)
    (hcount : es.length ≤ Piece.tokenCount (pieces literal? rest))
    (hclosed : ∀ e ∈ es, Closed e.2)
    (hclear : ∀ n < es.length, looseQuoteBefore n (pieces literal? rest) = false)
    (hdone : ∀ p ∈ done, Settled p) :
    es.foldl (fun body e => Text.mapNthToken literal? e.1 (fun _ _ => e.2) body)
        (done.flatMap Piece.raw ++ rest) =
      done.flatMap Piece.raw ++
        (Piece.rewriteFirst (es.map (·.2)) (pieces literal? rest)).flatMap Text.Stretch.written := by
  induction rest using line_induction generalizing es done with
  | nil =>
    rw [pieces, piecesFrom_nil] at hcount
    rw [List.length_eq_zero_iff.mp (Nat.le_zero.mp hcount), List.foldl_nil, List.map_nil,
      rewriteFirst_none]
  | gap c cs hpieces ih =>
    cases es with
    | nil => rw [List.foldl_nil, List.map_nil, rewriteFirst_none]
    | cons e es =>
      rw [hpieces] at hcount hclear ⊢
      have hc : ¬ IsQuote c := (looseQuoteBefore_gap.mp (hclear 0 (Nat.succ_pos _))).1
      have hcs : ∀ n < (e :: es).length, looseQuoteBefore n (pieces literal? cs) = false :=
        fun n hn => (looseQuoteBefore_gap.mp (hclear n hn)).2
      have htokens : Piece.tokenCount (done ++ [.gap c]) = Piece.tokenCount done := by
        rw [Piece.tokenCount_append]
        rfl
      have hgap : Settled (.gap c) := hc
      have h := ih (by rw [htokens]; exact hordinals) hcount hclosed hcs (settled_concat hdone hgap)
      rw [List.flatMap_append, List.append_assoc, List.append_assoc] at h
      exact h
  | token raw rest hraw hpieces ih =>
    cases es with
    | nil => rw [List.foldl_nil, List.map_nil, rewriteFirst_none]
    | cons e es =>
      obtain ⟨n, new⟩ := e
      rw [List.map_cons, List.length_cons, List.range'_succ, List.map_cons] at hordinals
      obtain ⟨hn, hrest⟩ := List.cons.inj hordinals
      dsimp only at hn
      have hnew : Closed new := hclosed (n, new) List.mem_cons_self
      have htokens : Piece.tokenCount (done ++ [.token new new]) = Piece.tokenCount done + 1 := by
        rw [Piece.tokenCount_append]
        rfl
      have hlater : ∀ m < es.length, looseQuoteBefore m (pieces literal? rest) = false := by
        intro m hm
        have h := hclear (m + 1) (Nat.succ_lt_succ hm)
        rwa [hpieces, looseQuoteBefore_succ_token] at h
      have hleft : es.length ≤ Piece.tokenCount (pieces literal? rest) := by
        rw [hpieces] at hcount
        exact Nat.le_of_succ_le_succ hcount
      -- what is written joins the settled pieces
      have hwritten : Settled (.token new new) := ⟨hnew, rfl⟩
      have h := ih (by rw [htokens]; exact hrest) hleft
        (fun e he => hclosed e (List.mem_cons_of_mem _ he)) hlater (settled_concat hdone hwritten)
      rw [List.flatMap_append, List.flatMap_singleton, List.append_assoc, List.append_assoc] at h
      rw [List.foldl_cons, hn]
      dsimp only
      have hraw : Settled (.token raw raw) := ⟨hraw, rfl⟩
      rw [Int.ofNat_eq_natCast, Text.mapNthToken_firm literal?_cuts literal?_blind
        (fun p hp => (hdone p hp).firm) hraw.firm, hpieces]
      exact h

end Quoted

end GameText
