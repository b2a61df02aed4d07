import GameText.Localization.Reply
import GameText.Proofs.Json.FlatObject
import GameText.Proofs.Text.Find

/-!
# The first object inside a text

An object is looked for by its braces alone. What is found begins with a brace and ends with one, and
the braces between them are in pairs, one behind the other (`object?_eq_some_iff`): so it may hold
objects, and these no others. Characters without braces around it play no part
(`embeddedObject?_append_left`, `embeddedObject?_append_right`).

Strings are not looked at. In an object of strings the braces that count are those of the object and
those inside its strings.
-/

namespace GameText

namespace Reply

/-! ## Braces -/

/-- The text has no braces. -/
def BraceFree (s : Text) : Prop := ∀ c ∈ s, isBrace c = false

instance : DecidablePred BraceFree := fun s =>
  decidable_of_iff (s.any isBrace = false) (by simp only [BraceFree, List.any_eq_false, Bool.not_eq_true])

theorem BraceFree.open_not_mem {s : Text} (h : BraceFree s) : '\x7b' ∉ s :=
  fun hmem => absurd (h _ hmem) (by decide)

theorem BraceFree.close_not_mem {s : Text} (h : BraceFree s) : '\x7d' ∉ s :=
  fun hmem => absurd (h _ hmem) (by decide)

theorem braceFree_of_isBlank {s : Text} (h : Json.IsBlank s) : BraceFree s := by
  intro c hc
  rw [← Bool.not_eq_true]
  intro hbrace
  rw [isBrace, Bool.or_eq_true, beq_iff_eq, beq_iff_eq] at hbrace
  rcases hbrace with rfl | rfl
  · exact absurd (h _ hc) (by decide)
  · exact absurd (h _ hc) (by decide)

theorem BraceFree.append {s t : Text} (hs : BraceFree s) (ht : BraceFree t) : BraceFree (s ++ t) :=
  fun c hc => (List.mem_append.mp hc).elim (hs c) (ht c)

/-- Braces in pairs, one behind the other. -/
def PairedBraces (s : Text) : Prop :=
  ∃ n, s.filter isBrace = (List.replicate n ['\x7b', '\x7d']).flatten

theorem filter_isBrace_eq_nil_iff {s : Text} : s.filter isBrace = [] ↔ BraceFree s := by
  simp only [List.filter_eq_nil_iff, BraceFree, Bool.not_eq_true]

theorem filter_isBrace_open (s : Text) :
    ('\x7b' :: s).filter isBrace = '\x7b' :: s.filter isBrace := rfl

theorem filter_isBrace_close (s : Text) :
    ('\x7d' :: s).filter isBrace = '\x7d' :: s.filter isBrace := rfl

theorem BraceFree.paired {s : Text} (h : BraceFree s) : PairedBraces s :=
  ⟨0, filter_isBrace_eq_nil_iff.mpr h⟩

theorem PairedBraces.pair {lead inside s : Text} (hlead : BraceFree lead) (hinside : BraceFree inside)
    (h : PairedBraces s) : PairedBraces (lead ++ '\x7b' :: (inside ++ '\x7d' :: s)) := by
  obtain ⟨n, hn⟩ := h
  refine ⟨n + 1, ?_⟩
  rw [List.filter_append, filter_isBrace_open, List.filter_append, filter_isBrace_close,
    filter_isBrace_eq_nil_iff.mpr hlead, filter_isBrace_eq_nil_iff.mpr hinside, hn]
  rfl

/-- Paired braces are none, or one pair and paired braces. -/
theorem PairedBraces.cases {s : Text} (h : PairedBraces s) : BraceFree s ∨
    ∃ lead inside rest, BraceFree lead ∧ BraceFree inside ∧ PairedBraces rest ∧
      s = lead ++ '\x7b' :: (inside ++ '\x7d' :: rest) := by
  obtain ⟨n, hn⟩ := h
  cases n with
  | zero => exact .inl (filter_isBrace_eq_nil_iff.mp hn)
  | succ n =>
    obtain ⟨lead, s', rfl, hlead, -, hs'⟩ := List.filter_eq_cons_iff.mp hn
    obtain ⟨inside, rest, rfl, hinside, -, hrest⟩ := List.filter_eq_cons_iff.mp hs'
    exact .inr ⟨lead, inside, rest, fun c hc => Bool.not_eq_true _ ▸ hlead c hc,
      fun c hc => Bool.not_eq_true _ ▸ hinside c hc, ⟨n, hrest⟩, rfl⟩

/-- One pair of braces holds all others, and these do not nest. -/
def NestsOnce (s : Text) : Prop :=
  ∃ n, s.filter isBrace = '\x7b' :: ((List.replicate n ['\x7b', '\x7d']).flatten ++ ['\x7d'])

theorem nestsOnce_iff {before mid after : Text} (hbefore : BraceFree before)
    (hafter : BraceFree after) :
    NestsOnce (before ++ '\x7b' :: (mid ++ '\x7d' :: after)) ↔ PairedBraces mid := by
  simp only [NestsOnce, PairedBraces, List.filter_append, filter_isBrace_open,
    filter_isBrace_close, filter_isBrace_eq_nil_iff.mpr hbefore,
    filter_isBrace_eq_nil_iff.mpr hafter, List.nil_append, List.cons.injEq, true_and, List.append_cancel_right_eq]

/-! ## The end of an object -/

/-- What is left from the first brace on stands behind characters that are none. -/
theorem exists_of_dropWhile_eq_cons {s rest : Text} {c : Char}
    (h : s.dropWhile (!isBrace ·) = c :: rest) : ∃ lead, BraceFree lead ∧ s = lead ++ c :: rest := by
  refine ⟨s.takeWhile (!isBrace ·), fun d hd => ?_, ?_⟩
  · simpa using List.all_eq_true.mp List.all_takeWhile d hd
  · rw [← h, List.takeWhile_append_dropWhile]

theorem BraceFree.dropWhile_append {s rest : Text} {c : Char} (h : BraceFree s)
    (hc : isBrace c = true) : (s ++ c :: rest).dropWhile (!isBrace ·) = c :: rest := by
  refine Text.dropWhile_append_of_stops (fun d hd => ?_) (Text.stops_cons.mpr ?_)
  · rw [h d hd]
    rfl
  · rw [hc]
    rfl

/-- An object ends behind braces in pairs. -/
theorem exists_paired_of_closeObject? {fuel : Nat} {s rest : Text}
    (h : closeObject? fuel s = some rest) : ∃ body, s = body ++ '\x7d' :: rest ∧ PairedBraces body := by
  fun_induction closeObject? fuel s with
  | case1 => cases h
  | case2 fuel s rest' hdrop =>
    cases h
    obtain ⟨lead, hlead, rfl⟩ := exists_of_dropWhile_eq_cons hdrop
    exact ⟨lead, rfl, hlead.paired⟩
  | case3 fuel s inner hdrop rest' hinner ih =>
    obtain ⟨lead, hlead, rfl⟩ := exists_of_dropWhile_eq_cons hdrop
    obtain ⟨inside, hinside, rfl⟩ := exists_of_dropWhile_eq_cons hinner
    obtain ⟨body, rfl, hbody⟩ := ih h
    exact ⟨_, by simp, hbody.pair hlead hinside⟩
  | case4 => cases h
  | case5 => cases h

theorem closeObject?_of_paired {body rest : Text} {fuel : Nat} (h : PairedBraces body)
    (hfuel : (body ++ '\x7d' :: rest).length < fuel) :
    closeObject? fuel (body ++ '\x7d' :: rest) = some rest := by
  induction fuel generalizing body with
  | zero => cases hfuel
  | succ fuel ih =>
    rcases h.cases with hfree | ⟨lead, inside, body', hlead, hinside, hbody, rfl⟩
    · rw [closeObject?, hfree.dropWhile_append rfl]
      rfl
    · simp only [List.append_assoc, List.cons_append] at hfuel ⊢
      have hinner : (inside ++ '\x7d' :: (body' ++ '\x7d' :: rest)).dropWhile (!isBrace ·) =
          '\x7d' :: (body' ++ '\x7d' :: rest) := hinside.dropWhile_append rfl
      rw [closeObject?, hlead.dropWhile_append rfl]
      simp only [hinner]
      refine ih hbody ?_
      simp only [List.length_append, List.length_cons] at hfuel ⊢
      omega

theorem object?_object {body : Text} (h : PairedBraces body) (before : Option Char) (rest : Text) :
    object? before ('\x7b' :: (body ++ '\x7d' :: rest)) = some ((), rest) := by
  rw [object?, closeObject?_of_paired h (Nat.lt_succ_self _)]
  rfl

/-- **What is recognised as an object** are two braces with braces in pairs between them. -/
theorem object?_eq_some_iff {before : Option Char} {s rest : Text} :
    object? before s = some ((), rest) ↔
      ∃ body, s = '\x7b' :: (body ++ '\x7d' :: rest) ∧ PairedBraces body := by
  constructor
  · intro h
    unfold object? at h
    split at h
    next cs =>
      obtain ⟨rest', hclose, heq⟩ := Option.map_eq_some_iff.mp h
      cases heq
      obtain ⟨body, rfl, hbody⟩ := exists_paired_of_closeObject? hclose
      exact ⟨body, rfl, hbody⟩
    next => cases h
  · rintro ⟨body, rfl, hbody⟩
    exact object?_object hbody before rest

theorem object?_blind : object?.Blind := by
  refine fun before before' s => Option.ext fun found => ?_
  obtain ⟨⟨⟩, rest⟩ := found
  rw [object?_eq_some_iff, object?_eq_some_iff]

/-! ## The first object -/

theorem embeddedObject?_object {body : Text} (h : PairedBraces body) (rest : Text) :
    embeddedObject? ('\x7b' :: (body ++ '\x7d' :: rest)) = some ('\x7b' :: (body ++ ['\x7d'])) := by
  have hconsumed := consumed_append ('\x7b' :: (body ++ ['\x7d'])) rest
  rw [embeddedObject?, Text.find?, Text.findFrom?, object?_object h]
  simpa using hconsumed

theorem embeddedObject?_cons {c : Char} {cs : Text} (h : object? none (c :: cs) = none) :
    embeddedObject? (c :: cs) = embeddedObject? cs := by
  rw [embeddedObject?, embeddedObject?, Text.find?, Text.find?, Text.findFrom?, h,
    Text.findFrom?_congr object?_blind (some c) none, Option.map_map]
  rfl

/-- An object begins at the first place, or the first object is looked for behind it. -/
theorem embeddedObject?_cons_cases (c : Char) (cs : Text) :
    (∃ body rest, c :: cs = '\x7b' :: (body ++ '\x7d' :: rest) ∧ PairedBraces body) ∨
      object? none (c :: cs) = none := by
  cases h : object? none (c :: cs) with
  | none => exact .inr rfl
  | some found =>
    obtain ⟨body, heq, hbody⟩ := object?_eq_some_iff.mp h
    exact .inl ⟨body, found.2, heq, hbody⟩

/-- An object inside a text has its braces in pairs. -/
theorem exists_of_embeddedObject? {s part : Text} (h : embeddedObject? s = some part) :
    ∃ front body back, s = front ++ '\x7b' :: (body ++ '\x7d' :: back) ∧ PairedBraces body ∧
      part = '\x7b' :: (body ++ ['\x7d']) := by
  induction s with
  | nil => cases h
  | cons c cs ih =>
    rcases embeddedObject?_cons_cases c cs with ⟨body, rest, heq, hbody⟩ | hnone
    · rw [heq, embeddedObject?_object hbody] at h
      exact ⟨[], body, rest, heq, hbody, (Option.some.inj h).symm⟩
    · rw [embeddedObject?_cons hnone] at h
      obtain ⟨front, body, back, rfl, hbody, rfl⟩ := ih h
      exact ⟨c :: front, body, back, rfl, hbody, rfl⟩

/-- Characters without braces in front are passed. -/
theorem embeddedObject?_append_left {front : Text} (h : BraceFree front) (s : Text) :
    embeddedObject? (front ++ s) = embeddedObject? s := by
  induction front with
  | nil => rfl
  | cons c cs ih =>
    obtain ⟨hc, hcs⟩ := List.forall_mem_cons.mp h
    rcases embeddedObject?_cons_cases c (cs ++ s) with ⟨body, rest, heq, -⟩ | hnone
    · rw [(List.cons.inj heq).1] at hc
      cases hc
    · rw [List.cons_append, embeddedObject?_cons hnone, ih hcs]

/-- Characters without braces behind do not matter. -/
theorem embeddedObject?_append_right {back : Text} (h : BraceFree back) (s : Text) :
    embeddedObject? (s ++ back) = embeddedObject? s := by
  induction s with
  | nil =>
    have hleft := embeddedObject?_append_left h []
    rwa [List.append_nil] at hleft
  | cons c cs ih =>
    rcases embeddedObject?_cons_cases c cs with ⟨body, rest, heq, hbody⟩ | hnone
    · rw [heq, embeddedObject?_object hbody]
      simpa using embeddedObject?_object hbody (rest ++ back)
    · rw [List.cons_append, embeddedObject?_cons hnone]
      rcases embeddedObject?_cons_cases c (cs ++ back) with ⟨body, rest, heq, hbody⟩ | hlonger
      · -- The braces of an object that begins here all stand in front of `back`.
        obtain ⟨rfl, hcs⟩ := List.cons.inj heq
        rcases Text.append_eq_append_cons hcs with ⟨rest', rfl, -⟩ | ⟨x, -, rfl⟩
        · rw [object?_object hbody] at hnone
          cases hnone
        · exact absurd (List.mem_append_right x List.mem_cons_self) h.close_not_mem
      · rw [embeddedObject?_cons hlonger, ih]

end Reply

end GameText
