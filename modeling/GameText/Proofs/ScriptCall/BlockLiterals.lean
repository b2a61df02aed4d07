import GameText.Proofs.Json.Tokens
import GameText.Proofs.ScriptCall.Rendered

/-!
# The literals of a document

The search for the literals of a script call was made for program text: it knows three quotes, takes
any character behind a backslash, and goes on to the first quote that closes. In the text of a
document it finds the string tokens and nothing else: each literal is the token of a key, which a
colon follows, or one of the tokens that `Document.tokens` lists (`Explains.document`). A string
token closes where the search says it does because every escape begins with a backslash and the code
of an escape has no quote in it (`exists_closes_of_inside`); outside of the tokens a document has no
quotes.

`Explains` is what the induction over the tree carries. It joins for texts that follow one another
(`Explains.append`), since behind a whole text the search begins anew.

Not established: that every string token is found.
-/

namespace GameText

namespace ScriptCall

open Json (PlacedToken IsStringToken Node Elements Members valueStart)

/-! ## String tokens -/

theorem Closes.plains {quote : Char} {inner cs : Text} (h : Closes quote inner)
    (hplain : ∀ c ∈ cs, c ≠ '\\' ∧ c ≠ quote) : Closes quote (cs ++ inner) := by
  induction cs with
  | nil => exact h
  | cons c cs ih =>
    obtain ⟨hslash, hquote⟩ := hplain c List.mem_cons_self
    exact (ih fun d hd => hplain d (List.mem_cons_of_mem _ hd)).plain hslash hquote

/-- A hexadecimal code has neither backslashes nor quotes. -/
theorem plain_of_hexCode? {a b c d : Char} {n : Nat} (h : Json.hexCode? a b c d = some n) :
    ∀ e ∈ [a, b, c, d], e ≠ '\\' ∧ e ≠ '"' := by
  intro e he
  have hdigit := Json.isSome_hexValue?_of_hexCode? h e he
  constructor
  · rintro rfl
    cases hdigit
  · rintro rfl
    cases hdigit

/-- **A string token ends where a quote without a backslash first stands.** -/
theorem exists_closes_of_inside {written text : Text} (h : Json.Inside written text) :
    ∃ inner, written = inner ++ ['"'] ∧ Closes '"' inner := by
  induction h with
  | close => exact ⟨[], rfl, closes_nil (by decide)⟩
  | @plain c w t quote backslash control tail ih =>
    obtain ⟨inner, rfl, hcloses⟩ := ih
    exact ⟨c :: inner, rfl, hcloses.plain backslash quote⟩
  | @short c value w t code escape tail ih =>
    obtain ⟨inner, rfl, hcloses⟩ := ih
    exact ⟨'\\' :: c :: inner, rfl, hcloses.pair c⟩
  | @code a b c d n w t digits single tail ih =>
    obtain ⟨inner, rfl, hcloses⟩ := ih
    exact ⟨'\\' :: 'u' :: ([a, b, c, d] ++ inner), rfl,
      (hcloses.plains (plain_of_hexCode? digits)).pair 'u'⟩
  | @pair a b c d a' b' c' d' high low w t first isHigh second isLow tail ih =>
    obtain ⟨inner, rfl, hcloses⟩ := ih
    have hsecond := (hcloses.plains (plain_of_hexCode? second)).pair 'u'
    exact ⟨'\\' :: 'u' :: ([a, b, c, d] ++ '\\' :: 'u' :: ([a', b', c', d'] ++ inner)), rfl,
      (hsecond.plains (plain_of_hexCode? first)).pair 'u'⟩

theorem exists_enclosed {raw text : Text} (h : IsStringToken raw text) :
    ∃ inner, raw = enclosed '"' inner ∧ Closes '"' inner := by
  obtain ⟨written, rfl, hinside⟩ := h
  obtain ⟨inner, rfl, hcloses⟩ := exists_closes_of_inside hinside
  exact ⟨inner, rfl, hcloses⟩

theorem isQuote_of_isScalarChar {c : Char} (h : Json.isScalarChar c = true) :
    isQuote c = false := by
  rw [← Bool.not_eq_true]
  intro hquote
  rcases isQuote_iff.mp hquote with rfl | rfl | rfl <;> cases h

theorem no_quote_of_blank {s : Text} (h : Json.IsBlank s) : ∀ c ∈ s, isQuote c = false :=
  fun c hc => isQuote_of_isBlank (Json.isBlank_of_isSpace (h c hc))

/-! ## What explains the literals of a text -/

/-- A colon follows the literal, as it follows a key. -/
def BeforeColon (s : Text) (l : Literal) : Prop :=
  ∃ blanks rest, s.drop l.stop = blanks ++ ':' :: rest ∧ ∀ c ∈ blanks, isBlank c = true

/-- Every literal of a text that begins at an offset is one of some tokens, or a key. -/
structure Explains (offset : Nat) (ts : List PlacedToken) (s : Text) : Prop where
  whole : Whole s
  quote : ∀ l ∈ literals s, l.quote = '"'
  origin : ∀ l ∈ literals s,
    (∃ t ∈ ts, t.start = offset + l.start ∧ t.raw = l.raw) ∨ BeforeColon s l

theorem literals_append_whole {x : Text} (hx : Whole x) (y : Text) :
    literals (x ++ y) = literals x ++ (literals y).map (.shift x.length) := by
  rw [literals, hx.literalsFrom_append, Nat.zero_add, literalsFrom_eq_shift x.length]
  rfl

/-- A string token, before characters without quotes, is the one literal there. -/
theorem literals_token {raw text s : Text} (h : IsStringToken raw text)
    (hclear : ∀ c ∈ s, isQuote c = false) : Whole (raw ++ s) ∧
      ∃ l : Literal, literals (raw ++ s) = [l] ∧ l.quote = '"' ∧ l.start = 0 ∧ l.raw = raw ∧
        l.stop = raw.length := by
  obtain ⟨inner, rfl, hcloses⟩ := exists_enclosed h
  obtain ⟨hwhole, hnone⟩ := whole_of_no_quote hclear
  have hfound := literalsFrom_literal rfl hcloses 0 s
  rw [hnone] at hfound
  refine ⟨(whole_enclosed rfl hcloses).append hwhole, ⟨0, '"', inner⟩, hfound, rfl, rfl, rfl, ?_⟩
  rw [length_enclosed, Literal.stop, Nat.zero_add]

theorem stop_shift (offset : Nat) (l : Literal) : (l.shift offset).stop = offset + l.stop := by
  simp only [Literal.shift, Literal.stop, Nat.add_assoc]

namespace Explains

variable {offset : Nat} {ts ts' : List PlacedToken} {s x y : Text}

/-- A text without quotes has no literals to explain. -/
theorem clear (h : ∀ c ∈ s, isQuote c = false) : Explains offset [] s := by
  obtain ⟨hwhole, hnone⟩ := whole_of_no_quote h
  have hliterals : literals s = [] := hnone 0
  refine ⟨hwhole, ?_, ?_⟩
  · rw [hliterals]
    exact nofun
  · rw [hliterals]
    exact nofun

theorem append (h : Explains offset ts x) (h' : Explains (offset + x.length) ts' y) :
    Explains offset (ts ++ ts') (x ++ y) := by
  refine ⟨h.whole.append h'.whole, ?_, ?_⟩
  · intro l hl
    rw [literals_append_whole h.whole, List.mem_append] at hl
    rcases hl with hl | hl
    · exact h.quote l hl
    · obtain ⟨m, hm, rfl⟩ := List.mem_map.mp hl
      exact h'.quote m hm
  · intro l hl
    rw [literals_append_whole h.whole, List.mem_append] at hl
    rcases hl with hl | hl
    · refine (h.origin l hl).imp ?_ ?_
      · rintro ⟨t, ht, hsame⟩
        exact ⟨t, List.mem_append_left _ ht, hsame⟩
      · rintro ⟨blanks, rest, hdrop, hblanks⟩
        refine ⟨blanks, rest ++ y, ?_, hblanks⟩
        rw [List.drop_append_of_le_length (stop_le_of_mem_literals hl), hdrop, List.append_assoc,
          List.cons_append]
    · obtain ⟨m, hm, rfl⟩ := List.mem_map.mp hl
      refine (h'.origin m hm).imp ?_ ?_
      · rintro ⟨t, ht, hstart, hraw⟩
        exact ⟨t, List.mem_append_right _ ht, hstart.trans (Nat.add_assoc _ _ _), hraw⟩
      · rintro ⟨blanks, rest, hdrop, hblanks⟩
        refine ⟨blanks, rest, ?_, hblanks⟩
        rw [stop_shift, List.drop_length_add_append, hdrop]

/-- A string token explains itself. -/
theorem token {t : PlacedToken} (hstart : t.start = offset) (h : IsStringToken t.raw t.text) :
    Explains offset [t] t.raw := by
  obtain ⟨hwhole, l, hl, hquote, hzero, hraw, -⟩ := literals_token h (s := []) nofun
  rw [List.append_nil] at hwhole hl
  refine ⟨hwhole, ?_, ?_⟩
  · rwa [hl, List.forall_mem_singleton]
  · rw [hl, List.forall_mem_singleton]
    exact .inl ⟨t, List.mem_singleton_self t, by rw [hstart, hzero, Nat.add_zero], hraw.symm⟩

/-- A key stands before its colon. -/
theorem key {rawKey key afterKey : Text} (h : IsStringToken rawKey key)
    (hblank : ∀ c ∈ afterKey, isBlank c = true) :
    Explains offset [] (rawKey ++ (afterKey ++ [':'])) := by
  have hclear : ∀ c ∈ afterKey ++ [':'], isQuote c = false := by
    intro c hc
    rcases List.mem_append.mp hc with hc | hc
    · exact isQuote_of_isBlank (hblank c hc)
    · rw [List.mem_singleton.mp hc]
      rfl
  obtain ⟨hwhole, l, hl, hquote, -, -, hstop⟩ := literals_token h hclear
  refine ⟨hwhole, ?_, ?_⟩
  · rwa [hl, List.forall_mem_singleton]
  · rw [hl, List.forall_mem_singleton]
    exact .inr ⟨afterKey, [], by rw [hstop, List.drop_left], hblank⟩

/-- What stands before a text, the text, what stands behind it, and another text. -/
theorem follow {before between : Text} (hbefore : Explains offset [] before)
    (h : Explains (offset + before.length) ts x)
    (hbetween : Explains (offset + before.length + x.length) [] between)
    (h' : Explains (offset + before.length + x.length + between.length) ts' y) :
    Explains offset (ts ++ ts') (before ++ (x ++ (between ++ y))) :=
  hbefore.append (h.append (hbetween.append h'))

/-- A text in brackets. -/
theorem bracketed {opening closing : Char} {blanks : Text} (hopening : isQuote opening = false)
    (hclosing : isQuote closing = false) (hblanks : Json.IsBlank blanks)
    (h : Explains (1 + blanks.length) ts x) :
    Explains 0 ts (opening :: blanks ++ x ++ [closing]) := by
  have hopen : Explains 0 [] (opening :: blanks) := by
    apply clear
    rw [List.forall_mem_cons]
    exact ⟨hopening, no_quote_of_blank hblanks⟩
  have hclose : Explains (0 + (opening :: blanks ++ x).length) [] [closing] := by
    apply clear
    rwa [List.forall_mem_singleton]
  have hinner : Explains (0 + (opening :: blanks).length) ts x := by
    rwa [Nat.zero_add, List.length_cons, Nat.add_comm]
  have hall := (hopen.append hinner).append hclose
  rwa [List.nil_append, List.append_nil] at hall

/-- What stands between two values. -/
theorem comma {after between : Text} (hafter : Json.IsBlank after)
    (hbetween : between = [] ∨ between = [',']) : Explains offset [] (after ++ between) := by
  apply clear
  intro c hc
  rcases List.mem_append.mp hc with hc | hc
  · exact no_quote_of_blank hafter c hc
  · rcases hbetween with rfl | rfl
    · cases hc
    · rw [List.mem_singleton.mp hc]
      rfl

/-- Only the characters and the places of the tokens count. -/
theorem moved (h : Explains 0 ts s) (move : PlacedToken → PlacedToken)
    (hstart : ∀ t, (move t).start = offset + t.start) (hraw : ∀ t, (move t).raw = t.raw) :
    Explains offset (ts.map move) s := by
  refine ⟨h.whole, h.quote, ?_⟩
  intro l hl
  refine (h.origin l hl).imp_left ?_
  rintro ⟨t, ht, htoken, hsame⟩
  refine ⟨move t, List.mem_map_of_mem ht, ?_, (hraw t).trans hsame⟩
  rw [hstart, htoken, Nat.zero_add]

mutual

/-- **Each literal of a value is one of its string tokens, or a key.** -/
theorem node : ∀ {node : Node}, node.Readable → Explains 0 node.tokens node.text
  | .scalar _ _, h => .clear fun c hc => isQuote_of_isScalarChar (h.isScalarChar c hc)
  | .string _ _, h => .token rfl h
  | .array blanks _, ⟨hblanks, _, hitems⟩ =>
    .bracketed rfl rfl hblanks (elements hitems 0 (1 + blanks.length))
  | .object blanks _, ⟨hblanks, _, hmembers⟩ =>
    .bracketed rfl rfl hblanks (members hmembers (1 + blanks.length))

theorem elements : ∀ {items : Elements}, items.Readable →
    ∀ index offset, Explains offset (items.tokens index offset) items.text
  | .nil, _, _, _ => .clear nofun
  | .cons before value after rest, ⟨hbefore, hvalue, hafter, hrest⟩, index, offset => by
    have hcomma : rest.comma = [] ∨ rest.comma = [','] := by
      cases rest
      · exact .inl rfl
      · exact .inr rfl
    have htail := elements hrest (index + 1)
      (offset + before.length + value.text.length + after.length + rest.comma.length)
    rw [Elements.tokens_comma, Nat.add_assoc _ after.length, ← List.length_append] at htail
    have hhead := (node hvalue).moved (.under (.index index) (offset + before.length))
      (PlacedToken.start_under _ _) (PlacedToken.raw_under _ _)
    have hall := (clear (no_quote_of_blank hbefore)).follow hhead (comma hafter hcomma) htail
    simpa only [Elements.tokens, Elements.text, Elements.textAfter_eq_comma,
      List.append_assoc] using hall

theorem members : ∀ {items : Members}, items.Readable →
    ∀ offset, Explains offset (items.tokens offset) items.text
  | .nil, _, _ => .clear nofun
  | .cons before rawKey name afterKey beforeValue value after rest,
      ⟨hbefore, hkey, hafterKey, hbeforeValue, hvalue, hafter, hrest⟩, offset => by
    have hcomma : rest.comma = [] ∨ rest.comma = [','] := by
      cases rest
      · exact .inl rfl
      · exact .inr rfl
    have hstart : valueStart offset before rawKey afterKey beforeValue = offset +
        (before ++ (rawKey ++ (afterKey ++ [':']) ++ beforeValue)).length := by
      simp only [valueStart, List.length_append, List.length_singleton]
      omega
    have hname : Explains offset [] (before ++ (rawKey ++ (afterKey ++ [':']) ++ beforeValue)) :=
      (clear (no_quote_of_blank hbefore)).append
        ((key hkey fun c hc => Json.isBlank_of_isSpace (hafterKey c hc)).append
          (clear (no_quote_of_blank hbeforeValue)))
    have hhead := (node hvalue).moved
      (.under (.key name) (valueStart offset before rawKey afterKey beforeValue))
      (PlacedToken.start_under _ _) (PlacedToken.raw_under _ _)
    have htail := members hrest (valueStart offset before rawKey afterKey beforeValue +
      value.text.length + after.length + rest.comma.length)
    rw [Members.tokens_comma, Nat.add_assoc _ after.length, ← List.length_append] at htail
    rw [Members.tokens, hstart]
    rw [hstart] at hhead htail
    have hall := hname.follow hhead (comma hafter hcomma) htail
    simpa only [Members.text, Members.textAfter_eq_comma, List.append_assoc, List.cons_append,
      List.nil_append] using hall

end

/-- **Each literal of a document is one of its string tokens, or a key.** -/
theorem document {d : Json.Document} (h : d.Readable) : Explains 0 d.tokens d.text := by
  have hroot : Explains (0 + d.before.length) d.tokens d.root.text := by
    rw [Nat.zero_add]
    exact (node h.root).moved (.shift d.before.length) (PlacedToken.start_shift _)
      (PlacedToken.raw_shift _)
  have hall := ((clear (no_quote_of_blank h.before)).append hroot).append
    (clear (no_quote_of_blank h.after))
  rwa [List.nil_append, List.append_nil] at hall

end Explains

end ScriptCall

end GameText
