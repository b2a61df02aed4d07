import GameText.Proofs.ScriptCall.Rendered

/-!
# What is written between quotes

Text goes between the quotes of a literal in script lines, where two quotes count and a break ends
the line, and in script calls, where the backquote counts too. One writer serves all of them, so what
it writes must be one literal for both readers. It is, since what it writes is a body
(`Quoted.body_escape`), and a body is closed by the quote behind it and by none inside. The bodies
are also the texts that the writer leaves alone, so writing twice is writing once
(`escape_projects`).
-/

namespace GameText

namespace Quoted

/-- A closed literal is the only one of its text. -/
theorem Closed.spans {t : Text} (h : Closed t) : Text.spans literal? t = [(0, t.length, t)] := by
  have hpieces : pieces literal? t = [.token t t] := by
    have htoken := piecesFrom_token (h.literal?_append none []) h.ne_nil
    rwa [List.append_nil, piecesFrom_nil] at htoken
  rw [Text.spans, hpieces]
  simp only [Piece.spansFrom, Nat.zero_add]

end Quoted

namespace ScriptCall

theorem literals_enclosed {q : Char} {inner : Text} (hq : isQuote q = true)
    (h : Closes q inner) : literals (enclosed q inner) = [⟨0, q, inner⟩] := by
  have hfirst := literalsFrom_literal hq h 0 []
  rwa [List.append_nil, literalsFrom] at hfirst

/-- **Writing between quotes is a projection onto the bodies of literals.** What is written for a text
holds no break, and between its quotes it is one literal for the reader of script calls and, unless
the quote is the backquote, for the reader of script lines. Written again it stays as it is, and the
texts that stay as they are when written are those without a break in which every quote stands
behind an odd number of backslashes and which end with an even number of them. -/
theorem escape_projects {q : Char} (hq : isQuote q = true) (t : Text) :
    let written := Quoted.escape [q] t
    '\r' ∉ written ∧ '\n' ∉ written ∧
      literals (q :: (written ++ [q])) = [⟨0, q, written⟩] ∧
      (q ≠ '`' → Text.spans Quoted.literal? (q :: (written ++ [q])) =
        [(0, written.length + 2, q :: (written ++ [q]))]) ∧
      Quoted.escape [q] written = written ∧
      (written = t ↔ '\r' ∉ t ∧ '\n' ∉ t ∧
        (∀ before after, t = before ++ q :: after → Quoted.backslashesAtEnd before % 2 = 1) ∧
        Quoted.backslashesAtEnd t % 2 = 0) := by
  intro written
  have hencloses := encloses_of_isQuote hq
  have hbody : Quoted.Body q written := Quoted.body_escape hencloses t
  refine ⟨hbody.not_mem (Or.inr rfl), hbody.not_mem (Or.inl rfl),
    literals_enclosed hq (closes_of_body hencloses.1 hbody), fun hline => ?_, hbody.escape_eq, ?_⟩
  · have hquote : Quoted.IsQuote q := by
      rcases isQuote_iff.mp hq with rfl | rfl | rfl
      · exact Or.inr rfl
      · exact Or.inl rfl
      · exact absurd rfl hline
    have hspans := (Quoted.closed_write hquote t).spans
    rw [List.singleton_append, List.cons_append, ← enclosed, length_enclosed] at hspans
    exact hspans
  · rw [Quoted.escape_eq_self_iff_body hencloses, Quoted.body_iff hencloses.1]
    constructor
    · rintro ⟨hline, hquotes, hreturn, hend⟩
      exact ⟨hreturn, hline, hquotes, hend⟩
    · rintro ⟨hreturn, hline, hquotes, hend⟩
      exact ⟨hline, hquotes, hreturn, hend⟩

/-- A bare quote, a protected one, a backslash in front of a break, and one at the end. -/
theorem bare_quote_and_break_written :
    let t : Text := "a\"b\\\"c\\\r\n\\".toList
    let written : Text := "a\\\"b\\\"c\\\\\\n\\\\".toList
    isQuote '"' = true ∧ Quoted.escape ['"'] t = written ∧
      literals ('"' :: (written ++ ['"'])) = [⟨0, '"', written⟩] ∧
      Text.spans Quoted.literal? ('"' :: (written ++ ['"'])) =
        [(0, 15, '"' :: (written ++ ['"']))] ∧
      Quoted.escape ['"'] written = written ∧ written ≠ t := by
  intro t written
  have hquote : isQuote '"' = true := by decide
  have hwritten : Quoted.escape ['"'] t = written := by decide +kernel
  obtain ⟨-, -, hcall, hline, hagain, hsame⟩ := escape_projects hquote t
  rw [hwritten] at hcall hline hagain hsame
  exact ⟨hquote, hwritten, hcall, hline (by decide), hagain,
    fun heq => (hsame.mp heq).1 (by decide)⟩

end ScriptCall

end GameText
