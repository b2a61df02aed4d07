import GameText.Proofs.Script.Renpy

/-!
# A Ren'Py script written back with its own texts

Reinsertion writes every literal anew, changed or not, so a script comes back only if the escaper
leaves the inside of each literal alone. It does unless the literal holds a carriage return
(`Quoted.escape_inside`). One that no line feed follows stands inside the line and inside the
literal, but it is written as the escape sequence of a line break. What is written never holds one
(`Quoted.not_mem_escape`), so a script loses a carriage return at the first such literal, and no
later edit brings it back, wherever that edit finds its literal on the changed line.
-/

namespace GameText

namespace Renpy

/-! ## One literal -/

/-- A unit of a line is the inside of a literal between two stretches of the line, and writing at its
address writes between these stretches. -/
theorem exists_split_of_mem_lineUnits {line : Text} {number : Nat} {unit : Text × LiteralAddress}
    (h : unit ∈ lineUnits line number) :
    ∃ q before after, Quoted.IsQuote q ∧ unit.2.quote = [q] ∧
      Quoted.Closed ([q] ++ unit.1 ++ [q]) ∧ line = before ++ ([q] ++ unit.1 ++ [q] ++ after) ∧
      ∀ text, writeLiteral unit.2 text line = before ++ (written unit.2 text ++ after) := by
  obtain ⟨n, start, stop, literal, hspan, rfl⟩ := exists_of_mem_lineUnits h
  have hvalue : ((pieces Quoted.literal? line).filterMap Piece.value?)[n]? = some literal := by
    rw [← Piece.map_value_spansFrom 0, List.getElem?_map]
    exact congrArg (Option.map _) hspan
  obtain ⟨before, own, after, hpieces, hcount⟩ := Piece.exists_split_of_value? hvalue
  have htoken : .token literal own ∈ pieces Quoted.literal? line := by
    rw [hpieces]
    exact List.mem_append_right _ List.mem_cons_self
  obtain ⟨hclosed, rfl⟩ := Quoted.closed_of_token_mem htoken
  obtain ⟨q, hq, hquote, hinner⟩ := hclosed.eq_inner
  refine ⟨q, before.flatMap Piece.raw, after.flatMap Piece.raw, hq, hquote, ?_, ?_, ?_⟩
  · rw [unitOf, ← hinner]
    exact hclosed
  · rw [unitOf, ← hinner, ← flatMap_raw_pieces Quoted.literal?_cuts line, hpieces,
      List.flatMap_append, List.flatMap_cons]
    rfl
  · intro text
    have hmap := Piece.mapNth_append before 0
      (fun _ _ => written (unitOf number ((start, stop, literal), n)).2 text)
      (.token literal literal :: after)
    rw [Nat.add_zero, hcount, ← hpieces] at hmap
    rw [writeLiteral, Text.mapNthToken, unitOf, if_neg (Int.not_lt.mpr (Int.natCast_nonneg n)),
      Int.toNat_natCast]
    exact hmap

/-- **A literal without a carriage return is written as it is.** -/
theorem writeLiteral_own {line : Text} {number : Nat} {unit : Text × LiteralAddress}
    (h : unit ∈ lineUnits line number) (hline : '\n' ∉ line) (hcr : '\r' ∉ unit.1) :
    writeLiteral unit.2 unit.1 line = line := by
  obtain ⟨q, before, after, -, hquote, ⟨q', inside, -, heq, hclose⟩, hsplit, hwrite⟩ :=
    exists_split_of_mem_lineUnits h
  have hinside : inside = unit.1 ++ [q] := (List.cons.inj heq).2.symm
  obtain rfl : q = q' := (List.cons.inj heq).1
  rw [hinside] at hclose
  have hbreak : '\n' ∉ unit.1 := by
    intro hmem
    apply hline
    rw [hsplit]
    simp only [List.mem_append, hmem, true_or, or_true]
  rw [hwrite, written, hquote, Quoted.escape_inside (hclose []) hcr hbreak, ← hsplit]

/-- No character of a terminator is written at the address of a unit. -/
theorem not_mem_written {c : Char} (hc : Text.EndsLine c) {a : LiteralAddress} {q : Char}
    (hq : Quoted.IsQuote q) (hquote : a.quote = [q]) (text : Text) : c ∉ written a text := by
  have hne : q ≠ c := by
    rcases hc with rfl | rfl
    · exact hq.ne_newline
    · exact hq.ne_cr
  have hown : c ∉ [q] := fun h => hne (List.mem_singleton.mp h).symm
  rw [written, hquote]
  exact List.not_mem_append (List.not_mem_append hown (Quoted.not_mem_escape hc hq.encloses text)) hown

/-- A literal with a carriage return loses it. -/
theorem count_writeLiteral_lt {line : Text} {number : Nat} {unit : Text × LiteralAddress}
    (h : unit ∈ lineUnits line number) (hcr : '\r' ∈ unit.1) (text : Text) :
    (writeLiteral unit.2 text line).count '\r' < line.count '\r' := by
  obtain ⟨q, before, after, hq, hquote, -, hsplit, hwrite⟩ := exists_split_of_mem_lineUnits h
  have hnone : (written unit.2 text).count '\r' = 0 :=
    List.count_eq_zero.mpr (not_mem_written (.inr rfl) hq hquote text)
  have hsome : 0 < unit.1.count '\r' := List.count_pos_iff.mpr hcr
  rw [hwrite, hsplit]
  simp only [List.count_append, hnone]
  omega

/-- Writing with a quote brings no carriage return into any line. -/
theorem count_writeLiteral_le {a : LiteralAddress} {q : Char} (hq : Quoted.IsQuote q)
    (hquote : a.quote = [q]) (text line : Text) :
    (writeLiteral a text line).count '\r' ≤ line.count '\r' := by
  have hnone : (written a text).count '\r' = 0 :=
    List.count_eq_zero.mpr (not_mem_written (.inr rfl) hq hquote text)
  have hraw := flatMap_raw_pieces Quoted.literal?_cuts line
  rw [writeLiteral, Text.mapNthToken]
  split
  next => exact Nat.le_refl _
  next =>
    rcases Piece.mapNth_eq_self_or a.ordinal.toNat (fun _ _ => written a text)
      (pieces Quoted.literal? line) with hsame | ⟨before, v, own, after, hpieces, hmap⟩
    · exact Nat.le_of_eq (congrArg (List.count '\r') (hsame.trans hraw))
    · rw [hpieces, List.flatMap_append, List.flatMap_cons, Piece.raw] at hraw
      calc (Piece.mapNth a.ordinal.toNat (fun _ _ => written a text) _).count '\r'
          = (before.flatMap Piece.raw).count '\r' + (after.flatMap Piece.raw).count '\r' := by
            rw [hmap, List.count_append, List.count_append, hnone, Nat.zero_add]
        _ ≤ line.count '\r' := by
            rw [← hraw, List.count_append, List.count_append]
            omega

/-! ## The whole script -/

/-- The number of carriage returns of a script. -/
def returns (ls : List Line) : Nat := (Text.ofLines ls).count '\r'

theorem returns_append (ls ls' : List Line) : returns (ls ++ ls') = returns ls + returns ls' := by
  rw [returns, Text.ofLines_append, List.count_append]
  rfl

theorem returns_cons (l : Line) (ls : List Line) :
    returns (l :: ls) = l.body.count '\r' + l.ending.count '\r' + returns ls := by
  rw [returns, Text.ofLines_cons, Line.text, List.count_append, List.count_append]
  rfl

/-- An edit of a line counts in its body only. -/
theorem returns_editLineAt {ls : List Line} {n : Nat} {l : Line} (hl : ls[n]? = some l)
    (f : Text → Text) :
    returns (Script.editLineAt f n ls) + l.body.count '\r' =
      returns ls + (f l.body).count '\r' := by
  obtain ⟨hn, hget⟩ := List.getElem?_eq_some_iff.mp hl
  have hsplit : ls.take n ++ l :: ls.drop (n + 1) = ls := by
    rw [← hget, ← List.drop_eq_getElem_cons hn, List.take_append_drop]
  have hedit := Script.editLineAt_append f (ls.take n) l (ls.drop (n + 1))
  rw [List.length_take_of_le (Nat.le_of_lt hn), hsplit] at hedit
  have hbefore := congrArg returns hsplit
  rw [returns_append, returns_cons] at hbefore
  rw [hedit, returns_append, returns_cons]
  dsimp only
  omega

theorem returns_editLineAt_le {f : Text → Text}
    (hf : ∀ body, (f body).count '\r' ≤ body.count '\r') (m : Int) (ls : List Line) :
    returns (Script.editLineAt f m ls) ≤ returns ls := by
  by_cases hm : m < 0
  · exact Nat.le_of_eq (congrArg returns (Script.editLineAt_of_none (Or.inl hm) f))
  · cases hl : ls[m.toNat]? with
    | none => exact Nat.le_of_eq (congrArg returns (Script.editLineAt_of_none (Or.inr hl) f))
    | some l =>
      have hsum := returns_editLineAt hl f
      have hbody := hf l.body
      rw [Int.toNat_of_nonneg (Int.not_lt.mp hm)] at hsum
      omega

/-- A unit of a script is one of a line of the script. -/
theorem exists_line_of_mem_extract {source : Text} {unit : Text × LiteralAddress}
    (h : unit ∈ extract source) :
    ∃ (number : Nat) (l : Line), source.lines[number]? = some l ∧ unit.2.line = number ∧
      unit ∈ lineUnits l.body number := by
  obtain ⟨⟨line, number⟩, hline, hunit⟩ := List.mem_flatMap.mp h
  have hget := List.mk_mem_zipIdx_iff_getElem?.mp hline
  rw [List.getElem?_map] at hget
  obtain ⟨l, hl, rfl⟩ := Option.map_eq_some_iff.mp hget
  have hnumber : unit.2.line = number := by
    obtain ⟨n, start, stop, literal, -, rfl⟩ := exists_of_mem_lineUnits hunit
    rfl
  exact ⟨number, l, hl, hnumber, hunit⟩

/-- Writes the own text of a unit. -/
def writeOwn (ls : List Line) (unit : Text × LiteralAddress) : List Line :=
  Script.editLineAt (writeLiteral unit.2 unit.1) unit.2.line ls

theorem writeOwn_eq_self {source : Text} {unit : Text × LiteralAddress}
    (h : unit ∈ extract source) (hcr : '\r' ∉ unit.1) :
    writeOwn source.lines unit = source.lines := by
  obtain ⟨number, l, hl, hnumber, hunit⟩ := exists_line_of_mem_extract h
  have hclean := (Text.wellCut_lines source).newline_not_mem l (List.mem_of_getElem? hl)
  refine List.ext_getElem? ?_
  intro n
  rw [writeOwn, hnumber, Script.editLineAt_getElem?]
  split
  next hn =>
    obtain rfl : number = n := Int.natCast_inj.mp hn
    rw [hl, Option.map_some, writeLiteral_own hunit hclean hcr]
  next => rfl

theorem returns_writeOwn_lt {source : Text} {unit : Text × LiteralAddress}
    (h : unit ∈ extract source) (hcr : '\r' ∈ unit.1) :
    returns (writeOwn source.lines unit) < returns source.lines := by
  obtain ⟨number, l, hl, hnumber, hunit⟩ := exists_line_of_mem_extract h
  have hsum := returns_editLineAt hl (writeLiteral unit.2 unit.1)
  have hlost := count_writeLiteral_lt hunit hcr unit.1
  rw [writeOwn, hnumber]
  omega

theorem returns_foldl_writeOwn_le {source : Text} {units : List (Text × LiteralAddress)}
    (h : ∀ unit ∈ units, unit ∈ extract source) (ls : List Line) :
    returns (units.foldl writeOwn ls) ≤ returns ls := by
  induction units generalizing ls with
  | nil => exact Nat.le_refl _
  | cons unit units ih =>
    obtain ⟨number, l, -, -, hunit⟩ := exists_line_of_mem_extract (h unit List.mem_cons_self)
    obtain ⟨q, -, -, hq, hquote, -, -, -⟩ := exists_split_of_mem_lineUnits hunit
    calc returns (units.foldl writeOwn (writeOwn ls unit))
        ≤ returns (writeOwn ls unit) := ih (fun u hu => h u (List.mem_cons_of_mem _ hu)) _
      _ ≤ returns ls := returns_editLineAt_le (count_writeLiteral_le hq hquote unit.1) _ _

/-- Units of a script written one after another leave it alone, or it ends with fewer carriage
returns. -/
theorem foldl_writeOwn_cases {source : Text} {units : List (Text × LiteralAddress)}
    (h : ∀ unit ∈ units, unit ∈ extract source) :
    ((∀ unit ∈ units, '\r' ∉ unit.1) ∧ units.foldl writeOwn source.lines = source.lines) ∨
      ((∃ unit ∈ units, '\r' ∈ unit.1) ∧
        returns (units.foldl writeOwn source.lines) < returns source.lines) := by
  induction units with
  | nil => exact Or.inl ⟨fun _ hmem => (nomatch hmem), rfl⟩
  | cons unit units ih =>
    have hunit := h unit List.mem_cons_self
    have hunits : ∀ u ∈ units, u ∈ extract source := fun u hu => h u (List.mem_cons_of_mem _ hu)
    rw [List.foldl_cons]
    by_cases hcr : '\r' ∈ unit.1
    · refine Or.inr ⟨⟨unit, List.mem_cons_self, hcr⟩, ?_⟩
      exact Nat.lt_of_le_of_lt (returns_foldl_writeOwn_le hunits _) (returns_writeOwn_lt hunit hcr)
    · rw [writeOwn_eq_self hunit hcr]
      rcases ih hunits with ⟨hnone, hsame⟩ | ⟨⟨u, hu, hsome⟩, hless⟩
      · exact Or.inl ⟨List.forall_mem_cons.mpr ⟨hcr, hnone⟩, hsame⟩
      · exact Or.inr ⟨⟨u, List.mem_cons_of_mem _ hu, hsome⟩, hless⟩

/-- Writing the own texts is one edit for each unit. -/
theorem reinsert_own (source : Text) (units : List (Text × LiteralAddress)) :
    reinsert source (units.map (·.2)) (Edits.own units) =
      Text.ofLines (units.foldl writeOwn source.lines) := by
  have hrows := congrArg (List.foldl (fun ls (row : LiteralAddress × Text) =>
    Script.editLineAt (writeLiteral row.1 row.2) row.1.line ls) source.lines) (Edits.rows_own units)
  rw [Edits.rows, List.foldl_map, List.foldl_map] at hrows
  exact congrArg Text.ofLines hrows

/-- **A script written back with its own texts** is the script, character for character, exactly if
no text unit holds a carriage return. -/
theorem reinsert_own_texts_eq_iff (source : Text) :
    reinsert source ((extract source).map (·.2)) (Edits.own (extract source)) = source ↔
      ∀ unit ∈ extract source, '\r' ∉ unit.1 := by
  rw [reinsert_own]
  have hall : ∀ unit ∈ extract source, unit ∈ extract source := fun _ hunit => hunit
  rcases foldl_writeOwn_cases hall with
    ⟨hnone, hsame⟩ | ⟨⟨unit, hunit, hcr⟩, hless⟩
  · rw [hsame, Text.ofLines_lines]
    exact ⟨fun _ => hnone, fun _ => rfl⟩
  · constructor
    · intro hsource
      have hcount := congrArg (List.count '\r') (hsource.trans (Text.ofLines_lines source).symm)
      exact absurd hcount (Nat.ne_of_lt hless)
    · intro hnone
      exact absurd hcr (hnone unit hunit)

/-- A carriage return inside a literal comes back as an escape sequence. -/
theorem return_in_literal_not_restored :
    let source := "e \"a\rb\"".toList
    (extract source).map (·.1) = ["a\rb".toList] ∧
      reinsert source ((extract source).map (·.2)) (Edits.own (extract source)) =
        "e \"a\\nb\"".toList ∧
      reinsert source ((extract source).map (·.2)) (Edits.own (extract source)) ≠ source := by
  intro source
  have hextract : extract source = [("a\rb".toList, ⟨0, 0, ['"']⟩)] := by decide +kernel
  rw [hextract]
  decide +kernel

end Renpy

end GameText
