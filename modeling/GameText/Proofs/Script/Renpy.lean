import GameText.Proofs.Edits
import GameText.Proofs.Script.LineEdit
import GameText.Proofs.Text.Lines
import GameText.Proofs.Text.Quoted
import GameText.Script.Renpy

/-!
# Ren'Py literals are written by position

Each edit finds its literal by ordinal on a line that earlier edits have changed. The text units of
a line are its first literals, so on one line `Quoted.foldl_mapNthToken` says that the edits are
made at once; lines do not touch each other, and what remains is that the spans of the source are
the ones the addresses name (`spanAt?`).

A quote that belongs to no literal may pair with a quote of an edit in front of it. Where one stands
in front of a text unit, nothing is established.
-/

namespace GameText

namespace Renpy

/-! ## Where an address points -/

/-- The body of the line that an address names. -/
def bodyAt (ls : List Line) (a : LiteralAddress) : Text :=
  ((ls[a.line.toNat]?).map Line.body).getD []

/-- The span of the literal that an address names among the characters of lines. -/
def spanAt? (ls : List Line) (a : LiteralAddress) : Option (Nat × Nat) :=
  ((bodyAt ls a).spans Quoted.literal?)[a.ordinal.toNat]?.map fun (start, stop, _) =>
    let offset := (Text.ofLines (ls.take a.line.toNat)).length
    (offset + start, offset + stop)

/-- What is written for a text at an address. -/
def written (a : LiteralAddress) (text : Text) : Text :=
  a.quote ++ Quoted.escape a.quote text ++ a.quote

/-- The replacement of the literal at an address. -/
def replacement? (ls : List Line) (row : LiteralAddress × Text) : Option Replacement :=
  (spanAt? ls row.1).map fun (start, stop) => ⟨start, stop, written row.1 row.2⟩

/-! ## The units of a line -/

/-- The unit of a literal of a line. -/
def unitOf (number : Nat) : (Nat × Nat × Text) × Nat → Text × LiteralAddress :=
  fun ((_, _, literal), n) =>
    (Quoted.inner literal, { line := number, ordinal := n, quote := literal.take 1 })

/-- The units of a line are its first literals. -/
theorem lineUnits_isPrefix (line : Text) (number : Nat) :
    lineUnits line number <+: (line.spans Quoted.literal?).zipIdx.map (unitOf number) := by
  rw [lineUnits]
  split
  next =>
    rw [literalsOf, List.map_map]
    exact List.IsPrefix.map _ <| List.takeWhile_prefix _
  next => exact List.nil_prefix

/-- The ordinals of the units of a line count from zero. -/
theorem lineUnits_ordinals (line : Text) (number : Nat) :
    (lineUnits line number).map (·.2.ordinal) =
      (List.range' 0 (lineUnits line number).length).map Int.ofNat := by
  obtain ⟨others, hsplit⟩ := lineUnits_isPrefix line number
  have hall : ((line.spans Quoted.literal?).zipIdx.map (unitOf number)).map (·.2.ordinal) =
      (List.range' 0 (line.spans Quoted.literal?).length).map Int.ofNat := by
    rw [← List.zipIdx_map_snd, List.map_map, List.map_map]
    rfl
  rw [← hsplit, List.map_append] at hall
  obtain ⟨left, right, hrange, hleft, -⟩ := List.map_eq_append_iff.mp hall.symm
  obtain ⟨k, -, rfl, -⟩ := List.range'_eq_append_iff.mp hrange
  have hlength := congrArg List.length hleft
  rw [List.length_map, List.length_map, List.length_range'] at hlength
  rw [← hleft, hlength]

/-- A unit of a line is the unit of one of its literals. -/
theorem exists_of_mem_lineUnits {line : Text} {number : Nat} {unit : Text × LiteralAddress}
    (h : unit ∈ lineUnits line number) :
    ∃ n start stop literal, (line.spans Quoted.literal?)[n]? = some (start, stop, literal) ∧
      unit = unitOf number ((start, stop, literal), n) := by
  obtain ⟨⟨⟨start, stop, literal⟩, n⟩, hmem, rfl⟩ :=
    List.mem_map.mp ((lineUnits_isPrefix line number).subset h)
  exact ⟨n, start, stop, literal, List.mk_mem_zipIdx_iff_getElem?.mp hmem, rfl⟩

theorem length_lineUnits_le (line : Text) (number : Nat) :
    (lineUnits line number).length ≤ Piece.tokenCount (pieces Quoted.literal? line) := by
  have hle := (lineUnits_isPrefix line number).length_le
  rwa [List.length_map, List.length_zipIdx, Text.spans, Piece.length_spansFrom] at hle

/-- What is written at the address of a unit is one literal. -/
theorem closed_written {line : Text} {number : Nat} {unit : Text × LiteralAddress}
    (h : unit ∈ lineUnits line number) (text : Text) : Quoted.Closed (written unit.2 text) := by
  obtain ⟨n, start, stop, literal, hspan, rfl⟩ := exists_of_mem_lineUnits h
  obtain ⟨before, own, after, hpieces, -, -⟩ :=
    Piece.exists_of_mem_spansFrom (List.mem_of_getElem? hspan)
  have htoken : .token literal own ∈ pieces Quoted.literal? line := by
    rw [hpieces]
    exact List.mem_append_right _ List.mem_cons_self
  obtain ⟨hclosed, rfl⟩ := Quoted.closed_of_token_mem htoken
  obtain ⟨q, hq, hquote, -⟩ := hclosed.eq_inner
  rw [written, unitOf]
  simp only [hquote]
  exact Quoted.closed_write hq text

/-! ## One line -/

/-- The line in stretches, its first literals written anew. -/
def lineStretches (rows : List (LiteralAddress × Text)) (l : Line) : List Text.Stretch :=
  Piece.rewriteFirst (rows.map fun row => written row.1 row.2) (pieces Quoted.literal? l.body) ++
    [⟨l.ending, none⟩]

theorem lineStretches_raw (rows : List (LiteralAddress × Text)) (l : Line) :
    (lineStretches rows l).flatMap Text.Stretch.raw = l.text := by
  rw [lineStretches, List.flatMap_append, Piece.rewriteFirst_raw,
    flatMap_raw_pieces Quoted.literal?_cuts, List.flatMap_singleton, Line.text]

theorem raw_ne_nil_of_mem_lineStretches (rows : List (LiteralAddress × Text)) (l : Line) :
    ∀ s ∈ lineStretches rows l, s.new?.isSome → s.raw ≠ [] := by
  intro s hs hsome
  rcases List.mem_append.mp hs with hs | hs
  · exact Piece.raw_ne_nil_of_mem_rewriteFirst
      (fun value own hmem => (Quoted.closed_of_token_mem hmem).1.ne_nil) s hs hsome
  · rw [List.mem_singleton.mp hs] at hsome
    cases hsome

section Rows

variable {rows : List (LiteralAddress × Text)} {line : Text} {number : Nat}

theorem length_rows (haddr : rows.map (·.1) = (lineUnits line number).map (·.2)) :
    rows.length = (lineUnits line number).length := by
  rw [← List.length_map, haddr, List.length_map]

theorem rows_ordinals (haddr : rows.map (·.1) = (lineUnits line number).map (·.2)) :
    rows.map (·.1.ordinal) = (List.range' 0 rows.length).map Int.ofNat := by
  have h := congrArg (List.map LiteralAddress.ordinal) haddr
  rw [List.map_map, List.map_map] at h
  rw [length_rows haddr, ← lineUnits_ordinals]
  exact h

/-- Each row has the address of a unit of the line. -/
theorem exists_unit_of_mem_rows (haddr : rows.map (·.1) = (lineUnits line number).map (·.2))
    {row : LiteralAddress × Text} (hrow : row ∈ rows) :
    ∃ unit ∈ lineUnits line number, unit.2 = row.1 :=
  List.mem_map.mp (haddr ▸ List.mem_map_of_mem hrow)

theorem line_of_mem_rows (haddr : rows.map (·.1) = (lineUnits line number).map (·.2))
    {row : LiteralAddress × Text} (hrow : row ∈ rows) : row.1.line = number := by
  obtain ⟨unit, hunit, heq⟩ := exists_unit_of_mem_rows haddr hrow
  obtain ⟨n, start, stop, literal, -, rfl⟩ := exists_of_mem_lineUnits hunit
  rw [← heq]
  rfl

end Rows

/-- **The edits of one line are made at once.** -/
theorem foldl_writeLiteral {rows : List (LiteralAddress × Text)} {l : Line} {number : Nat}
    (haddr : rows.map (·.1) = (lineUnits l.body number).map (·.2))
    (hclear : ∀ row ∈ rows, Quoted.looseQuoteBefore row.1.ordinal.toNat
      (pieces Quoted.literal? l.body) = false) :
    rows.foldl (fun body row => writeLiteral row.1 row.2 body) l.body ++ l.ending =
      (lineStretches rows l).flatMap Text.Stretch.written := by
  have hlength := length_rows haddr
  have hordinals := rows_ordinals haddr
  have hnth : ∀ n < rows.length, Quoted.looseQuoteBefore n (pieces Quoted.literal? l.body) = false := by
    intro n hn
    have hmem : (n : Int) ∈ rows.map (·.1.ordinal) := by
      rw [hordinals]
      exact List.mem_map_of_mem (List.mem_range'_1.mpr ⟨Nat.zero_le _, by omega⟩)
    obtain ⟨row, hrow, hordinal⟩ := List.mem_map.mp hmem
    have h := hclear row hrow
    rwa [hordinal, Int.toNat_natCast] at h
  let es := rows.map fun row => (row.1.ordinal, written row.1 row.2)
  have hes : es.length = rows.length := List.length_map _
  have hfirst : es.map (·.1) =
      (List.range' (Piece.tokenCount ([] : List (Piece Text))) es.length).map Int.ofNat := by
    rw [hes, List.map_map]
    exact hordinals
  have hcount : es.length ≤ Piece.tokenCount (pieces Quoted.literal? l.body) := by
    rw [hes, hlength]
    exact length_lineUnits_le l.body number
  have hwritten : ∀ e ∈ es, Quoted.Closed e.2 := by
    intro e he
    obtain ⟨row, hrow, rfl⟩ := List.mem_map.mp he
    obtain ⟨unit, hunit, heq⟩ := exists_unit_of_mem_rows haddr hrow
    rw [← heq]
    exact closed_written hunit row.2
  have hfold := Quoted.foldl_mapNthToken hfirst hcount hwritten
    (fun n hn => hnth n (hes ▸ hn)) (fun _ h => nomatch h)
  rw [List.foldl_map, List.map_map] at hfold
  rw [lineStretches, List.flatMap_append, List.flatMap_singleton]
  exact congrArg (· ++ l.ending) hfold

/-- Looking things up by ordinals that count up is reading them in order. -/
theorem filterMap_eq_zipWith {β γ δ : Type} {rows : List β} {ordinal : β → Int} {xs : List γ}
    {make : β → γ → δ} {f : β → Option δ} {m : Nat}
    (hf : ∀ row ∈ rows, f row = (xs[(ordinal row).toNat]?).map (make row))
    (h : rows.map ordinal = (List.range' m rows.length).map Int.ofNat) :
    rows.filterMap f = List.zipWith make rows (xs.drop m) := by
  induction rows generalizing m with
  | nil => rfl
  | cons row rows ih =>
    rw [List.map_cons, List.length_cons, List.range'_succ, List.map_cons] at h
    obtain ⟨hrow, hrest⟩ := List.cons.inj h
    have hhead := hf row List.mem_cons_self
    rw [hrow, Int.ofNat_eq_natCast, Int.toNat_natCast] at hhead
    rw [List.filterMap_cons, hhead, ih (fun r hr => hf r (List.mem_cons_of_mem _ hr)) hrest]
    cases hx : xs[m]? with
    | none =>
      have hlen := List.getElem?_eq_none_iff.mp hx
      rw [List.drop_of_length_le hlen, List.drop_of_length_le (by omega), List.zipWith_nil_right,
        List.zipWith_nil_right]
      rfl
    | some x =>
      obtain ⟨hlt, hget⟩ := List.getElem?_eq_some_iff.mp hx
      rw [List.drop_eq_getElem_cons hlt, hget]
      rfl

/-- The replacements of one line are those at the spans that its addresses name. -/
theorem replacements_lineStretches {rows : List (LiteralAddress × Text)} {pre ls : List Line}
    {l : Line} (haddr : rows.map (·.1) = (lineUnits l.body pre.length).map (·.2)) :
    Text.Stretch.replacements (Text.ofLines pre).length (lineStretches rows l) =
      rows.filterMap (replacement? (pre ++ l :: ls)) := by
  let offset := (Text.ofLines pre).length
  let make (row : LiteralAddress × Text) (span : Nat × Nat × Text) : Replacement :=
    ⟨offset + span.1, offset + span.2.1, written row.1 row.2⟩
  have hspan : ∀ row ∈ rows, replacement? (pre ++ l :: ls) row =
      ((l.body.spans Quoted.literal?)[row.1.ordinal.toNat]?).map (make row) := by
    intro row hrow
    have hbody : (pre ++ l :: ls)[pre.length]? = some l := by
      rw [List.getElem?_append_right (Nat.le_refl _), Nat.sub_self]
      rfl
    rw [replacement?, spanAt?, bodyAt, line_of_mem_rows haddr hrow, Int.toNat_natCast, hbody,
      Option.map_map, List.take_left' rfl]
    rfl
  have hspans : Piece.spansFrom offset (pieces Quoted.literal? l.body) =
      (l.body.spans Quoted.literal?).map fun (start, stop, value) =>
        (offset + start, offset + stop, value) :=
    Piece.spansFrom_add offset 0 _
  rw [filterMap_eq_zipWith hspan (rows_ordinals haddr), List.drop_zero, lineStretches,
    Text.Stretch.replacements_append, Piece.replacements_rewriteFirst, hspans, List.zipWith_map]
  exact List.append_nil _

/-! ## The whole script -/

/-- Rows for the units of some lines, in order: what they write is what replacing at once writes.
`pre` are the lines in front as they are by then, `before` as they were. -/
theorem foldl_rows {ls pre before : List Line} {rows : List (LiteralAddress × Text)}
    (hlen : pre.length = before.length)
    (haddr : rows.map (·.1) = ((ls.map Line.body).zipIdx before.length).flatMap
      fun (line, number) => (lineUnits line number).map (·.2))
    (hclear : ∀ row ∈ rows, Quoted.looseQuoteBefore row.1.ordinal.toNat
      (pieces Quoted.literal? (bodyAt (before ++ ls) row.1)) = false) :
    ∃ ss ls', (∀ s ∈ ss, s.new?.isSome → s.raw ≠ []) ∧
      ss.flatMap Text.Stretch.raw = Text.ofLines ls ∧
      ss.flatMap Text.Stretch.written = Text.ofLines ls' ∧
      rows.foldl (fun ls row => Script.editLineAt (writeLiteral row.1 row.2) row.1.line ls)
        (pre ++ ls) = pre ++ ls' ∧
      Text.Stretch.replacements (Text.ofLines before).length ss =
        rows.filterMap (replacement? (before ++ ls)) := by
  induction ls generalizing pre before rows with
  | nil =>
    obtain rfl : rows = [] := List.map_eq_nil_iff.mp haddr
    exact ⟨[], [], fun _ h => (nomatch h), rfl, rfl, rfl, rfl⟩
  | cons l ls ih =>
    rw [List.map_cons, List.zipIdx_cons, List.flatMap_cons] at haddr
    obtain ⟨own, others, rfl, hown, hothers⟩ := List.map_eq_append_iff.mp haddr
    have hat : ∀ row ∈ own, row.1.line = before.length := fun row hrow => line_of_mem_rows hown hrow
    have hclear_own : ∀ row ∈ own, Quoted.looseQuoteBefore row.1.ordinal.toNat
        (pieces Quoted.literal? l.body) = false := by
      intro row hrow
      have h := hclear row (List.mem_append_left _ hrow)
      rwa [bodyAt, hat row hrow, Int.toNat_natCast, List.getElem?_append_right (Nat.le_refl _),
        Nat.sub_self] at h
    let edited : Line :=
      { l with body := own.foldl (fun body row => writeLiteral row.1 row.2 body) l.body }
    have hsplit : before ++ l :: ls = (before ++ [l]) ++ ls := List.append_cons ..
    have hnext : (pre ++ [edited]).length = (before ++ [l]).length := by
      rw [List.length_append, List.length_append, hlen]
      rfl
    have hothers' : others.map (·.1) = ((ls.map Line.body).zipIdx (before ++ [l]).length).flatMap
        fun (line, number) => (lineUnits line number).map (·.2) := by
      rw [List.length_append]
      exact hothers
    have hclear_others : ∀ row ∈ others, Quoted.looseQuoteBefore row.1.ordinal.toNat
        (pieces Quoted.literal? (bodyAt ((before ++ [l]) ++ ls) row.1)) = false := by
      intro row hrow
      rw [← hsplit]
      exact hclear row (List.mem_append_right _ hrow)
    obtain ⟨ss, ls', hne, hraw, hwritten, hfold, hreplace⟩ := ih hnext hothers' hclear_others
    have hfold_own : own.foldl
        (fun ls row => Script.editLineAt (writeLiteral row.1 row.2) row.1.line ls) (pre ++ l :: ls) =
          pre ++ edited :: ls :=
      Script.foldl_editLineAt_same (fun row : LiteralAddress × Text => row.1.line)
        (fun row => writeLiteral row.1 row.2) (fun row hrow => by rw [hat row hrow, hlen]) l ls
    refine ⟨lineStretches own l ++ ss, edited :: ls', ?_, ?_, ?_, ?_, ?_⟩
    · intro s hs
      rcases List.mem_append.mp hs with hs | hs
      · exact raw_ne_nil_of_mem_lineStretches own l s hs
      · exact hne s hs
    · rw [List.flatMap_append, lineStretches_raw, hraw, Text.ofLines_cons]
    · rw [List.flatMap_append, ← foldl_writeLiteral hown hclear_own, hwritten, Text.ofLines_cons]
      rfl
    · rw [List.foldl_append, hfold_own, List.append_cons, hfold, ← List.append_cons]
    · rw [Text.Stretch.replacements_append, lineStretches_raw, replacements_lineStretches hown,
        List.filterMap_append, hsplit, ← hreplace, Text.ofLines_append, List.length_append,
        Text.ofLines_singleton]

/-- The address of a unit names the span of its literal. -/
theorem spanAt?_of_mem_extract {source : Text} {unit : Text × LiteralAddress}
    (h : unit ∈ extract source) : ∃ start stop, spanAt? source.lines unit.2 = some (start, stop) ∧
      (source.take stop).drop start = unit.2.quote ++ unit.1 ++ unit.2.quote := by
  obtain ⟨⟨line, number⟩, hline, hunit⟩ := List.mem_flatMap.mp h
  have hget := List.mk_mem_zipIdx_iff_getElem?.mp hline
  rw [List.getElem?_map] at hget
  obtain ⟨l, hl, rfl⟩ := Option.map_eq_some_iff.mp hget
  obtain ⟨n, start, stop, literal, hspan, rfl⟩ := exists_of_mem_lineUnits hunit
  let offset := (Text.ofLines (source.lines.take number)).length
  refine ⟨offset + start, offset + stop, ?_, ?_⟩
  · simp only [spanAt?, bodyAt, unitOf, Int.toNat_natCast, hl, Option.map_some, Option.getD_some,
      hspan, offset]
  · obtain ⟨before, own, after, hpieces, hstart, hstop⟩ :=
      Piece.exists_of_mem_spansFrom (List.mem_of_getElem? hspan)
    have htoken : .token literal own ∈ pieces Quoted.literal? l.body := by
      rw [hpieces]
      exact List.mem_append_right _ List.mem_cons_self
    obtain ⟨hclosed, rfl⟩ := Quoted.closed_of_token_mem htoken
    obtain ⟨q, -, hquote, hinner⟩ := hclosed.eq_inner
    have hbody : l.body = before.flatMap Piece.raw ++ (literal ++ after.flatMap Piece.raw) := by
      rw [← flatMap_raw_pieces Quoted.literal?_cuts l.body, hpieces, List.flatMap_append,
        List.flatMap_cons]
      rfl
    have hsource : source = (Text.ofLines (source.lines.take number) ++ before.flatMap Piece.raw) ++
        (literal ++ (after.flatMap Piece.raw ++ l.ending ++
          Text.ofLines (source.lines.drop (number + 1)))) := by
      obtain ⟨hlt, hget⟩ := List.getElem?_eq_some_iff.mp hl
      have hjoin := Text.ofLines_append (source.lines.take number) (source.lines.drop number)
      rw [List.take_append_drop, Text.ofLines_lines, List.drop_eq_getElem_cons hlt, hget,
        Text.ofLines_cons, Line.text, hbody] at hjoin
      simp only [List.append_assoc] at hjoin ⊢
      exact hjoin
    have hslice := Text.take_drop_middle
      (Text.ofLines (source.lines.take number) ++ before.flatMap Piece.raw) literal
      (after.flatMap Piece.raw ++ l.ending ++ Text.ofLines (source.lines.drop (number + 1)))
    rw [← hsource, List.length_append] at hslice
    rw [hstop, hstart, Nat.zero_add, ← Nat.add_assoc, hslice]
    simp only [unitOf, hquote]
    exact hinner

/-- No quote stands outside literals in front of a text unit. -/
def NoLooseQuote (source : Text) : Prop :=
  ∀ unit ∈ extract source, Quoted.looseQuoteBefore unit.2.ordinal.toNat
    (pieces Quoted.literal? (bodyAt source.lines unit.2)) = false

instance (source : Text) : Decidable (NoLooseQuote source) :=
  inferInstanceAs (Decidable (∀ unit ∈ extract source, _))

/-- **Reinsertion is positional whatever the edits contain.** In a script with no loose quote in
front of a text unit, the address of every unit names the span of its literal, the spans stand one
after another, and reinsertion replaces all of them at once by the edits between quotes. -/
theorem reinsert_writes_literals_at_once {source : Text} (clear : NoLooseQuote source)
    (edits : Edits) :
    let mapping := (extract source).map (·.2)
    let replacements := (Edits.rows mapping edits).filterMap (replacement? source.lines)
    (∀ unit ∈ extract source, ∃ start stop, spanAt? source.lines unit.2 = some (start, stop) ∧
        (source.take stop).drop start = unit.2.quote ++ unit.1 ++ unit.2.quote) ∧
      (replacements.Pairwise fun a b => a.stop ≤ b.start) ∧
      reinsert source mapping edits = source.replaceSpans replacements := by
  intro mapping replacements
  have haddr : (Edits.rows mapping edits).map (·.1) =
      ((source.lines.map Line.body).zipIdx ([] : List Line).length).flatMap
        fun (line, number) => (lineUnits line number).map (·.2) := by
    rw [Edits.rows_fst]
    exact List.map_flatMap
  have hclear : ∀ row ∈ Edits.rows mapping edits, Quoted.looseQuoteBefore row.1.ordinal.toNat
      (pieces Quoted.literal? (bodyAt ([] ++ source.lines) row.1)) = false := by
    intro row hrow
    obtain ⟨⟨a, i⟩, hmem, rfl⟩ := List.mem_map.mp hrow
    obtain ⟨unit, hunit, rfl⟩ := List.mem_map.mp (List.fst_mem_of_mem_zipIdx hmem)
    exact clear unit hunit
  have hfront : ([] : List Line).length = ([] : List Line).length := rfl
  obtain ⟨ss, ls', hne, hraw, hwritten, hfold, hreplace⟩ := foldl_rows hfront haddr hclear
  have hspans : Text.Stretch.replacements 0 ss = replacements := hreplace
  have hsource : ss.flatMap Text.Stretch.raw = source := hraw.trans (Text.ofLines_lines source)
  rw [Edits.rows, List.foldl_map] at hfold
  refine ⟨fun unit hunit => spanAt?_of_mem_extract hunit, ?_, ?_⟩
  · rw [← hspans]
    exact Text.Stretch.replacements_pairwise hne
  · have hlines : reinsert source mapping edits = Text.ofLines ls' := congrArg Text.ofLines hfold
    have hwhole := Text.replaceSpans_stretches hne
    rw [hspans, hsource, hwritten] at hwhole
    rw [hlines, hwhole]

/-- Two literals and a comment with a third, edited with quotes of both kinds and a backslash. -/
theorem say_with_comment_written_at_once :
    let source := "e \"Hi\" 'it' # \"x\"\r\n".toList
    let edits : Edits := [some "a\"b'".toList, some "c'\\".toList]
    NoLooseQuote source ∧
      reinsert source ((extract source).map (·.2)) edits =
        "e \"a\\\"b'\" 'c\\'\\\\' # \"x\"\r\n".toList := by
  intro source edits
  have hextract : extract source =
      [("Hi".toList, ⟨0, 0, ['"']⟩), ("it".toList, ⟨0, 1, ['\'']⟩)] := by decide +kernel
  have hclear : NoLooseQuote source := by
    rw [NoLooseQuote, hextract]
    decide +kernel
  refine ⟨hclear, (reinsert_writes_literals_at_once hclear edits).2.2.trans ?_⟩
  rw [hextract]
  decide +kernel

end Renpy

end GameText
