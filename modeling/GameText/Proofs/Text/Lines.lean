import GameText.Proofs.Text.Beginning
import GameText.Text.Lines

/-!
# Lines joined again

The lines of a text joined again are the text, no body holds a line feed, and every terminator but
the last ends in one. From the terminators and the joined text the bodies can therefore be read off
(`WellCut.eq_of_ofLines_eq`), which is why a script is unchanged only if each of its lines is. Cut
again, they are the same lines, except that a carriage return at the end of a body joins the line
feed behind it (`lines_ofLines`). So cutting and joining are inverse to each other on the rows of
bodies and terminators in which no carriage return stands there (`lines_eq_iff_divided`).
-/

namespace GameText

namespace Text

theorem ofLines_cons (l : Line) (ls : List Line) : ofLines (l :: ls) = l.text ++ ofLines ls := rfl

theorem ofLines_singleton (l : Line) : ofLines [l] = l.text := List.append_nil _

theorem ofLines_append (ls ls' : List Line) : ofLines (ls ++ ls') = ofLines ls ++ ofLines ls' :=
  List.flatMap_append

theorem ofLines_consBody (c : Char) (ls : List Line) :
    ofLines (Line.consBody c ls) = c :: ofLines ls := by
  cases ls <;> rfl

/-- **The lines of a text joined again are the text.** -/
theorem ofLines_lines (s : Text) : ofLines (lines s) = s := by
  fun_induction lines s with
  | case1 => rfl
  | case2 cs ih => rw [ofLines_cons, ih]; rfl
  | case3 cs ih => rw [ofLines_cons, ih]; rfl
  | case4 c cs _ _ ih => rw [ofLines_consBody, ih]

/-- Lines as a text has them: no body holds a line feed, every terminator but the last ends in one,
and the last is empty. -/
inductive WellCut : List Line → Prop where
  | last {body : Text} (clean : '\n' ∉ body) : WellCut [⟨body, []⟩]
  | cons {body : Text} {mark : Text} {ls : List Line} (clean : '\n' ∉ body) (plain : '\n' ∉ mark)
      (rest : WellCut ls) : WellCut (⟨body, mark ++ ['\n']⟩ :: ls)

theorem WellCut.consBody {c : Char} {ls : List Line} (hc : c ≠ '\n') (h : WellCut ls) :
    WellCut (Line.consBody c ls) := by
  cases h with
  | last clean => exact .last (List.not_mem_cons_of_ne_of_not_mem hc.symm clean)
  | cons clean plain rest =>
    exact .cons (List.not_mem_cons_of_ne_of_not_mem hc.symm clean) plain rest

theorem wellCut_lines (s : Text) : WellCut (lines s) := by
  fun_induction lines s with
  | case1 => exact .last List.not_mem_nil
  | case2 cs ih => exact @WellCut.cons [] ['\r'] _ List.not_mem_nil (by decide) ih
  | case3 cs ih => exact @WellCut.cons [] [] _ List.not_mem_nil List.not_mem_nil ih
  | case4 c cs _ hc ih => exact ih.consBody hc

theorem WellCut.newline_not_mem {ls : List Line} (h : WellCut ls) : ∀ l ∈ ls, '\n' ∉ l.body := by
  induction h with
  | last clean =>
    intro l hl
    rw [List.mem_singleton.mp hl]
    exact clean
  | cons clean _ _ ih =>
    intro l hl
    rcases List.mem_cons.mp hl with rfl | hl
    · exact clean
    · exact ih l hl

/-- Every line but the last has a character of its own. -/
theorem WellCut.length_le {ls : List Line} (h : WellCut ls) :
    ls.length ≤ (ofLines ls).length + 1 := by
  induction h with
  | last => simp
  | cons _ _ _ ih =>
    simp only [ofLines_cons, Line.text, List.length_cons, List.length_append]
    omega

theorem length_lines_le (s : Text) : (lines s).length ≤ s.length + 1 := by
  have hle := (wellCut_lines s).length_le
  rwa [ofLines_lines] at hle

theorem length_body_le {s : Text} {l : Line} (h : l ∈ lines s) : l.body.length ≤ s.length := by
  obtain ⟨before, after, hsplit⟩ := List.append_of_mem h
  have hlength := congrArg List.length (ofLines_lines s)
  rw [hsplit, ofLines_append, ofLines_cons, Line.text] at hlength
  simp only [List.length_append] at hlength
  omega

/-- Two rows of lines with the same terminators and the same joined text are the same. -/
theorem WellCut.eq_of_ofLines_eq {ls ls' : List Line} (h : WellCut ls) (h' : WellCut ls')
    (hends : ls.map Line.ending = ls'.map Line.ending) (htext : ofLines ls = ofLines ls') :
    ls = ls' := by
  induction h generalizing ls' with
  | @last body clean =>
    cases h' with
    | last clean' =>
      simp only [ofLines, Line.text, List.flatMap_cons, List.flatMap_nil, List.append_nil] at htext
      rw [htext]
    | cons clean' plain' rest' =>
      have hnil := (List.cons.inj hends).1
      exact absurd hnil.symm (List.append_ne_nil_of_right_ne_nil _ (List.cons_ne_nil _ _))
  | @cons body mark ls clean plain rest ih =>
    cases h' with
    | last clean' =>
      have hnil := (List.cons.inj hends).1
      exact absurd hnil (List.append_ne_nil_of_right_ne_nil _ (List.cons_ne_nil _ _))
    | @cons body' mark' ls' clean' plain' rest' =>
      obtain ⟨hmark, hrest⟩ := List.cons.inj hends
      obtain rfl : mark = mark' := List.append_cancel_right hmark
      simp only [ofLines_cons, Line.text, List.append_assoc, List.singleton_append] at htext
      rw [← List.append_assoc, ← List.append_assoc] at htext
      obtain ⟨hbody, htail⟩ := eq_of_append_cons_eq
        (by rw [List.mem_append]; exact not_or.mpr ⟨clean, plain⟩)
        (by rw [List.mem_append]; exact not_or.mpr ⟨clean', plain⟩) htext
      obtain rfl : body = body' := List.append_cancel_right hbody
      rw [ih rest' hrest htail]

/-! ## Lines cut again -/

end Text

/-- The line as it is cut again: a carriage return at the end of the body joins a line feed behind
it. -/
def Line.settled (l : Line) : Line :=
  if l.ending = ['\n'] ∧ l.body.getLast? = some '\r' then ⟨l.body.dropLast, ['\r', '\n']⟩ else l

namespace Text

/-- The terminators that a line can have. -/
def Terminator (ending : Text) : Prop := ending = [] ∨ ending = ['\n'] ∨ ending = ['\r', '\n']

theorem terminator_lines (s : Text) : ∀ l ∈ lines s, Terminator l.ending := by
  fun_induction lines s with
  | case1 => simp [Terminator]
  | case2 cs ih => simpa [Terminator] using ih
  | case3 cs ih => simpa [Terminator] using ih
  | case4 c cs _ _ ih =>
    cases hls : lines cs with
    | nil => simp [Line.consBody, Terminator]
    | cons l ls =>
      rw [hls] at ih
      simpa [Line.consBody] using ih

theorem lines_cons {c : Char} {cs : Text} (hc : c ≠ '\n') (hcr : c = '\r' → cs.head? ≠ some '\n') :
    lines (c :: cs) = Line.consBody c (lines cs) := by
  rw [lines]
  · rintro rest rfl rfl
    exact hcr rfl rfl
  · exact hc

theorem lines_of_not_mem {s : Text} (h : '\n' ∉ s) : lines s = [⟨s, []⟩] := by
  induction s with
  | nil => rfl
  | cons c cs ih =>
    rw [List.mem_cons, not_or] at h
    obtain ⟨hc, hcs⟩ := h
    have hhead : cs.head? ≠ some '\n' := fun heq => hcs (List.mem_of_mem_head? heq)
    rw [lines_cons (Ne.symm hc) fun _ => hhead, ih hcs]
    rfl

theorem lines_append_newline {body : Text} (h : '\n' ∉ body) (rest : Text) :
    lines (body ++ '\n' :: rest) = Line.settled ⟨body, ['\n']⟩ :: lines rest := by
  induction body with
  | nil => rfl
  | cons c cs ih =>
    rw [List.mem_cons, not_or] at h
    obtain ⟨hc, hcs⟩ := h
    cases cs with
    | nil =>
      by_cases hcr : c = '\r'
      · rw [hcr]
        rfl
      · have hsettled : Line.settled ⟨[c], ['\n']⟩ = ⟨[c], ['\n']⟩ :=
          if_neg fun hor => hcr (Option.some.inj hor.2)
        rw [hsettled, List.cons_append, lines_cons (Ne.symm hc) fun heq => absurd heq hcr]
        rfl
    | cons d ds =>
      have hhead : (d :: ds ++ '\n' :: rest).head? ≠ some '\n' := by
        intro heq
        exact hcs (Option.some.inj heq ▸ List.mem_cons_self)
      rw [List.cons_append, lines_cons (Ne.symm hc) fun _ => hhead, ih hcs]
      simp only [Line.settled, List.getLast?_cons_cons, true_and]
      split <;> rfl

/-- **Lines joined and cut again** are the lines, but for carriage returns at the ends of bodies. -/
theorem lines_ofLines {ls : List Line} (h : WellCut ls) (hends : ∀ l ∈ ls, Terminator l.ending) :
    lines (ofLines ls) = ls.map Line.settled := by
  induction h with
  | last clean =>
    rw [ofLines_singleton, Line.text, List.append_nil, lines_of_not_mem clean]
    rfl
  | @cons body mark ls clean plain rest ih =>
    have hrest := ih fun l hl => hends l (List.mem_cons_of_mem _ hl)
    have hmark : '\n' ∉ body ++ mark := List.not_mem_append clean plain
    have hsettled : Line.settled ⟨body ++ mark, ['\n']⟩ = Line.settled ⟨body, mark ++ ['\n']⟩ := by
      rcases hends _ List.mem_cons_self with hend | hend | hend
      · simp at hend
      · obtain rfl : mark = [] := by simpa using hend
        rw [List.append_nil]
        rfl
      · obtain rfl : mark = ['\r'] := List.append_cancel_right hend
        simp [Line.settled]
    rw [ofLines_cons, Line.text, List.append_assoc, List.append_assoc, List.singleton_append,
      ← List.append_assoc, lines_append_newline hmark, hrest, List.map_cons, hsettled]

/-- The lines of a text are settled. -/
theorem map_settled_lines (s : Text) : (lines s).map Line.settled = lines s := by
  rw [← lines_ofLines (wellCut_lines s) (terminator_lines s), ofLines_lines]

/-- A line that does not end in a carriage return before a line feed is settled. -/
theorem settled_of_getLast? {l : Line} (h : l.ending = ['\n'] → l.body.getLast? ≠ some '\r') :
    l.settled = l :=
  if_neg fun hboth => h hboth.1 hboth.2

/-- A carriage return before the line feed of a line belongs to the terminator. -/
theorem getLast?_ne_return {s : Text} {l : Line} (hl : l ∈ lines s) (hending : l.ending = ['\n']) :
    l.body.getLast? ≠ some '\r' := by
  intro hreturn
  obtain ⟨n, hn⟩ := List.mem_iff_getElem?.mp hl
  have hsettled := congrArg (·[n]?) (map_settled_lines s)
  simp only [List.getElem?_map, hn, Option.map_some, Option.some_inj] at hsettled
  rw [Line.settled, if_pos ⟨hending, hreturn⟩] at hsettled
  have hcrlf : ['\r', '\n'] = l.ending := congrArg Line.ending hsettled
  rw [hending] at hcrlf
  exact absurd hcrlf (by decide)

/-! ## Bodies and terminators -/

/-- Lines made of their bodies and their terminators. -/
def linesOf (bodies endings : List Text) : List Line :=
  (bodies.zip endings).map fun (body, ending) => ⟨body, ending⟩

theorem linesOf_map (ls : List Line) : linesOf (ls.map Line.body) (ls.map Line.ending) = ls := by
  rw [linesOf, List.zip_map', List.map_map]
  exact List.map_id' ls

/-- Bodies and terminators, each in a row of its own, as the lines of a text have them. No body
holds a line feed. Every terminator but the last is a line feed, perhaps behind a carriage return,
and the last is empty. A carriage return right before a line feed is part of the terminator. -/
structure Divided (bodies endings : List Text) : Prop where
  paired : bodies.length = endings.length
  clean : ∀ body ∈ bodies, '\n' ∉ body
  marks : ∃ front, endings = front ++ [[]] ∧
    ∀ ending ∈ front, ending = ['\n'] ∨ ending = ['\r', '\n']
  whole : ∀ l ∈ linesOf bodies endings, l.ending = ['\n'] → l.body.getLast? ≠ some '\r'

/-- Every terminator of a row of lines but the last is a line feed, perhaps behind a carriage
return. -/
theorem WellCut.exists_marks {ls : List Line} (h : WellCut ls)
    (hends : ∀ l ∈ ls, Terminator l.ending) :
    ∃ front, ls.map Line.ending = front ++ [[]] ∧
      ∀ ending ∈ front, ending = ['\n'] ∨ ending = ['\r', '\n'] := by
  induction h with
  | last => exact ⟨[], rfl, nofun⟩
  | @cons body mark ls _ _ _ ih =>
    obtain ⟨front, hfront, hmarks⟩ := ih fun l hl => hends l (List.mem_cons_of_mem _ hl)
    refine ⟨(mark ++ ['\n']) :: front, by rw [List.map_cons, hfront]; rfl, ?_⟩
    refine List.forall_mem_cons.mpr ⟨?_, hmarks⟩
    exact (hends _ List.mem_cons_self).resolve_left (List.append_ne_nil_of_right_ne_nil _ nofun)

theorem divided_lines (s : Text) :
    Divided ((lines s).map Line.body) ((lines s).map Line.ending) where
  paired := by rw [List.length_map, List.length_map]
  clean := List.forall_mem_map.mpr (wellCut_lines s).newline_not_mem
  marks := (wellCut_lines s).exists_marks (terminator_lines s)
  whole := by
    rw [linesOf_map]
    exact fun l hl => getLast?_ne_return hl

/-- What is divided like the lines of a text is well cut. -/
theorem wellCut_linesOf {front : List Text} {bodies : List Text}
    (hlength : bodies.length = front.length + 1) (hclean : ∀ body ∈ bodies, '\n' ∉ body)
    (hmarks : ∀ ending ∈ front, ending = ['\n'] ∨ ending = ['\r', '\n']) :
    WellCut (linesOf bodies (front ++ [[]])) ∧
      ∀ l ∈ linesOf bodies (front ++ [[]]), Terminator l.ending := by
  induction front generalizing bodies with
  | nil =>
    obtain ⟨body, rfl⟩ := List.length_eq_one_iff.mp hlength
    exact ⟨.last (hclean body List.mem_cons_self), List.forall_mem_singleton.mpr (.inl rfl)⟩
  | cons ending front ih =>
    obtain ⟨body, bodies, rfl⟩ := List.exists_cons_of_length_eq_add_one hlength
    obtain ⟨hbody, hbodies⟩ := List.forall_mem_cons.mp hclean
    obtain ⟨hending, hfront⟩ := List.forall_mem_cons.mp hmarks
    obtain ⟨hcut, hends⟩ := ih (Nat.succ.inj hlength) hbodies hfront
    refine ⟨?_, List.forall_mem_cons.mpr ⟨.inr hending, hends⟩⟩
    rcases hending with rfl | rfl
    · exact @WellCut.cons body [] _ hbody List.not_mem_nil hcut
    · exact @WellCut.cons body ['\r'] _ hbody (by decide) hcut

theorem Divided.lines_ofLines {bodies endings : List Text} (h : Divided bodies endings) :
    lines (ofLines (linesOf bodies endings)) = linesOf bodies endings := by
  obtain ⟨front, rfl, hmarks⟩ := h.marks
  have hlength : bodies.length = front.length + 1 := by simpa using h.paired
  obtain ⟨hcut, hends⟩ := wellCut_linesOf hlength h.clean hmarks
  have hsettled : ∀ l ∈ linesOf bodies (front ++ [[]]), l.settled = id l :=
    fun l hl => settled_of_getLast? (h.whole l hl)
  rw [Text.lines_ofLines hcut hends, List.map_congr_left hsettled, List.map_id]

/-- **Cutting a text into lines and joining lines are inverse in both directions**: the bodies and
the terminators of a text's lines are the one way to divide it that joins to the text. So the lines
of a text are divided and join to it, and whatever is divided is cut again as it was. -/
theorem lines_eq_iff_divided (s : Text) (bodies endings : List Text) :
    (lines s).map Line.body = bodies ∧ (lines s).map Line.ending = endings ↔
      Divided bodies endings ∧ ofLines (linesOf bodies endings) = s := by
  constructor
  · rintro ⟨rfl, rfl⟩
    exact ⟨divided_lines s, by rw [linesOf_map, ofLines_lines]⟩
  · rintro ⟨hdivided, rfl⟩
    rw [hdivided.lines_ofLines, linesOf, List.map_map, List.map_map]
    exact ⟨List.map_fst_zip (Nat.le_of_eq hdivided.paired),
      List.map_snd_zip (Nat.le_of_eq hdivided.paired.symm)⟩

/-! ## Line breaks inside a text -/

/-- A text without line feeds keeps its characters. -/
theorem inlineBreaks_of_not_mem (mark : Text) {s : Text} (h : '\n' ∉ s) :
    inlineBreaks mark s = s := by
  fun_induction inlineBreaks mark s with
  | case1 => rfl
  | case2 cs => exact absurd (List.mem_cons_of_mem _ List.mem_cons_self) h
  | case3 cs => exact absurd List.mem_cons_self h
  | case4 c cs _ _ ih => rw [ih (List.not_mem_of_not_mem_cons h)]

/-- No line feed is left of a text's own. -/
theorem newline_not_mem_inlineBreaks {mark : Text} (hmark : '\n' ∉ mark) (s : Text) :
    '\n' ∉ inlineBreaks mark s := by
  fun_induction inlineBreaks mark s with
  | case1 => exact List.not_mem_nil
  | case2 cs ih => exact List.not_mem_append hmark ih
  | case3 cs ih => exact List.not_mem_append hmark ih
  | case4 c cs _ hc ih => exact List.not_mem_cons_of_ne_of_not_mem (fun h => hc h.symm) ih

/-- A character that terminators are made of. -/
def EndsLine (c : Char) : Prop := c = '\n' ∨ c = '\r'

/-- A text loses a character when marks without it stand for the text's line breaks. -/
def Flattens (c : Char) (s : Text) : Prop := ∀ mark : Text, c ∉ mark → c ∉ inlineBreaks mark s

theorem flattens_newline (s : Text) : Flattens '\n' s := fun _ hmark =>
  newline_not_mem_inlineBreaks hmark s

/-! ## Carriage returns before line feeds -/

/-- A line feed follows every carriage return. -/
def ReturnsPaired : Text → Prop
  | [] => True
  | c :: cs => (c = '\r' → cs.head? = some '\n') ∧ ReturnsPaired cs

instance decidableReturnsPaired : DecidablePred ReturnsPaired
  | [] => isTrue trivial
  | c :: cs =>
    have := decidableReturnsPaired cs
    inferInstanceAs (Decidable ((c = '\r' → cs.head? = some '\n') ∧ ReturnsPaired cs))

/-- A character that is followed neither by nothing nor by the rest of a terminator is no carriage
return. -/
theorem ReturnsPaired.ne_return {c : Char} {cs : Text} (h : ReturnsPaired (c :: cs))
    (hcrlf : ∀ rest, c = '\r' → cs = '\n' :: rest → False) : c ≠ '\r' := by
  intro hc
  obtain ⟨rest, hrest⟩ := List.head?_eq_some_iff.mp (h.1 hc)
  exact hcrlf rest hc hrest

/-- The carriage returns of a text whose carriage returns are paired stand in its terminators. -/
theorem ReturnsPaired.return_not_mem {s : Text} (h : ReturnsPaired s) :
    ∀ l ∈ lines s, '\r' ∉ l.body := by
  fun_induction lines s with
  | case1 => simp
  | case2 cs ih => simpa using ih h.2.2
  | case3 cs ih => simpa using ih h.2
  | case4 c cs hcrlf _ ih =>
    have hc := h.ne_return hcrlf
    cases hls : lines cs with
    | nil => simpa [Line.consBody] using hc.symm
    | cons l ls =>
      rw [hls] at ih
      obtain ⟨hfirst, hothers⟩ := List.forall_mem_cons.mp (ih h.2)
      refine List.forall_mem_cons.mpr ⟨?_, hothers⟩
      exact List.not_mem_cons_of_ne_of_not_mem hc.symm hfirst

/-- With paired carriage returns neither character of a terminator is left of a text's own. -/
theorem ReturnsPaired.flattens {s : Text} (h : ReturnsPaired s) {c : Char} (hc : EndsLine c) :
    Flattens c s := by
  rcases hc with rfl | rfl
  · exact flattens_newline s
  intro mark hmark
  fun_induction inlineBreaks mark s with
  | case1 => exact List.not_mem_nil
  | case2 cs ih => exact List.not_mem_append hmark (ih h.2.2)
  | case3 cs ih => exact List.not_mem_append hmark (ih h.2)
  | case4 c cs hcrlf _ ih =>
    exact List.not_mem_cons_of_ne_of_not_mem (h.ne_return hcrlf).symm (ih h.2)

/-- A line whose body ends in no carriage return is settled. -/
theorem settled_of_not_mem {l : Line} (h : '\r' ∉ l.body) : l.settled = l :=
  settled_of_getLast? fun _ hlast => h (List.mem_of_getLast? hlast)

/-- A text without carriage returns has its line breaks unified. -/
theorem unifyNewlines_of_not_mem {s : Text} (h : '\r' ∉ s) : s.unifyNewlines = s := by
  fun_induction unifyNewlines s with
  | case1 => rfl
  | case2 cs => exact absurd List.mem_cons_self h
  | case3 cs => exact absurd List.mem_cons_self h
  | case4 c cs _ _ ih => rw [ih (List.not_mem_of_not_mem_cons h)]

end Text

end GameText
