import GameText.Proofs.Text.Lines
import GameText.Script.LineEdit

/-!
# Edits of lines

An edit changes the body of one line and no terminator, so a script whose edits write no line feed
keeps its lines (`wellCut_foldr_editLineAt`). Edits addressed to one line compose on its body; edits
addressed to other lines do not touch it (`foldr_editLineAt_getElem?`).
-/

namespace GameText

namespace Script

theorem editLine_append (f : Text → Text) (pre : List Line) (l : Line) (ls : List Line) :
    editLine f pre.length (pre ++ l :: ls) = pre ++ { l with body := f l.body } :: ls := by
  induction pre with
  | nil => rfl
  | cons p pre ih => rw [List.cons_append, List.length_cons, editLine, ih]; rfl

theorem editLineAt_append (f : Text → Text) (pre : List Line) (l : Line) (ls : List Line) :
    editLineAt f (pre.length : Int) (pre ++ l :: ls) =
      pre ++ { l with body := f l.body } :: ls := by
  rw [editLineAt, if_neg (by omega), Int.toNat_natCast, editLine_append]

theorem editLine_getElem? (f : Text → Text) (m : Nat) (ls : List Line) (n : Nat) :
    (editLine f m ls)[n]? =
      if m = n then ls[n]?.map fun l => { l with body := f l.body } else ls[n]? := by
  induction ls generalizing m n with
  | nil => rw [editLine, List.getElem?_nil, Option.map_none, ite_self]
  | cons l ls ih =>
    cases m with
    | zero =>
      cases n with
      | zero => rfl
      | succ n => rfl
    | succ m =>
      cases n with
      | zero => rfl
      | succ n =>
        rw [editLine, List.getElem?_cons_succ, List.getElem?_cons_succ, ih]
        simp only [Nat.succ_inj]

theorem editLineAt_getElem? (f : Text → Text) (m : Int) (ls : List Line) (n : Nat) :
    (editLineAt f m ls)[n]? =
      if m = n then ls[n]?.map fun l => { l with body := f l.body } else ls[n]? := by
  rw [editLineAt]
  split
  next hneg => rw [if_neg (by omega)]
  next hpos =>
    rw [editLine_getElem?]
    by_cases hm : m = n
    · rw [if_pos hm, if_pos (by omega)]
    · rw [if_neg hm, if_neg (by omega)]

/-- An edit of a line that is not there changes nothing. -/
theorem editLineAt_of_none {ls : List Line} {m : Int} (h : m < 0 ∨ ls[m.toNat]? = none)
    (f : Text → Text) : editLineAt f m ls = ls := by
  refine List.ext_getElem? ?_
  intro n
  rw [editLineAt_getElem?]
  split
  next hm =>
    subst hm
    rcases h with hneg | hnone
    · omega
    · rw [Int.toNat_natCast] at hnone
      rw [hnone, Option.map_none]
  next => rfl

theorem map_ending_editLineAt (f : Text → Text) (m : Int) (ls : List Line) :
    (editLineAt f m ls).map Line.ending = ls.map Line.ending := by
  refine List.ext_getElem? ?_
  intro n
  rw [List.getElem?_map, List.getElem?_map, editLineAt_getElem?]
  split
  next => rw [Option.map_map]; rfl
  next => rfl

/-- A body for a body: a line of a script stays one. -/
theorem wellCut_editLine {f : Text → Text} {ls : List Line} (h : Text.WellCut ls)
    (hf : ∀ body, '\n' ∉ body → '\n' ∉ f body) (m : Nat) : Text.WellCut (editLine f m ls) := by
  induction h generalizing m with
  | last clean =>
    cases m with
    | zero => exact .last (hf _ clean)
    | succ m =>
      rw [editLine, editLine]
      exact .last clean
  | cons clean plain rest ih =>
    cases m with
    | zero => exact .cons (hf _ clean) plain rest
    | succ m => exact .cons clean plain (ih m)

theorem wellCut_editLineAt {f : Text → Text} {ls : List Line} (h : Text.WellCut ls)
    (hf : ∀ body, '\n' ∉ body → '\n' ∉ f body) (m : Int) : Text.WellCut (editLineAt f m ls) := by
  rw [editLineAt]
  split
  next => exact h
  next => exact wellCut_editLine h hf _

variable {β : Type} (line : β → Int) (f : β → Text → Text)

/-- Edits addressed to one line, one after another, are one edit of that line. -/
theorem foldl_editLineAt_same {rows : List β} {pre : List Line}
    (h : ∀ r ∈ rows, line r = pre.length) (l : Line) (ls : List Line) :
    rows.foldl (fun ls r => editLineAt (f r) (line r) ls) (pre ++ l :: ls) =
      pre ++ { l with body := rows.foldl (fun body r => f r body) l.body } :: ls := by
  induction rows generalizing l with
  | nil => rfl
  | cons r rows ih =>
    rw [List.foldl_cons, h r List.mem_cons_self, editLineAt_append,
      ih fun r hr => h r (List.mem_cons_of_mem _ hr)]
    rfl

/-- Where no two edits have one line, an edit is the only one of its line. -/
theorem filter_eq_of_nodup {rows : List β} (h : (rows.map line).Nodup) {r : β} (hr : r ∈ rows) :
    rows.filter (fun r' => line r' = line r) = [r] := by
  obtain ⟨before, after, rfl⟩ := List.append_of_mem hr
  rw [List.map_append, List.map_cons, List.perm_middle.nodup_iff, List.nodup_cons, List.mem_append,
    not_or] at h
  have hnone : ∀ rows' : List β, line r ∉ rows'.map line →
      rows'.filter (fun r' => line r' = line r) = [] := by
    intro rows' hout
    refine List.filter_eq_nil_iff.mpr fun r' hr' heq => hout ?_
    exact List.mem_map.mpr ⟨r', hr', of_decide_eq_true heq⟩
  have hown : (r :: after).filter (fun r' => line r' = line r) =
      r :: after.filter fun r' => line r' = line r :=
    List.filter_cons_of_pos (decide_eq_true rfl)
  rw [List.filter_append, hown, hnone before h.1.1, hnone after h.1.2, List.nil_append]

/-- What is left of a line are the edits addressed to it. -/
theorem foldr_editLineAt_getElem? (rows : List β) (ls : List Line) (n : Nat) :
    (rows.foldr (fun r ls => editLineAt (f r) (line r) ls) ls)[n]? =
      ls[n]?.map fun l =>
        { l with body := (rows.filter fun r => line r = n).foldr f l.body } := by
  induction rows with
  | nil => exact Option.map_id'.symm
  | cons r rows ih =>
    rw [List.foldr_cons, editLineAt_getElem?, ih]
    by_cases hr : line r = n
    · have hfilter : (r :: rows).filter (fun r => line r = n) =
          r :: rows.filter fun r => line r = n :=
        List.filter_cons_of_pos (decide_eq_true hr)
      rw [if_pos hr, Option.map_map, hfilter]
      rfl
    · have hfilter : (r :: rows).filter (fun r => line r = n) = rows.filter fun r => line r = n :=
        List.filter_cons_of_neg (by rw [decide_eq_true_eq]; exact hr)
      rw [if_neg hr, hfilter]

theorem map_ending_foldr_editLineAt (rows : List β) (ls : List Line) :
    (rows.foldr (fun r ls => editLineAt (f r) (line r) ls) ls).map Line.ending =
      ls.map Line.ending := by
  induction rows with
  | nil => rfl
  | cons r rows ih => rw [List.foldr_cons, map_ending_editLineAt, ih]

/-- What no edit writes stands in no body that had none of it. -/
theorem not_mem_foldr_editLineAt {c : Char} {rows : List β} {ls : List Line}
    (h : ∀ l ∈ ls, c ∉ l.body) (hf : ∀ r ∈ rows, ∀ body, c ∉ body → c ∉ f r body) :
    ∀ l ∈ rows.foldr (fun r ls => editLineAt (f r) (line r) ls) ls, c ∉ l.body := by
  intro l hl
  obtain ⟨n, hn⟩ := List.mem_iff_getElem?.mp hl
  rw [foldr_editLineAt_getElem?] at hn
  obtain ⟨before, hbefore, rfl⟩ := Option.map_eq_some_iff.mp hn
  refine List.foldrRecOn (motive := fun body => c ∉ body) _ f
    (h before (List.mem_of_getElem? hbefore)) ?_
  intro body hbody r hr
  exact hf r (List.mem_filter.mp hr).1 body hbody

/-- Edits that write no line feed keep the lines of a script. -/
theorem wellCut_foldr_editLineAt {rows : List β} {ls : List Line} (h : Text.WellCut ls)
    (hf : ∀ r ∈ rows, ∀ body, '\n' ∉ body → '\n' ∉ f r body) :
    Text.WellCut (rows.foldr (fun r ls => editLineAt (f r) (line r) ls) ls) := by
  induction rows with
  | nil => exact h
  | cons r rows ih =>
    exact wellCut_editLineAt (ih fun r hr => hf r (List.mem_cons_of_mem _ hr))
      (hf r List.mem_cons_self) _

/-! ## The units of one line -/

section Units

variable {α : Type} (line : α → Int) (units : Nat → Text → List (Text × α))
  {rows : List (Text × Nat)} {n : Nat}

/-- The units of lines with other numbers are not at a number. -/
theorem filter_units_eq_nil (hline : ∀ number body, ∀ u ∈ units number body, line u.2 = number)
    (hother : ∀ row ∈ rows, row.2 ≠ n) :
    (rows.flatMap fun (body, number) => units number body).filter
      (fun u => line u.2 = (n : Int)) = [] := by
  rw [List.filter_eq_nil_iff]
  intro u hu
  obtain ⟨row, hrow, hunit⟩ := List.mem_flatMap.mp hu
  have hnumber := hline row.2 row.1 u hunit
  have hne := hother row hrow
  simp only [decide_eq_true_eq]
  omega

/-- The units addressed to a line that is read are all the units of the line. -/
theorem filter_units_eq (hline : ∀ number body, ∀ u ∈ units number body, line u.2 = number)
    (hdistinct : (rows.map (·.2)).Nodup) {body : Text} (hmem : (body, n) ∈ rows) :
    (rows.flatMap fun (body, number) => units number body).filter
      (fun u => line u.2 = (n : Int)) = units n body := by
  obtain ⟨before, after, rfl⟩ := List.append_of_mem hmem
  rw [List.map_append, List.map_cons, List.perm_middle.nodup_iff, List.nodup_cons, List.mem_append,
    not_or] at hdistinct
  have hnone : ∀ rows' : List (Text × Nat), n ∉ rows'.map (·.2) →
      (rows'.flatMap fun (body, number) => units number body).filter
        (fun u => line u.2 = (n : Int)) = [] := by
    intro rows' hout
    refine filter_units_eq_nil line units hline fun row hrow hsame => hout ?_
    exact List.mem_map.mpr ⟨row, hrow, hsame⟩
  have hown : (units n body).filter (fun u => line u.2 = (n : Int)) = units n body :=
    List.filter_eq_self.mpr fun u hu => decide_eq_true (hline n body u hu)
  rw [List.flatMap_append, List.flatMap_cons, List.filter_append, List.filter_append,
    hnone before hdistinct.1.1, hnone after hdistinct.1.2, hown, List.nil_append, List.append_nil]

end Units

end Script

end GameText
