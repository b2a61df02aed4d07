import GameText.Proofs.Json.SpliceValue
import GameText.Proofs.Text.Beginning
import Mathlib.Data.List.TakeWhile

/-!
# Values between other characters

What the reader says of an object that stands between other characters. It is read between blanks
only (`read_around_iff`), and where one begins it ends in one place
(`Node.Readable.object_unique`). A text is refused if more than blanks follow an object
(`read_object_append`), and if it begins, behind blanks, with a character that begins no value
(`read_of_not_starts`).
-/

namespace GameText

namespace Json

open Text (Stops stops_cons)

/-! ## Objects between other characters -/

/-- What is read as an object is written as one, between blanks. -/
theorem exists_object_of_read {s : Text} {members : List (Text × Json)}
    (h : read s = .ok (.obj members)) : ∃ before blanks rows after,
      (Document.mk before (.object blanks rows) after).Readable ∧ rows.values [] = members ∧
        s = before ++ '\x7b' :: (blanks ++ rows.text ++ '\x7d' :: after) := by
  unfold read at h
  cases hd : Document.read s with
  | error refusal =>
    rw [hd] at h
    cases h
  | ok d =>
    rw [hd] at h
    obtain ⟨hreadable, rfl⟩ := Document.readable_of_read hd
    obtain ⟨before, root, after⟩ := d
    have hvalue : root.value = .obj members := Except.ok.inj h
    cases root with
    | scalar raw value =>
      have hscalar := Scalar.isScalar hreadable.root
      rw [Node.value] at hvalue
      rw [hvalue] at hscalar
      cases hscalar
    | string => cases hvalue
    | array => cases hvalue
    | object blanks rows =>
      refine ⟨before, blanks, rows, after, hreadable, Json.obj.inj hvalue, ?_⟩
      simp [Document.text, Node.text]

theorem Document.Readable.read_eq {d : Document} (h : d.Readable) : Json.read d.text = .ok d.value := by
  rw [Json.read, h.read]
  rfl

theorem not_mem_of_isBlank {s : Text} {c : Char} (h : IsBlank s) (hc : isSpace c = false) :
    c ∉ s := by
  intro hmem
  rw [h c hmem] at hc
  cases hc

/-- Blanks around a text play no part in its value. -/
theorem read_between_blanks {front s back : Text} {v : Json} (hfront : IsBlank front)
    (hback : IsBlank back) (h : read s = .ok v) : read (front ++ s ++ back) = .ok v := by
  unfold read at h
  cases hd : Document.read s with
  | error refusal =>
    rw [hd] at h
    cases h
  | ok d =>
    rw [hd] at h
    obtain ⟨hreadable, rfl⟩ := Document.readable_of_read hd
    have hwider : (Document.mk (front ++ d.before) d.root (d.after ++ back)).Readable :=
      ⟨hfront.append hreadable.before, hreadable.root, hreadable.after.append hback⟩
    have hread := hwider.read_eq
    have hvalue : d.value = v := Except.ok.inj h
    simpa [Document.text, Document.value, ← hvalue] using hread

/-- **Between braces and other characters without braces an object is read** only if the characters
around it are blanks, and then it is read as it is. -/
theorem read_around_iff {front mid back : Text} {members : List (Text × Json)}
    (hfront : '\x7b' ∉ front) (hback : '\x7d' ∉ back) :
    read (front ++ '\x7b' :: (mid ++ '\x7d' :: back)) = .ok (.obj members) ↔
      IsBlank front ∧ IsBlank back ∧ read ('\x7b' :: (mid ++ ['\x7d'])) = .ok (.obj members) := by
  constructor
  · intro h
    obtain ⟨before, blanks, rows, after, hreadable, rfl, heq⟩ := exists_object_of_read h
    obtain ⟨rfl, hrest⟩ := Text.eq_of_append_cons_eq hfront
      (not_mem_of_isBlank hreadable.before rfl) heq
    obtain ⟨rfl, rfl⟩ := Text.eq_of_append_cons_eq_of_last hback
      (not_mem_of_isBlank hreadable.after rfl) hrest
    refine ⟨hreadable.before, hreadable.after, ?_⟩
    have hbare : (Document.mk [] (.object blanks rows) []).Readable :=
      ⟨isBlank_nil, hreadable.root, isBlank_nil⟩
    have hread := hbare.read_eq
    simpa [Document.text, Document.value, Node.text, Node.value] using hread
  · rintro ⟨hblank, hblank', h⟩
    have hread := read_between_blanks hblank hblank' h
    simpa using hread

/-- **Where an object begins it ends in one place**: of two beginnings of a text that are objects, one
is the other. -/
theorem Node.Readable.object_unique {blanks blanks' s s' : Text} {rows rows' : Members}
    (h : (Node.object blanks rows).Readable) (h' : (Node.object blanks' rows').Readable)
    (heq : (Node.object blanks rows).text ++ s = (Node.object blanks' rows').text ++ s') :
    s = s' := by
  let fuel := 2 * ((Node.object blanks rows).text.length + (Node.object blanks' rows').text.length)
  have hread := object_readBack (s := s) (read_back fuel).2.2 h (by omega)
  have hread' := object_readBack (s := s') (read_back fuel).2.2 h' (by omega)
  rw [heq, hread'] at hread
  exact (congrArg Prod.snd (Except.ok.inj hread)).symm

/-- What is read as an object from its first brace on. -/
theorem exists_object_of_read_brace {part : Text} {members : List (Text × Json)}
    (h : read ('\x7b' :: (part ++ ['\x7d'])) = .ok (.obj members)) : ∃ blanks rows,
      (Node.object blanks rows).Readable ∧ rows.values [] = members ∧ part = blanks ++ rows.text := by
  obtain ⟨before, blanks, rows, after, hreadable, hvalues, heq⟩ := exists_object_of_read h
  rw [← List.nil_append ('\x7b' :: (part ++ _))] at heq
  obtain ⟨-, hrest⟩ := Text.eq_of_append_cons_eq List.not_mem_nil
    (not_mem_of_isBlank hreadable.before rfl) heq
  obtain ⟨hpart, -⟩ := Text.eq_of_append_cons_eq_of_last List.not_mem_nil
    (not_mem_of_isBlank hreadable.after rfl) hrest
  exact ⟨blanks, rows, hreadable.root, hvalues, hpart⟩

/-! ## Refused texts -/

theorem readScalar_of_not_starts {c : Char} {s : Text} (h : startsScalar c = false) :
    readScalar (c :: s) = .error ⟨.noValue, c :: s⟩ := by
  have hne : ∀ d : Char, startsScalar d = true → c ≠ d := by
    rintro d hd rfl
    rw [h] at hd
    cases hd
  have hdigit : c.isDigit = false := by
    rw [startsScalar, Bool.or_eq_false_iff] at h
    exact h.1
  have hword : readWord (c :: s) = none := by
    simp [readWord, words, Text.after?, hne 'n' (by decide), hne 't' (by decide),
      hne 'f' (by decide), hne 'N' (by decide), hne 'I' (by decide), hne '-' (by decide)]
  have hwhole : readWhole (c :: s) = ([], c :: s) := by
    rw [readWhole, digits, List.takeWhile_cons_of_neg (by simp [hdigit]),
      List.dropWhile_cons_of_neg (by simp [hdigit])]
    exact fun _ heq => hne '0' (by decide) (List.cons.inj heq).1
  have hnumber : readNumber (c :: s) = none := by
    unfold readNumber
    split
    rename_i heq
    split at heq
    next t hdash => exact absurd (List.cons.inj hdash).1 (hne '-' (by decide))
    next =>
      cases heq
      rw [hwhole]
      rfl
  rw [readScalar, hword, hnumber]

/-- A text that begins like no value is refused there. -/
theorem readNode_of_not_starts {c : Char} {s : Text} (h : startsNode c = false) (fuel : Nat) :
    readNode (fuel + 1) (c :: s) = .error ⟨.noValue, c :: s⟩ := by
  rw [startsNode, Bool.or_eq_false_iff] at h
  have hne : ∀ d ∈ "\"[\x7b".toList, c ≠ d := by
    rintro d hd rfl
    rw [List.contains_iff_mem.mpr hd] at h
    cases h.2
  rw [readNode]
  · exact readScalar_of_not_starts h.1
  · exact fun _ heq => hne '"' (by decide) (List.cons.inj heq).1
  · exact fun _ heq => hne '[' (by decide) (List.cons.inj heq).1
  · exact fun _ heq => hne '\x7b' (by decide) (List.cons.inj heq).1

/-- Behind blanks, a text that begins like no value is refused. -/
theorem read_of_not_starts {blanks s : Text} {c : Char} (hblanks : IsBlank blanks)
    (hspace : isSpace c = false) (hstarts : startsNode c = false) (hmark : c ≠ '\uFEFF') :
    read (blanks ++ c :: s) = .error ⟨.noValue, c :: s⟩ := by
  rw [read, Document.read_blanks_append hblanks hspace hmark, readNode_of_not_starts hstarts]
  rfl

/-- An object with more than blanks behind it is refused. -/
theorem read_object_append {before blanks rest : Text} {rows : Members} (hbefore : IsBlank before)
    (hobject : (Node.object blanks rows).Readable) (hrest : ¬ IsBlank rest) :
    read (before ++ ((Node.object blanks rows).text ++ rest)) =
      .error ⟨.trailingText, rest.dropWhile isSpace⟩ := by
  have hread : readNode (2 * (before ++ ((Node.object blanks rows).text ++ rest)).length + 2)
      ((Node.object blanks rows).text ++ rest) = .ok (.object blanks rows, rest) :=
    object_readBack (read_back _).2.2 hobject (by simp only [List.length_append]; omega)
  have hmore : (rest.dropWhile isSpace).isEmpty = false := by
    rw [List.isEmpty_eq_false_iff, Ne, List.dropWhile_eq_nil_iff]
    exact hrest
  simp only [Node.text, List.cons_append] at hread ⊢
  rw [read, Document.read_blanks_append hbefore rfl (by decide), hread]
  simp only [bind, Except.bind, spaces, hmore]
  rfl

end Json

end GameText
