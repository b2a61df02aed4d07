import GameText.Proofs.Text.Beginning
import GameText.Text.Blank
import Mathlib.Data.List.TakeWhile

/-!
# Trimming

Trimming takes blanks off the ends of a text and nothing else: what begins or ends with another
character keeps it, and the ends of a trimmed text are the first and the last character that is not
blank.
-/

namespace GameText

namespace Text

theorem trimEnd_append_blanksAtEnd (s : Text) : s.trimEnd ++ s.blanksAtEnd = s := by
  rw [trimEnd, blanksAtEnd, ← List.reverse_append, List.takeWhile_append_dropWhile,
    List.reverse_reverse]

theorem exists_trimStart (s : Text) : ∃ blanks, s = blanks ++ s.trimStart :=
  ⟨s.takeWhile isBlank, List.takeWhile_append_dropWhile.symm⟩

/-! ## Texts of blanks -/

theorem allBlank_append (s t : Text) : allBlank (s ++ t) = (allBlank s && allBlank t) :=
  List.all_append

theorem trimStart_eq_nil_iff {s : Text} : s.trimStart = [] ↔ s.allBlank = true := by
  rw [trimStart, List.dropWhile_eq_nil_iff, allBlank, List.all_eq_true]

/-! ## Trimming around what is not blank -/

theorem trimStart_append {front s : Text} (hs : Stops isBlank s) :
    trimStart (front ++ s) = trimStart front ++ s := by
  rw [trimStart, trimStart, List.dropWhile_append]
  split
  next hblank =>
    have hkept : ([] ++ s).dropWhile isBlank = s :=
      dropWhile_append_of_stops (fun _ h => nomatch h) hs
    rw [List.isEmpty_iff.mp hblank]
    exact hkept
  next => rfl

theorem trimEnd_append {s rest : Text} (hs : Stops isBlank s.reverse) :
    trimEnd (s ++ rest) = s ++ trimEnd rest := by
  have h : (rest.reverse ++ s.reverse).dropWhile isBlank =
      rest.reverse.dropWhile isBlank ++ s.reverse := trimStart_append hs
  rw [trimEnd, trimEnd, List.reverse_append, h, List.reverse_append, List.reverse_reverse]

/-- Between two characters that are not blank nothing is taken off. -/
theorem trim_around {front mid back : Text} {c d : Char} (hc : isBlank c = false)
    (hd : isBlank d = false) :
    (front ++ c :: (mid ++ d :: back)).trim =
      front.trimStart ++ c :: (mid ++ d :: back.trimEnd) := by
  have hstop : Stops isBlank (front.trimStart ++ c :: (mid ++ [d])).reverse := by
    simp only [List.reverse_append, List.reverse_cons, List.append_assoc]
    exact stops_cons.mpr hd
  have hend : trimEnd (front.trimStart ++ c :: (mid ++ [d]) ++ back) =
      front.trimStart ++ c :: (mid ++ [d]) ++ back.trimEnd := trimEnd_append hstop
  rw [trim, trimStart_append (stops_cons.mpr hc)]
  simpa using hend

/-! ## The ends of a trimmed text -/

theorem head?_trim (s : Text) : s.trim.head? = List.find? (fun c => !isBlank c) s := by
  have hstart : s.trimStart.head? = List.find? (fun c => !isBlank c) s :=
    (List.find?_not_eq_head?_dropWhile isBlank s).symm
  rw [← hstart, trim]
  cases hs : s.trimStart with
  | nil => rfl
  | cons c cs =>
    -- The first character is not blank, so trimming the end keeps it.
    have hc : isBlank c = false := by
      rw [hs, List.head?_cons] at hstart
      simpa using List.find?_some hstart.symm
    have hkept : trimEnd ([c] ++ cs) = [c] ++ trimEnd cs := trimEnd_append (stops_cons.mpr hc)
    rw [← List.singleton_append, hkept]
    rfl

theorem getLast?_trim (s : Text) :
    s.trim.getLast? = List.find? (fun c => !isBlank c) s.reverse := by
  have hend : s.trim.getLast? = List.find? (fun c => !isBlank c) s.trimStart.reverse := by
    rw [List.find?_not_eq_head?_dropWhile, trim, trimEnd, List.getLast?_reverse]
  have hblanks : List.find? (fun c => !isBlank c) (s.takeWhile isBlank).reverse = none := by
    rw [List.find?_eq_none]
    intro c hc
    have hblank := List.all_eq_true.mp List.all_takeWhile c (List.mem_reverse.mp hc)
    rw [hblank]
    decide
  have hsplit : s.reverse = s.trimStart.reverse ++ (s.takeWhile isBlank).reverse := by
    rw [← List.reverse_append, trimStart, List.takeWhile_append_dropWhile]
  rw [hend, hsplit, List.find?_append, hblanks, Option.or_none]

/-! ## Texts without blanks at their ends -/

theorem trimStart_of_stops {s : Text} (h : Stops isBlank s) : s.trimStart = s := by
  have hkept : ([] ++ s).dropWhile isBlank = s :=
    dropWhile_append_of_stops (fun _ hc => nomatch hc) h
  exact hkept

theorem trimEnd_of_stops {s : Text} (h : Stops isBlank s.reverse) : s.trimEnd = s := by
  have happend : trimEnd (s ++ []) = s ++ trimEnd [] := trimEnd_append h
  have hnil : trimEnd [] = [] := rfl
  rwa [hnil, List.append_nil] at happend

/-- Trimming leaves a text as it is exactly if neither end is blank. -/
theorem trim_eq_self_iff {s : Text} :
    s.trim = s ↔ Stops isBlank s ∧ Stops isBlank s.reverse := by
  constructor
  · intro h
    have hhead := head?_trim s
    have hlast := getLast?_trim s
    rw [h] at hhead hlast
    refine ⟨fun c hc => ?_, fun c hc => ?_⟩
    · have hfound : List.find? (fun c => !isBlank c) s = some c := by rw [← hhead]; exact hc
      simpa using List.find?_some hfound
    · rw [List.head?_reverse, hlast] at hc
      simpa using List.find?_some hc
  · rintro ⟨hstart, hend⟩
    rw [trim, trimStart_of_stops hstart, trimEnd_of_stops hend]

end Text

end GameText
