import GameText.Number.Basic

/-!
# The time that is left

How long a run will go on, by how far it has come since it began: hours with one decimal place,
whole minutes, or whole seconds.
-/

namespace GameText

/-- A number of seconds as it is written. -/
def secondsText (seconds : Binary64) : Text :=
  let moreThan (n : Int) := (Number.int n).lt (.float seconds)
  if moreThan 3600 then (seconds.div (.ofInt 3600)).fixedText 1 ++ ['h']
  else if moreThan 60 then (seconds.div (.ofInt 60)).fixedText 0 ++ ['m']
  else seconds.fixedText 0 ++ ['s']

/-- The time that is left after `elapsed` seconds, in which `current` of `total` jobs were worked
on. Before the first of them nothing is known. -/
def remainingTime? (current total : Int) (elapsed : Number) : Option Text :=
  if 0 < current ∧ (Number.int 0).lt elapsed then
    some (secondsText (((Number.int (max 0 (total - current))).mul elapsed).div (.int current)))
  else none

end GameText
