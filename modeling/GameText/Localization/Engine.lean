import GameText.Localization.Work

/-!
# The engine

The engine deals jobs out to workers in runs of consecutive jobs, counts what they report, and
announces the end of the run when the last of them has finished. A second start while a run is
going on is ignored.
-/

namespace GameText

/-- What the engine announces. -/
inductive Announcement where
  | progress (current total : Nat) (preview : Text)
  | done (document unit : Int) (target : Text)
  | failed (document unit : Int) (message : Text)
  | finished
deriving DecidableEq, Repr

namespace Engine

/-- Runs of consecutive elements with the given lengths. -/
def cut {α : Type} (items : List α) : List Nat → List (List α)
  | [] => []
  | size :: sizes => items.take size :: cut (items.drop size) sizes

/-- Splits a list into `n` runs whose lengths differ by one at most, longer ones first. -/
def chunks {α : Type} (items : List α) (n : Int) : List (List α) :=
  if n ≤ 1 then [items]
  else
    let size := items.length / n.toNat
    let longer := items.length % n.toNat
    cut items ((List.range n.toNat).map fun i => size + if i < longer then 1 else 0)

/-- The plans of the workers for some jobs. There are no more workers than jobs, and one at
least. -/
def plans (workers batchSize : Int) (jobs : List Job) : List Plan :=
  (chunks jobs (min workers jobs.length)).map fun chunk =>
    if 1 < batchSize then Plan.ofBatches batchSize chunk else Plan.ofJobs chunk

end Engine

/-- The engine between two reports of its workers: how many jobs the run has and how many were
worked on, how many workers the run has and how many of them have finished. -/
structure Engine where
  total : Nat := 0
  progress : Nat := 0
  workers : Nat := 0
  finished : Nat := 0
  /-- A run is going on. -/
  running : Bool := false
  /-- The workers of the run were asked to stop. -/
  cancelled : Bool := false
deriving DecidableEq, Repr

namespace Engine

/-- The engine at the beginning of a run. -/
def start (jobs workers : Nat) : Engine := { total := jobs, workers, running := true }

/-- Asks the workers of the run to stop. Without a run there is nobody to ask. -/
def cancel (e : Engine) : Engine := if e.workers = 0 then e else { e with cancelled := true }

/-- Ends the run without waiting for its workers, which are asked to stop. -/
def halt (e : Engine) : Engine := { e.cancel with running := false }

/-- Takes a worker's report in, and tells what is to be announced. -/
def receive (e : Engine) : Signal → Engine × Option Announcement
  | .processed preview =>
    let e := { e with progress := e.progress + 1 }
    (e, some (.progress e.progress e.total preview))
  | .done document unit target => (e, some (.done document unit target))
  | .failed document unit message => (e, some (.failed document unit message))
  | .finished =>
    let e := { e with finished := e.finished + 1 }
    if e.workers ≤ e.finished then ({ e with workers := 0, running := false }, some .finished)
    else (e, none)

end Engine

end GameText
