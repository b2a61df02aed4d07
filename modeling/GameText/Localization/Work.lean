import GameText.Session.Basic
import GameText.Localization.Client

/-!
# The work of a run

What a worker does with its jobs is a plan: a finite tree of signals, of calls to the client, and
of places where the worker looks whether it was cancelled. The plan goes on as each call turns out.
Whoever carries plans out decides how they interleave; the plan alone decides what each of them
does.
-/

namespace GameText

/-- What a worker reports. -/
inductive Signal where
  /-- A job is being worked on; the text is a preview. -/
  | processed (preview : Text)
  /-- A target text for a unit. -/
  | done (document unit : Int) (target : Text)
  /-- No target text for a unit. -/
  | failed (document unit : Int) (message : Text)
  | finished
deriving DecidableEq, Repr

/-- Why a worker breaks off without a report. -/
inductive Breakdown where
  /-- A failure of the client that is no report. -/
  | client (cause : ClientError)
  /-- The batch size is zero. -/
  | noBatchSize
deriving DecidableEq, Repr

/-- The words for a breakdown. -/
def Breakdown.message : Breakdown → Text
  | .client cause => cause.message
  | .noBatchSize => "range() arg 3 must not be zero"

/-- What a worker does. -/
inductive Plan where
  | stop
  | breakDown (cause : Breakdown)
  | report (signal : Signal) (next : Plan)
  | ifCancelled (yes no : Plan)
  | translate (job : Job) (next : Except ClientError Text → Plan)
  | translateBatch (entries : List Client.BatchEntry)
      (next : Except ClientError (List (Text × Text)) → Plan)

namespace Plan

/-- A failure that a worker reports; a reply with a value of an unexpected kind is none. -/
def isReported : ClientError → Bool
  | .misfit _ => false
  | _ => true

/-- The first fifty characters of a text on one line. -/
def preview (text : Text) : Text :=
  (text.take 50).map fun c => if c = '\n' then ' ' else c

/-- Translates jobs one at a time, and goes on with `next` when they are done or cancelled. -/
def each (next : Plan) : List Job → Plan
  | [] => next
  | job :: jobs =>
    .ifCancelled next <|
      .report (.processed (preview job.text)) <|
        .translate job fun
          | .ok target =>
            .report (.done job.document job.unit target) (each next jobs)
          | .error e =>
            if isReported e then .report (.failed job.document job.unit e.message) (each next jobs)
            else .breakDown (.client e)

/-- The jobs of a batch with their keys. -/
def keyed (batch : List Job) : List (Text × Job) :=
  batch.zipIdx.map fun (job, i) => ("Line".toList ++ Text.ofNat (i + 1), job)

/-- Reports the target texts of a batch that have a job and are not empty. -/
def reportAll (jobs : List (Text × Job)) (next : Plan) : List (Text × Text) → Plan
  | [] => next
  | (key, target) :: rest =>
    match lookup? key jobs with
    | some job =>
      if target.isEmpty then reportAll jobs next rest
      else
        .report (.processed (preview target)) <|
          .report (.done job.document job.unit target) (reportAll jobs next rest)
    | none => reportAll jobs next rest

/-- The jobs of a batch for which no target text came back. -/
def missing (jobs : List (Text × Job)) (results : List (Text × Text)) : List Job :=
  (jobs.filter fun (key, _) =>
    !results.any fun (k, target) => k == key && !target.isEmpty).map (·.2)

/-- Tries a batch for a number of times, and its jobs one at a time after that. -/
def batch (next : Plan) (jobs : List Job) : Nat → Plan
  | 0 => each next jobs
  | attempts + 1 =>
    .ifCancelled next <|
      .translateBatch ((keyed jobs).map fun (key, job) => ⟨key, job.text, job.context⟩) fun
        | .ok results =>
          reportAll (keyed jobs) (each next (missing (keyed jobs) results)) results
        | .error e => if isReported e then batch next jobs attempts else .breakDown (.client e)

/-- How often a batch is tried. -/
def attempts : Nat := 2

/-- Translates batches one after the other. -/
def batches (next : Plan) : List (List Job) → Plan
  | [] => next
  | b :: bs => .ifCancelled next (batch (batches next bs) b attempts)

/-- The end of every worker's plan. -/
def finish : Plan := .report .finished .stop

/-- Cuts a list into runs of `size` elements, the last of which may be shorter. -/
def runsOf {α : Type} (size : Nat) (items : List α) : List (List α) :=
  if items.isEmpty || size = 0 then []
  else items.take size :: runsOf size (items.drop size)
termination_by items.length
decreasing_by
  rename_i h
  cases items with
  | nil => simp at h
  | cons x xs =>
    simp at h
    simp only [List.length_drop, List.length_cons]
    omega

/-- The plan of a worker that translates its jobs one at a time. -/
def ofJobs (jobs : List Job) : Plan := each finish jobs

/-- The plan of a worker that translates its jobs in batches. -/
def ofBatches (size : Int) (jobs : List Job) : Plan :=
  if size = 0 then .breakDown .noBatchSize
  else batches finish (if size < 0 then [] else runsOf size.toNat jobs)

end Plan

/-! ## Carrying a plan out -/

/-- What surrounds a worker: how the state tells that it was cancelled, how its calls are answered,
and what becomes of its reports. A report may end the run. -/
structure Surroundings (σ ε : Type) where
  cancelled : σ → Bool
  translate : Job → σ → Except ClientError Text × σ
  translateBatch : List Client.BatchEntry → σ → Except ClientError (List (Text × Text)) × σ
  report : Signal → σ → Except ε Unit × σ
  broken : Breakdown → ε

/-- Carries a plan out to its end, with nothing else in between. -/
def Plan.run {σ ε : Type} (around : Surroundings σ ε) : Plan → σ → Except ε Unit × σ
  | .stop, s => (.ok (), s)
  | .breakDown cause, s => (.error (around.broken cause), s)
  | .report signal next, s =>
    match around.report signal s with
    | (.ok (), s) => run around next s
    | (.error e, s) => (.error e, s)
  | .ifCancelled yes no, s => if around.cancelled s then run around yes s else run around no s
  | .translate job next, s =>
    let (result, s) := around.translate job s
    run around (next result) s
  | .translateBatch entries next, s =>
    let (result, s) := around.translateBatch entries s
    run around (next result) s

/-- Carries plans out one after the other, up to the first that breaks off. -/
def Plan.runAll {σ ε : Type} (around : Surroundings σ ε) : List Plan → σ → Except ε Unit × σ
  | [], s => (.ok (), s)
  | plan :: plans, s =>
    match plan.run around s with
    | (.ok (), s) => runAll around plans s
    | (.error e, s) => (.error e, s)

end GameText
