import GameText.Desktop.Documents

/-!
# Runs in the window

The window starts runs of the engine and follows what they announce: progress with the time that
is left, target texts as they come, and errors. Between two announcements other things may happen
in the window; what happens after an announcement of progress is an argument, so every interleaving
at these places is an instance.
-/

namespace GameText

namespace Window

/-! ## Following announcements -/

/-- Shows how far the run is. -/
def showProgress (done total : Int) (preview : Text) : Act Unit := change fun w =>
  let left := match remainingTime? done total (w.clock.sub w.runStart) with
    | some time => " | ETA: ".toList ++ time
    | none => []
  let label := "Translating ".toList ++ Text.ofInt done ++ '/' :: Text.ofInt total ++ left ++
    ": " ++ preview
  { w with progress := { w.progress.setValue done with label } }

/-- Puts a target text into the document at an index; an index outside the session is ignored. -/
def receiveTarget (document unit : Int) (target : Text) : Act Unit := do
  let w ← get
  if document < 0 ∨ (w.documents.length : Int) ≤ document then return
  match w.bench.receive document.toNat unit target with
  | .error cause => throw (.error (.misfit cause))
  | .ok bench =>
    let _ ← work fun _ => bench
    change fun w =>
      { w with labels := match w.documents[document.toNat]? with
          | some d => w.labels.set document.toNat (label d)
          | none => w.labels }

/-- Tells that the run is over. -/
def finishRun : Act Unit := do
  change fun w =>
    { w with
      runEnabled := !w.documents.isEmpty
      stopEnabled := false
      progress := { w.progress with visible := false, label := [] } }
  relabel
  let session := (← get).bench.session
  say ("Batch complete — " ++ Text.ofNat session.translatedCount ++ '/' ::
    Text.ofNat session.total ++ " translated") 15000

/-- Shows progress, and lets happen what happens after it. -/
def progressed (between : Act Unit) (done total : Int) (preview : Text) : Act Unit := do
  showProgress done total preview
  change fun w => { w with progressCount := w.progressCount + 1 }
  between

/-- Follows an announcement of the engine. -/
def follow (between : Act Unit) : Announcement → Act Unit
  | .progress done total preview => progressed between done total preview
  | .done document unit target => receiveTarget document unit target
  | .failed _ _ message => say ("Error: " ++ message) 5000
  | .finished => finishRun

/-! ## Carrying a run out -/

/-- Lets the client converse over the window's connection. -/
def converse {α : Type} (talk : Client → Talk α) : Window → Except ClientError α × Window :=
  fun w =>
    let (result, wire) := talk w.client w.wire
    (result, { w with wire })

/-- Takes a worker's report in and follows what the engine announces. -/
def report (between : Act Unit) (signal : Signal) : Act Unit := do
  let (engine, announcement) := (← get).engine.receive signal
  change fun w => { w with engine }
  match announcement with
  | some announcement => follow between announcement
  | none => return

/-- What surrounds the workers in the window. -/
def surroundings (between : Act Unit) : Surroundings Window Fault :=
  { cancelled := fun w => w.engine.cancelled
    translate := fun job => converse fun c => c.translate job.text job.context
    translateBatch := fun entries => converse fun c => c.translateBatch entries
    report := fun signal => report between signal
    broken := .breakdown }

/-- The number of workers of a run. -/
def workerCount : Int := 2

/-- Deals the jobs of a run out to the workers of the engine. -/
def deal (jobs : List Job) : Act Unit := change fun w =>
  let plans := Engine.plans workerCount w.settings.batchSize jobs
  { w with engine := .start jobs.length plans.length, jobs }

/-- Carries a run out. Workers of an earlier run that are still on their way were asked to stop, and
stay so. -/
def carryOut (between : Act Unit) (jobs : List Job) : Act Unit := do
  let w ← get
  deal jobs
  let plans := Engine.plans workerCount w.settings.batchSize jobs
  fun w => Plan.runAll (surroundings between) plans w
  change fun now => { now with engine := { now.engine with cancelled := w.engine.cancelled } }

/-! ## Starting a run

What is done with the jobs of a run that is to begin is an argument: they can be worked on at once,
or dealt out to workers that go on beside the window. -/

section Launch

variable (launch : List Job → Act Unit)

/-- Starts a run, unless one is going on, nothing is left to do, or the server cannot be reached. -/
def startRun (jobs : List Job) : Act Unit := do
  let w ← get
  if w.engine.running then return
  if jobs.isEmpty then say "Nothing left to translate" 3000
  else
    let (reached, wire) := w.client.isAvailable w.wire
    change fun w => { w with wire }
    if !reached then
      warn .warning "Ollama Not Reachable" ("Cannot reach Ollama at " ++ w.client.baseUrl ++ ".")
    else
      change fun w =>
        { w with
          progress :=
            { w.progress with range := some jobs.length, value := some 0, visible := true }
          runEnabled := false
          stopEnabled := true
          runStart := w.clock }
      launch jobs

/-- How many units before a unit are its context. -/
def contextLines : Int := 3

/-- Starts a run over all units of the session that wait. -/
def translateAll : Act Unit := do
  match (← get).bench.session.jobs contextLines with
  | .ok jobs => startRun launch jobs
  | .error cause => throw (.error (.misfit cause))

/-- Starts a run over units of the current document that are not blank. -/
def translateUnits (units : List Nat) : Act Unit := do
  match (← get).current? with
  | none => return
  | some (i, d) =>
    match units.mapM fun unit => jobOf? i d.sources contextLines unit (d.source unit) with
    | .ok jobs => startRun launch (jobs.filterMap id)
    | .error cause => throw (.error (.misfit cause))

/-- Starts a run over the current document. -/
def translateDocument : Act Unit := do
  match (← get).current? with
  | none => return
  | some (_, d) => translateUnits launch (List.range d.total)

end Launch

/-- Asks the run to stop. -/
def stopRun : Act Unit := do
  change fun w => { w with engine := w.engine.cancel, stopEnabled := false }
  say "Stopping after current requests..." 3000

end Window

end GameText
