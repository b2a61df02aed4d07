import GameText.Localization.Engine

/-!
# Rehearsals

A rehearsal carries work out over a connection whose turns are known, with the workers one after
the other, and records what is reported. Cancelling after a given number of records shows at which
places the work looks up. Because nothing else is in between, the recording is a function of the
work and the turns.
-/

namespace GameText

/-- What a rehearsal has recorded, and where the connection stands. -/
structure Recording (α : Type) where
  wire : Wire
  /-- The number of records after which the work is cancelled. -/
  cancelAt : Option Nat
  cancelled : Bool := false
  records : List α := []

namespace Recording

variable {α : Type}

/-- The work was cancelled, after a record or during a turn. -/
def isCancelled (r : Recording α) : Bool := r.cancelled || r.wire.cancelled

/-- Adds a record. -/
def add (r : Recording α) (record : α) : Recording α :=
  let records := r.records ++ [record]
  { r with records, cancelled := r.cancelled || r.cancelAt == some records.length }

/-- Holds a conversation over the connection of a recording. -/
def converse {β : Type} (talk : Talk β) (r : Recording α) : Except ClientError β × Recording α :=
  let (result, wire) := talk r.wire
  (result, { r with wire })

end Recording

namespace Rehearsal

/-- The surroundings of a worker whose every signal is recorded. -/
def watching (client : Client) : Surroundings (Recording Signal) Breakdown :=
  { cancelled := Recording.isCancelled
    translate := fun job r => r.converse (client.translate job.text job.context)
    translateBatch := fun entries r => r.converse (client.translateBatch entries)
    report := fun signal r => (.ok (), r.add signal)
    broken := id }

/-- Rehearses one worker. -/
def worker (client : Client) (wire : Wire) (cancelAt : Option Nat) (plan : Plan) :
    Except Breakdown Unit × Recording Signal :=
  plan.run (watching client) { wire, cancelAt, cancelled := cancelAt == some 0 }

/-- An engine under rehearsal: what it has announced, and whether another start was asked for when
its run had ended. -/
structure Stage where
  engine : Engine := {}
  recording : Recording Announcement
  /-- The number of records after which the start is repeated; it is ignored while a run goes on. -/
  againAt : Option Nat
  restart : Bool := false

/-- Records an announcement. -/
def Stage.announce (s : Stage) (announcement : Announcement) : Stage :=
  let recording := s.recording.add announcement
  { s with
    recording
    restart := !s.engine.running && s.againAt == some recording.records.length }

/-- The surroundings of an engine's workers. -/
def onStage (client : Client) : Surroundings Stage Breakdown :=
  let converse {β : Type} (talk : Talk β) (s : Stage) : Except ClientError β × Stage :=
    let (result, recording) := s.recording.converse talk
    (result, { s with recording })
  { cancelled := fun s => s.recording.isCancelled
    translate := fun job s => converse (client.translate job.text job.context) s
    translateBatch := fun entries s => converse (client.translateBatch entries) s
    report := fun signal s =>
      let (engine, announcement) := s.engine.receive signal
      let s := { s with engine }
      (.ok (), match announcement with
        | some announcement => s.announce announcement
        | none => s)
    broken := id }

/-- Starts the engine once. Earlier requests to cancel were for workers that are gone. -/
def Stage.start (client : Client) (plans : List Plan) (jobs : Nat) (s : Stage) :
    Except Breakdown Unit × Stage :=
  let recording :=
    { s.recording with cancelled := false, wire := { s.recording.wire with cancelled := false } }
  let s := { s with recording, restart := false }
  if jobs = 0 then (.ok (), s.announce .finished)
  else Plan.runAll (onStage client) plans { s with engine := .start jobs plans.length }

/-- Rehearses the engine with some jobs. -/
def engine (client : Client) (wire : Wire) (workers batchSize : Int) (cancelAt againAt : Option Nat)
    (jobs : List Job) : Except Breakdown Unit × Stage :=
  let plans := Engine.plans workers batchSize jobs
  match Stage.start client plans jobs.length { recording := { wire, cancelAt }, againAt } with
  | (.ok (), s) => if s.restart then Stage.start client plans jobs.length s else (.ok (), s)
  | (.error e, s) => (.error e, s)

end Rehearsal

end GameText
