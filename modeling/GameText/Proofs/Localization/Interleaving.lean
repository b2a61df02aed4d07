import GameText.Localization.Engine

/-!
# Workers side by side

A run has workers, each with a plan and a list of jobs, and an engine that hears what they report. A
step of the run is a step of one worker, or the arrival of a report at the engine, or the request to
one worker to stop; which of them comes next is left open, and so is the answer to each call. The
reports of one worker arrive in the order in which they were made, those of different workers in any
order. A report that was made and has not arrived is under way.
-/

namespace GameText

/-- What happens at a worker. -/
inductive Worker.Act where
  /-- It is asked to stop. -/
  | asked
  /-- It looks whether it was asked to stop. -/
  | looks
  /-- It calls the client and has its answer. -/
  | calls
  | reports (signal : Signal)
  /-- The engine hears a report of it. -/
  | heard (signal : Signal)
deriving DecidableEq, Repr

/-- What a worker says with an act. -/
def Worker.Act.said : Worker.Act → List Signal
  | .reports signal => [signal]
  | _ => []

namespace Plan

/-- How a call ends that a worker can go on with: with a result, or with a failure to report. -/
def Answer {α : Type} : Except ClientError α → Prop
  | .ok _ => True
  | .error e => isReported e = true

/-- How a call for a batch ends. The result has each key once. -/
def BatchAnswer : Except ClientError (List (Text × Text)) → Prop
  | .ok results => (results.map Prod.fst).Nodup
  | .error e => isReported e = true

/-- The steps of a plan, for a worker that was asked to stop or was not. -/
inductive Step (asked : Bool) : Plan → Worker.Act → Plan → Prop where
  | reports (signal : Signal) (next : Plan) :
    Step asked (.report signal next) (.reports signal) next
  | looks (yes no : Plan) : Step asked (.ifCancelled yes no) .looks (if asked then yes else no)
  | calls (job : Job) (next : Except ClientError Text → Plan) {answer : Except ClientError Text}
      (h : Answer answer) : Step asked (.translate job next) .calls (next answer)
  | callsBatch (entries : List Client.BatchEntry)
      (next : Except ClientError (List (Text × Text)) → Plan)
      {answer : Except ClientError (List (Text × Text))} (h : BatchAnswer answer) :
    Step asked (.translateBatch entries next) .calls (next answer)

/-- A request to stop comes from outside. -/
theorem Step.ne_asked {asked : Bool} {plan plan' : Plan} {act : Worker.Act}
    (h : plan.Step asked act plan') : act ≠ .asked := by
  cases h <;> exact nofun

end Plan

/-- A worker: its jobs, what it is still to do, and whether it was asked to stop. -/
structure Worker where
  jobs : List Job
  plan : Plan
  asked : Bool := false
  /-- Its reports that the engine has heard. -/
  heard : List Signal := []
  /-- Its reports that are under way. -/
  underway : List Signal := []

namespace Worker

/-- The reports of a worker so far. -/
def said (w : Worker) : List Signal := w.heard ++ w.underway

/-- The steps of a worker. -/
inductive Step : Worker → Act → Worker → Prop where
  | asked (w : Worker) : Step w .asked { w with asked := true }
  | works {w : Worker} {act : Act} {plan : Plan} (h : w.plan.Step w.asked act plan) :
    Step w act { w with plan, underway := w.underway ++ act.said }
  | heard {w : Worker} {signal : Signal} {rest : List Signal} (h : w.underway = signal :: rest) :
    Step w (.heard signal) { w with heard := w.heard ++ [signal], underway := rest }

/-- A worker keeps its jobs. -/
theorem Step.jobs_eq {w w' : Worker} {act : Act} (h : w.Step act w') : w'.jobs = w.jobs := by
  cases h <;> rfl

end Worker

/-- Something that happens at the worker with an ordinal. -/
structure Event where
  worker : Nat
  act : Worker.Act
deriving DecidableEq, Repr

/-- An event that is no request to stop. -/
def Event.isWork (event : Event) : Bool := event.act ≠ .asked

/-- Workers side by side with their engine, and what the engine has announced. -/
structure Run where
  workers : List Worker
  engine : Engine
  announced : List Announcement := []

namespace Run

/-- The beginning of a run: the jobs are dealt out. Without jobs there is nothing to wait for. -/
def start (workers batchSize : Int) (jobs : List Job) : Run :=
  if jobs.isEmpty then { workers := [], engine := {}, announced := [.finished] }
  else
    let plans := Engine.plans workers batchSize jobs
    { workers := (Engine.chunks jobs (min workers jobs.length)).zipWith (fun jobs plan =>
        { jobs, plan }) plans
      engine := .start jobs.length plans.length }

/-- The part of the engine in an act of a worker. -/
def notice (r : Run) : Worker.Act → Run
  | .asked => { r with engine := r.engine.cancel }
  | .heard signal =>
    { r with
      engine := (r.engine.receive signal).1
      announced := r.announced ++ (r.engine.receive signal).2.toList }
  | _ => r

/-- The steps of a run. -/
inductive Step (r : Run) : Event → Run → Prop where
  | of {i : Nat} {act : Worker.Act} {w w' : Worker} (hw : r.workers[i]? = some w) (h : w.Step act w') :
    Step r ⟨i, act⟩ { r.notice act with workers := r.workers.set i w' }

/-- The events that lead from one state of a run to another. -/
inductive Leads : Run → List Event → Run → Prop where
  | refl (r : Run) : Leads r [] r
  | step {r r' r'' : Run} {event : Event} {events : List Event} (h : r.Step event r')
      (rest : Leads r' events r'') : Leads r (event :: events) r''

/-- Nothing can happen any more but requests to stop. -/
def AtRest (r : Run) : Prop := ∀ event r', r.Step event r' → event.isWork = false

/-! ## Steps -/

/-- The engine takes no part in the steps of a plan. -/
theorem notice_of_step {asked : Bool} {plan plan' : Plan} {act : Worker.Act}
    (h : plan.Step asked act plan') (r : Run) : r.notice act = r := by
  cases h <;> rfl

theorem leads_append {r r'' : Run} {before after : List Event} :
    Leads r (before ++ after) r'' ↔ ∃ r', Leads r before r' ∧ Leads r' after r'' := by
  induction before generalizing r with
  | nil =>
    constructor
    · intro h
      exact ⟨r, .refl r, h⟩
    · rintro ⟨r', hbefore, hafter⟩
      cases hbefore
      exact hafter
  | cons event before ih =>
    constructor
    · intro h
      cases h with
      | step hstep hrest =>
        obtain ⟨r', hbefore, hafter⟩ := ih.mp hrest
        exact ⟨r', .step hstep hbefore, hafter⟩
    · rintro ⟨r', hbefore, hafter⟩
      cases hbefore with
      | step hstep hrest => exact .step hstep (ih.mpr ⟨r', hrest, hafter⟩)

/-- What every step preserves is preserved by a run. -/
theorem Leads.invariant {P : Run → Prop} (hstep : ∀ r event r', P r → r.Step event r' → P r')
    {r r' : Run} {events : List Event} (h : Leads r events r') (hr : P r) : P r' := by
  induction h with
  | refl => exact hr
  | step h _ ih => exact ih (hstep _ _ _ hr h)

/-- A step replaces one worker, and the engine takes its part. -/
theorem Step.exists_split {r r' : Run} {event : Event} (h : r.Step event r') :
    ∃ before w after w', r.workers = before ++ w :: after ∧ before.length = event.worker ∧
      w.Step event.act w' ∧
      r' = { r.notice event.act with workers := before ++ w' :: after } := by
  cases h with
  | @of i act w w' hw h =>
    obtain ⟨hi, rfl⟩ := List.getElem?_eq_some_iff.mp hw
    obtain ⟨before, after, hsplit, hlength, hset⟩ :
        ∃ before after, r.workers = before ++ r.workers[i] :: after ∧ before.length = i ∧
          r.workers.set i w' = before ++ w' :: after := List.exists_of_set hi
    exact ⟨before, _, after, w', hsplit, hlength, h, by rw [hset]⟩

end Run

end GameText
