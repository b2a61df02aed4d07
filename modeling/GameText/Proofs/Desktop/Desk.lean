import GameText.Proofs.Desktop.Growth
import GameText.Proofs.Localization.Accounting

/-!
# The window beside its workers

While a run goes on, the window and the workers go on side by side: a worker acts, the window hears
a report of a worker, or something is done in the window. Which comes next is left open. A document
has an identity as long as it is open, and no other document ever has it.

Results land in the document that they were made for (`result_lands`): when the window hears a
target text, the document at its index is the one that stood there when the jobs of the run were
collected, and the text is put into its unit and nowhere else. The reason is that documents are
closed and sessions are loaded only while no run is going on (`Window.Core.Leads.grows`), and that
no report is under way then (`Desk.Sound.running`).

A gesture is one step here. Its dialog is the first or the last thing that it does, so what is heard
while the dialog is open is heard before the gesture or after it. Gestures that close the window are
left aside.
-/

namespace GameText

/-- What is heard comes from what was reported before. -/
theorem Plan.Step.ne_heard {asked : Bool} {plan plan' : Plan} {act : Worker.Act}
    (h : plan.Step asked act plan') (signal : Signal) : act ≠ .heard signal := by
  cases h <;> exact nofun

/-- The window with the workers of its last run. -/
structure Desk where
  window : Window
  workers : List Worker := []
  /-- What the engine has announced in the run. -/
  announced : List Announcement := []
  /-- The identities of the documents when the jobs of the run were collected. -/
  collected : List Nat := []

/-- The window after a gesture; the jobs of a run that it starts are dealt out. -/
def Window.handle (g : Gesture) (turns : List ScriptedTurn) (w : Window) : Window :=
  (Window.perform (pure ()) Window.deal g (w.ready turns)).2

namespace Desk

/-- What happens at the desk. -/
inductive Event where
  /-- An act of the worker with an ordinal. -/
  | worker (i : Nat) (act : Worker.Act)
  /-- Something is done in the window, with the server's turns and the texts that it writes. -/
  | gesture (g : Gesture) (turns : List ScriptedTurn) (writes : List Write)

/-- The run as it is without the window. -/
def run (d : Desk) : Run := ⟨d.workers, d.window.engine, d.announced⟩

/-- The desk when something was done in the window. If a run has begun, its jobs are dealt out to
new workers; those of the run before have nothing left to report then. If the run was asked to stop,
its workers are. -/
def after (d : Desk) (w : Window) : Desk :=
  if d.window.engine.running = false ∧ w.engine.running = true then
    { window := w
      workers := (Run.start Window.workerCount w.settings.batchSize w.jobs).workers
      collected := w.identities }
  else
    { d with
      window := w
      workers := d.workers.map fun worker =>
        { worker with asked := worker.asked || w.engine.cancelled } }

/-- The steps of a desk. -/
inductive Step (d : Desk) : Event → Desk → Prop where
  | works {i : Nat} {act : Worker.Act} {w : Worker} {plan : Plan} (hw : d.workers[i]? = some w)
      (h : w.plan.Step w.asked act plan) :
    Step d (.worker i act)
      { d with workers := d.workers.set i { w with plan, underway := w.underway ++ act.said } }
  | hears {i : Nat} {signal : Signal} {w : Worker} {rest : List Signal}
      (hw : d.workers[i]? = some w) (h : w.underway = signal :: rest) :
    Step d (.worker i (.heard signal))
      { d with
        window := (Window.report (pure ()) signal d.window).2
        workers := d.workers.set i { w with heard := w.heard ++ [signal], underway := rest }
        announced := d.announced ++ (d.window.engine.receive signal).2.toList }
  | gesture {g : Gesture} (hg : g.isOrdinary = true) (turns : List ScriptedTurn) :
    Step d (.gesture g turns (d.window.writes g))
      (d.after (d.window.handle g turns))

/-- The events that lead from one state of a desk to another. -/
inductive Leads : Desk → List Event → Desk → Prop where
  | refl (d : Desk) : Leads d [] d
  | step {d d' d'' : Desk} {event : Event} {events : List Event} (h : d.Step event d')
      (rest : Leads d' events d'') : Leads d (event :: events) d''

theorem Leads.trans {d d' d'' : Desk} {events events' : List Event} (h : d.Leads events d')
    (h' : d'.Leads events' d'') : d.Leads (events ++ events') d'' := by
  induction h with
  | refl => exact h'
  | step hstep _ ih => exact .step hstep (ih h')

/-- What holds of a desk at any time. -/
structure Sound (d : Desk) : Prop where
  core : d.window.core.Sound
  /-- The workers are those of a run over the jobs, if there are any. -/
  run : d.workers ≠ [] → d.run.Sound d.window.jobs
  /-- The run goes on until the end of each worker was heard. -/
  live : d.window.engine.finished < d.workers.length → d.window.engine.running = true
  /-- While the run goes on, the documents that it was collected from are in their places. -/
  places : d.window.engine.running = true → d.collected <+: d.window.identities
  /-- While the run goes on, its jobs are for units of these documents. -/
  jobs : d.window.engine.running = true → ∀ job ∈ d.window.jobs,
    ∃ (k unit : Nat) (document : SessionDocument), job.address = (↑k, ↑unit) ∧
      k < d.collected.length ∧ d.window.documents[k]? = some document ∧ unit < document.total

/-- While a report is under way, the run goes on. -/
theorem Sound.running {d : Desk} (h : d.Sound) {w : Worker} (hw : w ∈ d.workers)
    (hunderway : w.underway ≠ []) : d.window.engine.running = true := by
  have hrun : d.run.Sound d.window.jobs := h.run (List.ne_nil_of_mem hw)
  exact h.live (hrun.finished_lt hw hunderway)

/-- The run when a worker has acted on its own. -/
theorem run_works {d : Desk} {i : Nat} {act : Worker.Act} {w : Worker} {plan : Plan}
    (hw : d.workers[i]? = some w) (h : w.plan.Step w.asked act plan) :
    d.run.Step ⟨i, act⟩ { d.run with
      workers := d.workers.set i { w with plan, underway := w.underway ++ act.said } } := by
  have hstep := Run.Step.of (r := d.run) hw (.works h)
  rwa [Run.notice_of_step h] at hstep

/-- The run when the engine has heard a report. -/
theorem run_hears {d : Desk} {i : Nat} {signal : Signal} {w : Worker} {rest : List Signal}
    (hw : d.workers[i]? = some w) (h : w.underway = signal :: rest) :
    d.run.Step ⟨i, .heard signal⟩
      { workers := d.workers.set i { w with heard := w.heard ++ [signal], underway := rest }
        engine := (d.window.engine.receive signal).1
        announced := d.announced ++ (d.window.engine.receive signal).2.toList } :=
  Run.Step.of (r := d.run) hw (.heard h)

/-- A result that is heard is for one of the jobs. -/
theorem Sound.exists_job {d : Desk} (h : d.Sound) {i : Nat} {signal : Signal} {w : Worker}
    {rest : List Signal} (hw : d.workers[i]? = some w) (hunderway : w.underway = signal :: rest)
    {a : Int × Int} (ha : signal.address? = some a) :
    ∃ job ∈ d.window.jobs, job.address = a := by
  have hrun := h.run (List.ne_nil_of_mem (List.mem_of_getElem? hw))
  have hheard := hrun.step (run_hears hw hunderway)
  have hsub := Run.addresses_subperm hheard.workers
  rw [hheard.dealt] at hsub
  have hlt := (List.getElem?_eq_some_iff.mp hw).1
  have hmem : signal ∈ (d.workers.set i
      { w with heard := w.heard ++ [signal], underway := rest }).flatMap Worker.heard :=
    List.mem_flatMap.mpr ⟨_, List.mem_set hlt _, List.mem_append_right _ List.mem_cons_self⟩
  exact List.mem_map.mp (hsub.subset (List.mem_filterMap.mpr ⟨signal, hmem, ha⟩))

/-- A target text that is heard is for a unit that is there. -/
theorem Sound.exists_unit {d : Desk} (h : d.Sound) {i : Nat} {document unit : Int} {text : Text}
    {w : Worker} {rest : List Signal} (hw : d.workers[i]? = some w)
    (hunderway : w.underway = .done document unit text :: rest) :
    ∃ (k u : Nat) (doc : SessionDocument), document = k ∧ unit = u ∧ k < d.collected.length ∧
      d.window.documents[k]? = some doc ∧ u < doc.total := by
  have hrunning := h.running (List.mem_of_getElem? hw) (hunderway ▸ List.cons_ne_nil _ _)
  obtain ⟨job, hjob, haddress⟩ := h.exists_job hw hunderway rfl
  obtain ⟨k, u, doc, hunit, hk, hdoc, hu⟩ := h.jobs hrunning job hjob
  have hsame : ((document, unit) : Int × Int) = (↑k, ↑u) := haddress.symm.trans hunit
  exact ⟨k, u, doc, congrArg Prod.fst hsame, congrArg Prod.snd hsame, hk, hdoc, hu⟩

/-! ## Steps -/

theorem Sound.works {d : Desk} (h : d.Sound) {i : Nat} {act : Worker.Act} {w : Worker} {plan : Plan}
    (hw : d.workers[i]? = some w) (hplan : w.plan.Step w.asked act plan) :
    Sound { d with
      workers := d.workers.set i { w with plan, underway := w.underway ++ act.said } } where
  core := h.core
  run _ := (h.run (List.ne_nil_of_mem (List.mem_of_getElem? hw))).step (run_works hw hplan)
  live hlt := h.live (by rwa [List.length_set] at hlt)
  places := h.places
  jobs := h.jobs

/-- **What hearing a report changes**: the engine takes it in, and a target text goes to its
unit. -/
theorem Sound.heard_core {d : Desk} (h : d.Sound) {i : Nat} {signal : Signal} {w : Worker}
    {rest : List Signal} (hw : d.workers[i]? = some w) (hunderway : w.underway = signal :: rest) :
    (Window.report (pure ()) signal d.window).2.core = { d.window.core with
      documents := putAll signal.writes d.window.documents
      engine := (d.window.engine.receive signal).1 } := by
  cases signal with
  | done document unit text =>
    obtain ⟨k, u, doc, rfl, rfl, -, hdoc, hu⟩ := h.exists_unit hw hunderway
    have hfilled : doc.total ≤ doc.targets.length := h.core.filled doc (List.mem_of_getElem? hdoc)
    rw [Window.report_done_core hdoc (Nat.lt_of_lt_of_le hu hfilled)]
    rfl
  | processed preview => exact Window.report_core rfl _
  | failed document unit message => exact Window.report_core rfl _
  | finished => exact Window.report_core rfl _

/-- The engine goes on until it has heard the end of each worker. -/
theorem running_receive {workers : Nat} {e : Engine} (hworkers : e.workers = workers)
    (hrunning : e.running = true) (signal : Signal)
    (hopen : (e.receive signal).1.finished < workers) : (e.receive signal).1.running = true := by
  cases signal with
  | finished =>
    unfold Engine.receive at hopen ⊢
    by_cases hlast : e.workers ≤ e.finished + 1
    · simp only [hlast, if_true] at hopen
      omega
    · simp only [hlast, if_false]
      exact hrunning
  | _ => exact hrunning

/-- Writing keeps the jobs for units that are there. -/
theorem exists_unit_of_total {ds ds' : List SessionDocument} {k unit : Nat} {doc : SessionDocument}
    (hsame : ds.map SessionDocument.total <+: ds'.map SessionDocument.total)
    (hdoc : ds[k]? = some doc) (hunit : unit < doc.total) :
    ∃ doc', ds'[k]? = some doc' ∧ unit < doc'.total := by
  have htotal : (ds.map SessionDocument.total)[k]? = some doc.total := by
    rw [List.getElem?_map, hdoc]
    rfl
  obtain ⟨added, hadded⟩ := hsame
  have hlt := (List.getElem?_eq_some_iff.mp htotal).1
  have htotal' : (ds'.map SessionDocument.total)[k]? = some doc.total := by
    rw [← hadded, List.getElem?_append_left hlt, htotal]
  rw [List.getElem?_map] at htotal'
  obtain ⟨doc', hdoc', heq⟩ := Option.map_eq_some_iff.mp htotal'
  exact ⟨doc', hdoc', heq ▸ hunit⟩

theorem Sound.hears {d : Desk} (h : d.Sound) {i : Nat} {signal : Signal} {w : Worker}
    {rest : List Signal} (hw : d.workers[i]? = some w) (hunderway : w.underway = signal :: rest) :
    Sound { d with
      window := (Window.report (pure ()) signal d.window).2
      workers := d.workers.set i { w with heard := w.heard ++ [signal], underway := rest }
      announced := d.announced ++ (d.window.engine.receive signal).2.toList } := by
  have hmem := List.mem_of_getElem? hw
  have hrunning := h.running hmem (hunderway ▸ List.cons_ne_nil _ _)
  have hrun := h.run (List.ne_nil_of_mem hmem)
  have hheard := hrun.step (run_hears hw hunderway)
  have hopen : d.window.engine.finished < d.workers.length :=
    hrun.finished_lt hmem (hunderway ▸ List.cons_ne_nil _ _)
  have hcore := h.heard_core hw hunderway
  generalize (Window.report (pure ()) signal d.window).2 = w' at hcore ⊢
  have hdocuments : w'.documents = putAll signal.writes d.window.documents :=
    congrArg Window.Core.documents hcore
  have hengine : w'.engine = (d.window.engine.receive signal).1 :=
    congrArg Window.Core.engine hcore
  have hjobs : w'.jobs = d.window.jobs := congrArg Window.Core.jobs hcore
  have hidentities : w'.identities = d.window.identities :=
    congrArg Window.Core.identities hcore
  have hsame := map_putAll (f := SessionDocument.total) (fun _ _ _ => rfl) signal.writes
    d.window.documents
  have htotals : d.window.documents.map SessionDocument.total <+:
      w'.documents.map SessionDocument.total :=
    hdocuments.symm ▸ hsame.symm ▸ List.prefix_rfl
  refine ⟨?_, fun _ => ?_, fun hlt => ?_, fun _ => ?_, fun _ => ?_⟩
  · have hwritten := (Window.Core.leads_putAll d.window.core signal.writes).sound h.core
    show w'.core.Sound
    rw [hcore]
    exact ⟨hwritten.aligned, hwritten.distinct, hwritten.fresh, hwritten.filled⟩
  · show Run.Sound w'.jobs ⟨_, w'.engine, _⟩
    rw [hengine, hjobs]
    exact hheard
  · show w'.engine.running = true
    rw [hengine]
    have hlt : w'.engine.finished < (d.workers.set i _).length := hlt
    rw [hengine, List.length_set] at hlt
    exact running_receive (hrun.tally.waiting hopen).1 hrunning signal hlt
  · rw [hidentities]
    exact h.places hrunning
  · intro job hjob
    rw [hjobs] at hjob
    obtain ⟨k, unit, doc, haddress, hk, hdoc, hunit⟩ := h.jobs hrunning job hjob
    obtain ⟨doc', hdoc', hunit'⟩ := exists_unit_of_total htotals hdoc hunit
    exact ⟨k, unit, doc', haddress, hk, hdoc', hunit'⟩

/-- Workers that are asked to stop, or left alone, go on as a sound run. -/
theorem Sound.ask {d : Desk} (h : d.Sound) {engine : Engine} (asked : Bool)
    (hengine : engine = d.window.engine ∨ engine = d.window.engine.cancel)
    (hne : d.workers ≠ []) : Run.Sound d.window.jobs
      ⟨d.workers.map fun worker => { worker with asked := worker.asked || asked }, engine,
        d.announced⟩ := by
  have hrun := h.run hne
  have hheard : (d.workers.map fun worker : Worker => { worker with asked := worker.asked || asked
      }).flatMap Worker.heard = d.workers.flatMap Worker.heard := List.flatMap_map ..
  refine ⟨?_, ?_, ?_⟩
  · intro w hw
    obtain ⟨worker, hworker, rfl⟩ := List.mem_map.mp hw
    have hsound : worker.Sound := hrun.workers worker hworker
    cases asked with
    | true =>
      rw [Bool.or_true]
      exact hsound.step (.asked worker)
    | false =>
      rw [Bool.or_false]
      exact hsound
  · exact (List.flatMap_map ..).trans hrun.dealt
  · show Tally (d.workers.map _).length _ ((d.workers.map _).flatMap Worker.heard) engine _
    rw [List.length_map, hheard]
    rcases hengine with rfl | rfl
    · exact hrun.tally
    · exact hrun.tally.cancel

theorem finished_of_asked {e e' : Engine} (h : e' = e ∨ e' = e.cancel) :
    e'.finished = e.finished := by
  rcases h with rfl | rfl
  · rfl
  · unfold Engine.cancel
    split <;> rfl

/-- A gesture that starts no run. -/
theorem Sound.moves {d : Desk} (h : d.Sound) {w' : Window} {ws : List Write}
    (hleads : d.window.core.Leads ws w'.core) : Sound (d.after w') := by
  have hrunning : w'.engine.running = d.window.engine.running := hleads.running_eq
  have hjobs : w'.jobs = d.window.jobs := hleads.jobs_eq
  have hstays : ¬(d.window.engine.running = false ∧ w'.engine.running = true) := by
    rw [hrunning]
    simp
  rw [after, if_neg hstays]
  refine ⟨hleads.sound h.core, fun hne => ?_, fun hlt => ?_, fun hgoes => ?_, fun hgoes => ?_⟩
  · show Run.Sound w'.jobs ⟨_, w'.engine, _⟩
    rw [hjobs]
    exact h.ask _ hleads.engine_eq fun hnil => hne (by simp only [hnil, List.map_nil])
  · have hlt : w'.engine.finished < (d.workers.map _).length := hlt
    have hfinished : w'.engine.finished = d.window.engine.finished :=
      finished_of_asked hleads.engine_eq
    rw [List.length_map, hfinished] at hlt
    exact hrunning.trans (h.live hlt)
  · have hgoes : d.window.engine.running = true := hrunning.symm.trans hgoes
    exact (h.places hgoes).trans (hleads.grows hgoes).1
  · have hgoes : d.window.engine.running = true := hrunning.symm.trans hgoes
    have htotals : d.window.documents.map SessionDocument.total <+:
        w'.documents.map SessionDocument.total := by
      have hgrows := (hleads.grows hgoes).2.map SessionDocument.total
      rwa [map_putAll fun _ _ _ => rfl] at hgrows
    intro job hjob
    have hjob : job ∈ w'.jobs := hjob
    rw [hjobs] at hjob
    obtain ⟨k, unit, doc, haddress, hk, hdoc, hunit⟩ := h.jobs hgoes job hjob
    obtain ⟨doc', hdoc', hunit'⟩ := exists_unit_of_total htotals hdoc hunit
    exact ⟨k, unit, doc', haddress, hk, hdoc', hunit'⟩

/-- A gesture that starts a run deals its jobs out to new workers. -/
theorem after_begins {d : Desk} {w' : Window} {c' : Window.Core} {jobs : List Job}
    (hidle : d.window.engine.running = false) (h : c'.Begins jobs w'.core) :
    d.after w' =
      { window := w'
        workers := (Run.start Window.workerCount w'.settings.batchSize jobs).workers
        collected := c'.identities } := by
  have hrunning : w'.engine.running = true := h.running
  have hjobs : w'.jobs = jobs := congrArg Window.Core.jobs h.started
  have hidentities : w'.identities = c'.identities :=
    congrArg Window.Core.identities h.started
  rw [after, if_pos ⟨hidle, hrunning⟩, hjobs, hidentities]

theorem Sound.begins {d : Desk} (h : d.Sound) {w' : Window} {c' : Window.Core} {ws : List Write}
    {jobs : List Job} (hleads : d.window.core.Leads ws c') (hbegins : c'.Begins jobs w'.core) :
    Sound (d.after w') := by
  have hidle : d.window.engine.running = false := hleads.running_eq.symm.trans hbegins.idle
  have hc' := hleads.sound h.core
  have hdocuments : w'.documents = c'.documents :=
    congrArg Window.Core.documents hbegins.started
  have hidentities : w'.identities = c'.identities :=
    congrArg Window.Core.identities hbegins.started
  have hjobs : w'.jobs = jobs := congrArg Window.Core.jobs hbegins.started
  have hengine := congrArg Window.Core.engine hbegins.started
  rw [after_begins hidle hbegins]
  refine ⟨?_, fun _ => ?_, fun _ => hbegins.running, fun _ => ?_, fun _ => ?_⟩
  · show w'.core.Sound
    rw [hbegins.started]
    exact ⟨hc'.aligned, hc'.distinct, hc'.fresh, hc'.filled⟩
  · have hstart := Run.Sound.start Window.workerCount w'.settings.batchSize jobs
    rw [Run.start_of_ne_nil _ _ hbegins.ne_nil] at hstart
    show Run.Sound w'.jobs ⟨(Run.start _ _ jobs).workers, w'.engine, []⟩
    rw [hjobs, Run.start_of_ne_nil _ _ hbegins.ne_nil]
    have hengine : w'.engine = _ := hengine
    rw [hengine]
    exact hstart
  · exact hidentities.symm ▸ List.prefix_rfl
  · intro job hjob
    have hjob : job ∈ w'.jobs := hjob
    rw [hjobs] at hjob
    obtain ⟨k, unit, doc, haddress, hdoc, hunit⟩ := hbegins.placed job hjob
    refine ⟨k, unit, doc, haddress, ?_, hdocuments ▸ hdoc, hunit⟩
    show k < c'.identities.length
    rw [hc'.aligned]
    exact (List.getElem?_eq_some_iff.mp hdoc).1

theorem Sound.step {d d' : Desk} {event : Event} (h : d.Sound) (hstep : d.Step event d') :
    d'.Sound := by
  cases hstep with
  | works hw hplan => exact h.works hw hplan
  | hears hw hunderway => exact h.hears hw hunderway
  | gesture hg turns =>
    obtain ⟨c', hleads, hsame | ⟨jobs, hbegins⟩⟩ :=
      Window.perform_goes hg (pure ()) (d.window.ready turns)
    · exact h.moves (hsame ▸ hleads)
    · exact h.begins hleads hbegins

theorem Sound.leads {d d' : Desk} {events : List Event} (h : d.Sound) (hleads : d.Leads events d') :
    d'.Sound := by
  induction hleads with
  | refl => exact h
  | step hstep _ ih => exact ih (h.step hstep)

/-- The window at the start of the program is sound. -/
theorem sound_ofDisk {disk : Disk} {w : Window} (h : Window.ofDisk disk = .ok w) :
    Sound { window := w } := by
  obtain ⟨settings, -, h⟩ := bind_eq_ok h
  cases h
  refine ⟨⟨rfl, .nil, nofun, nofun⟩, fun hne => absurd rfl hne, nofun, nofun, nofun⟩

section Gestures

variable {v w : Window} {workers : List Worker} {announced : List Announcement}
  {collected : List Nat} {g : Gesture}

/-- A gesture that starts a run. -/
theorem Step.begins (hg : g.isOrdinary = true) (turns : List ScriptedTurn)
    (hidle : v.engine.running = false) (hw : v.handle g turns = w)
    (hrunning : w.engine.running = true) {size : Int} (hsize : w.settings.batchSize = size)
    {jobs : List Job} (hjobs : w.jobs = jobs) {identities : List Nat}
    (hidentities : w.identities = identities) :
    Step { window := v, workers, announced, collected } (.gesture g turns (v.writes g))
      { window := w
        workers := (Run.start Window.workerCount size jobs).workers
        collected := identities } := by
  have hstep := Step.gesture (d := { window := v, workers, announced, collected }) hg turns
  rwa [after, hw, if_pos ⟨hidle, hrunning⟩, hsize, hjobs, hidentities] at hstep

/-- A gesture that starts no run and stops none. -/
theorem Step.goesOn (hg : g.isOrdinary = true) (turns : List ScriptedTurn)
    (hw : v.handle g turns = w) (hsame : w.engine.running = v.engine.running)
    (hcancelled : w.engine.cancelled = false) :
    Step { window := v, workers, announced, collected } (.gesture g turns (v.writes g))
      { window := w, workers, announced, collected } := by
  have hstep := Step.gesture (d := { window := v, workers, announced, collected }) hg turns
  have hstays : ¬(v.engine.running = false ∧ w.engine.running = true) := by
    rw [hsame]
    simp
  have hworkers : workers.map (fun worker : Worker =>
      { worker with asked := worker.asked || w.engine.cancelled }) = workers := by
    simp only [hcancelled, Bool.or_false, List.map_id']
  rwa [after, hw, if_neg hstays, hworkers] at hstep

end Gestures

/-! ## A run over one text -/

/-- A worker whose report of the target text for its one job is under way. -/
def answered (job : Job) (text : Text) : Worker where
  jobs := [job]
  plan := Plan.finish
  heard := [.processed (Plan.preview job.text)]
  underway := [.done job.document job.unit text]

/-- The worker when the window has heard its report. -/
def delivered (job : Job) (text : Text) : Worker where
  jobs := [job]
  plan := Plan.finish
  heard := [.processed (Plan.preview job.text), .done job.document job.unit text]

/-- A worker with one job gets its target text and reports it. -/
theorem Leads.answered (window : Window) (collected : List Nat) (job : Job) (text : Text) :
    Leads { window, workers := [.hire 1 [job]], collected }
      [.worker 0 .looks, .worker 0 (.reports (.processed (Plan.preview job.text))),
        .worker 0 (.heard (.processed (Plan.preview job.text))), .worker 0 .calls,
        .worker 0 (.reports (.done job.document job.unit text))]
      { window := (Window.report (pure ()) (.processed (Plan.preview job.text)) window).2
        workers := [Desk.answered job text]
        announced := (window.engine.receive (.processed (Plan.preview job.text))).2.toList
        collected } :=
  .step (.works rfl (.looks ..)) <|
    .step (.works rfl (.reports ..)) <|
    .step (.hears rfl rfl) <|
    .step (.works rfl (@Plan.Step.calls _ _ _ (.ok text) trivial)) <|
    .step (.works rfl (.reports ..)) <| .refl _

/-- The window hears the target text. -/
theorem Step.hears_answered (window : Window) (announced : List Announcement)
    (collected : List Nat) (job : Job) (text : Text) :
    Step { window, workers := [answered job text], announced, collected }
      (.worker 0 (.heard (.done job.document job.unit text)))
      { window := (Window.report (pure ()) (.done job.document job.unit text) window).2
        workers := [delivered job text]
        announced := announced ++ [.done job.document job.unit text]
        collected } := .hears (w := answered job text) rfl rfl

/-- A script of one line, and settings under which texts are translated one at a time. -/
def greeting : Disk where
  files := [(["a.rpy".toList], Utf8.encode "e \"Hi\"".toList),
    ([Window.settingsFile], Utf8.encode "\x7b\"batch_size\": 1\x7d".toList)]

/-- The window over the script. -/
def greetingStart : Window where
  settings := { batchSize := 1 }
  disk := greeting
  bench := Workbench.setDark {} true
  store := { lifetime := .int ({} : Settings).lifetime }

theorem ofDisk_greeting : Window.ofDisk greeting = .ok greetingStart := by
  have hload : Settings.load (greeting.read Window.settingsFile).toOption =
    .ok { batchSize := 1 } := by decide +kernel
  simp only [Window.ofDisk, hload]
  rfl

/-- The window with the script. -/
def greetingOpened : Window :=
  greetingStart.handle (.choose .openDocuments { paths := ["a.rpy".toList] }) []

/-- The server lists its models, which tells that it is there. -/
def greetingTurns : List ScriptedTurn :=
  [{ turn := .answer 200 "OK".toList "\x7b\"models\": []\x7d".toList }]

/-- The window with the run over the script. -/
@[irreducible]
def greetingBegun : Window := greetingOpened.handle (.choose .translateAll {}) greetingTurns

/-- The job for the line of the script. -/
def greetingJob : Job := ⟨0, 0, "Hi".toList, []⟩

theorem greeting_opens : Leads { window := greetingStart }
    [.gesture (.choose .openDocuments { paths := ["a.rpy".toList] }) [] []]
    { window := greetingOpened } := by
  have hw : greetingStart.handle (.choose .openDocuments { paths := ["a.rpy".toList] }) [] =
      greetingOpened := by rw [greetingOpened]
  obtain ⟨hsame, hcancelled⟩ : greetingOpened.engine.running = greetingStart.engine.running ∧
      greetingOpened.engine.cancelled = false := by decide +kernel
  have hopens : Step { window := greetingStart }
      (.gesture (.choose .openDocuments { paths := ["a.rpy".toList] }) [] [])
      { window := greetingOpened } := .goesOn rfl [] hw hsame hcancelled
  exact .step hopens (.refl _)

theorem greeting_idle : greetingOpened.engine.running = false := by decide +kernel

theorem greeting_goes : greetingBegun.engine.running = true := by decide +kernel

/-- The run has one worker, and the script is the first document that was ever opened. -/
theorem greeting_begins : Step { window := greetingOpened }
    (.gesture (.choose .translateAll {}) greetingTurns [])
    { window := greetingBegun, workers := [.hire 1 [greetingJob]], collected := [0] } := by
  have hw : greetingOpened.handle (.choose .translateAll {}) greetingTurns = greetingBegun := by
    rw [greetingBegun]
  obtain ⟨hone, hjobs, hfirst⟩ : greetingBegun.settings.batchSize = 1 ∧
      greetingBegun.jobs = [greetingJob] ∧ greetingBegun.identities = [0] := by decide +kernel
  exact .begins rfl greetingTurns greeting_idle hw greeting_goes hone hjobs hfirst

/-! ## Where results land -/

/-- **Results land in the document that they were made for.** When the window hears a target text,
the document at its index is the one that stood there when the jobs of the run were collected; the
text is put into its unit, which is there, and nothing else is changed in any document. -/
theorem result_lands {disk : Disk} {w : Window} (hstart : Window.ofDisk disk = .ok w)
    {events : List Event} {d d' : Desk} (hleads : Leads { window := w } events d) {i : Nat}
    {document unit : Int} {text : Text}
    (hstep : d.Step (.worker i (.heard (.done document unit text))) d') :
    (document, unit) ∈ d.window.jobs.map Job.address ∧
    ∃ (k u identity : Nat) (doc : SessionDocument), document = k ∧ unit = u ∧
      d.collected[k]? = some identity ∧ d.window.identities[k]? = some identity ∧
      d.window.identities.Nodup ∧ d.window.documents[k]? = some doc ∧ u < doc.total ∧
      d'.window.identities = d.window.identities ∧
      d'.window.documents = d.window.documents.set k (doc.setTarget u (.str text)) := by
  have hsound : d.Sound := (sound_ofDisk hstart).leads hleads
  cases hstep with
  | works hw hplan => exact absurd rfl (hplan.ne_heard _)
  | @hears _ _ w rest hw hunderway =>
    have hrunning := hsound.running (List.mem_of_getElem? hw) (hunderway ▸ List.cons_ne_nil _ _)
    obtain ⟨k, u, doc, rfl, rfl, hk, hdoc, hu⟩ := hsound.exists_unit hw hunderway
    have hcollected : d.collected[k]? = some d.collected[k] := List.getElem?_eq_getElem hk
    have hthere : d.window.identities[k]? = some d.collected[k] := by
      obtain ⟨added, hadded⟩ := hsound.places hrunning
      rw [← hadded, List.getElem?_append_left hk, hcollected]
    have hcore := hsound.heard_core hw hunderway
    have hdocuments := congrArg Window.Core.documents hcore
    refine ⟨List.mem_map.mpr (hsound.exists_job hw hunderway rfl), k, u, _, doc, rfl, rfl,
      hcollected, hthere, hsound.core.distinct, hdoc, hu,
      congrArg Window.Core.identities hcore, ?_⟩
    exact hdocuments.trans (Write.put_eq_set hdoc u text)

/-- The result for the only line of a script lands in it. -/
theorem greeting_lands : ∃ events d d', Leads { window := greetingStart } events d ∧
    d.Step (.worker 0 (.heard (.done 0 0 "Salut".toList))) d' ∧
    d'.window.documents.map (·.targets.map Json.text?) = [[some "Salut".toList]] ∧
    ∃ (k u identity : Nat) (doc : SessionDocument), (0 : Int) = k ∧ (0 : Int) = u ∧
      d.collected[k]? = some identity ∧ d.window.identities[k]? = some identity ∧
      d.window.identities.Nodup ∧ d.window.documents[k]? = some doc ∧ u < doc.total ∧
      d'.window.identities = d.window.identities ∧
      d'.window.documents =
        d.window.documents.set k (doc.setTarget u (.str "Salut".toList)) := by
  have hleads := greeting_opens.trans (.step greeting_begins
    (.answered greetingBegun [0] greetingJob "Salut".toList))
  exact ⟨_, _, _, hleads, .hears_answered .., by decide +kernel,
    (result_lands ofDisk_greeting hleads (.hears_answered ..)).2⟩

end Desk

end GameText
