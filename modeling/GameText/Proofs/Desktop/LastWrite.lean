import GameText.Proofs.Desktop.Desk

/-!
# Texts that are typed while a run goes on

A unit has the text that came to it last, from the user or with a result (`Runs.targetAt_eq`), and
a run over all documents has one result for a unit at most. The window does not look at what a unit
holds when a result arrives. So a text that the user gives a unit is kept to the end of the run
exactly if no result with another text arrives for that unit later (`typed_kept_iff`); if one does,
the user's text is lost.

Not established: which text a result brings, and what becomes of a text that is typed when the run
is over.
-/

namespace GameText

/-! ## The text of a unit -/

/-- The target text of a unit, if the unit is there. -/
def targetAt (ds : List SessionDocument) (k u : Nat) : Option Json :=
  (ds[k]?).bind fun d => d.targets[u]?

/-- The texts that writes put into a unit. -/
def textsFor (k u : Nat) (ws : List Write) : List Text :=
  (ws.filter fun x => x.document = k ∧ x.unit = u).map Write.text

/-- What is in a place when texts were put into it one after the other. -/
def settled (old : Json) (texts : List Text) : Json := (texts.getLast?.map Json.str).getD old

theorem settled_append (old : Json) (texts texts' : List Text) :
    settled old (texts ++ texts') = settled (settled old texts) texts' := by
  unfold settled
  rw [List.getLast?_append]
  cases texts'.getLast? <;> rfl

theorem settled_of_getLast? {texts : List Text} {x : Text} (h : texts.getLast? = some x)
    (old : Json) : settled old texts = .str x := by
  rw [settled, h]
  rfl

theorem settled_str (x : Text) (texts : List Text) :
    settled (.str x) texts = .str (texts.getLastD x) := by
  unfold settled
  rw [List.getLastD_eq_getLast?]
  cases texts.getLast? <;> rfl

theorem textsFor_cons (k u : Nat) (x : Write) (ws : List Write) :
    textsFor k u (x :: ws) = textsFor k u [x] ++ textsFor k u ws := by
  simp only [textsFor, ← List.map_append, ← List.filter_append, List.singleton_append]

/-- A write changes the text of its unit alone. -/
theorem Write.targetAt_put (x : Write) (ds : List SessionDocument) (k u : Nat) :
    targetAt (x.put ds) k u = (targetAt ds k u).map (settled · (textsFor k u [x])) := by
  unfold targetAt
  rw [getElem?_put]
  cases ds[k]? with
  | none => rfl
  | some d =>
    by_cases hk : x.document = k
    · subst hk
      simp only [Option.map_some, Option.bind_some, if_true, SessionDocument.setTarget]
      by_cases hu : x.unit = u
      · subst hu
        rw [List.getElem?_set_self']
        cases d.targets[x.unit]? <;> simp [textsFor, settled]
      · rw [List.getElem?_set_ne hu]
        simp [textsFor, settled, hu]
    · simp [textsFor, settled, hk]

theorem targetAt_putAll (ws : List Write) (ds : List SessionDocument) (k u : Nat) :
    targetAt (putAll ws ds) k u = (targetAt ds k u).map (settled · (textsFor k u ws)) := by
  induction ws generalizing ds with
  | nil => exact Option.map_id'.symm
  | cons x ws ih =>
    rw [putAll, List.foldl_cons, ← putAll, ih, x.targetAt_put, Option.map_map,
      textsFor_cons k u x ws]
    simp only [Function.comp_def, settled_append]

/-- More documents do not change the units of the first ones. -/
theorem targetAt_of_prefix {ds ds' : List SessionDocument} (h : ds <+: ds') {k u : Nat}
    {target : Json} (ht : targetAt ds k u = some target) : targetAt ds' k u = some target := by
  obtain ⟨added, rfl⟩ := h
  obtain ⟨d, hd, ht⟩ := Option.bind_eq_some_iff.mp ht
  have hlt := (List.getElem?_eq_some_iff.mp hd).1
  rw [targetAt, List.getElem?_append_left hlt, hd]
  exact ht

/-- The engine announces the results that it hears. -/
theorem Engine.address?_receive (e : Engine) (signal : Signal) :
    (e.receive signal).2.toList.filterMap Announcement.address? = signal.address?.toList := by
  cases signal with
  | finished =>
    unfold receive
    by_cases hlast : e.workers ≤ e.finished + 1
    · simp only [hlast, if_true]
      rfl
    · simp only [hlast, if_false]
      rfl
  | _ => rfl

namespace Desk

/-- The texts that the user gives a unit. -/
def Event.typed (k u : Nat) : Event → List Text
  | .worker _ _ => []
  | .gesture _ _ writes => textsFor k u writes

/-- The texts of the results for a unit that the window hears. -/
def Event.results (k u : Nat) : Event → List Text
  | .worker _ (.heard (.done document unit text)) => if document = k ∧ unit = u then [text] else []
  | _ => []

@[simp]
theorem Event.typed_gesture (k u : Nat) (g : Gesture) (turns : List ScriptedTurn)
    (writes : List Write) : (Event.gesture g turns writes).typed k u = textsFor k u writes := rfl

@[simp]
theorem Event.results_gesture (k u : Nat) (g : Gesture) (turns : List ScriptedTurn)
    (writes : List Write) : (Event.gesture g turns writes).results k u = [] := rfl

/-- The unit that the window hears a result for. -/
def Event.address? : Event → Option (Int × Int)
  | .worker _ (.heard signal) => signal.address?
  | _ => none

/-- The events while a run goes on, up to its end or to some time before. -/
inductive Runs : Desk → List Event → Desk → Prop where
  | refl (d : Desk) : Runs d [] d
  | step {d d' d'' : Desk} {event : Event} {events : List Event}
      (hrunning : d.window.engine.running = true) (h : d.Step event d')
      (rest : Runs d' events d'') : Runs d (event :: events) d''

/-- A run is going on until something happens. -/
theorem Runs.running {d d' : Desk} {events : List Event} (h : Runs d events d')
    (hne : events ≠ []) : d.window.engine.running = true := by
  cases h with
  | refl => exact absurd rfl hne
  | step hrunning => exact hrunning

theorem runs_append {d d'' : Desk} {events events' : List Event} :
    Runs d (events ++ events') d'' ↔ ∃ d', Runs d events d' ∧ Runs d' events' d'' := by
  induction events generalizing d with
  | nil =>
    refine ⟨fun h => ⟨d, .refl d, h⟩, ?_⟩
    rintro ⟨d', h, h'⟩
    cases h
    exact h'
  | cons event events ih =>
    constructor
    · rintro (_ | ⟨hrunning, h, rest⟩)
      obtain ⟨d', hfirst, hlast⟩ := ih.mp rest
      exact ⟨d', .step hrunning h hfirst, hlast⟩
    · rintro ⟨d', _ | ⟨hrunning, h, rest⟩, hlast⟩
      exact .step hrunning h (ih.mpr ⟨d', rest, hlast⟩)

/-! ## What a step of a run does -/

section Step

variable {d d' : Desk} {event : Event} {k u : Nat}

/-- While a run goes on, a gesture starts no other. -/
theorem leads_handle {w : Window} {g : Gesture} (hg : g.isOrdinary = true)
    (turns : List ScriptedTurn) (hrunning : w.engine.running = true) :
    w.core.Leads (w.writes g) (w.handle g turns).core := by
  obtain ⟨c', hleads, hsame | ⟨jobs, hbegins⟩⟩ :=
    Window.perform_goes hg (pure ()) (w.ready turns)
  · exact hsame ▸ hleads
  · have hgoes : c'.engine.running = true := hleads.running_eq.trans hrunning
    exact absurd (hbegins.idle.symm.trans hgoes) (by decide)

theorem after_of_running (hrunning : d.window.engine.running = true) (w : Window) :
    d.after w = { d with
      window := w
      workers := d.workers.map fun worker =>
        { worker with asked := worker.asked || w.engine.cancelled } } := by
  rw [after, if_neg]
  simp [hrunning]

/-- A worker's own acts bring the window no results. -/
theorem results_of_plan {asked : Bool} {act : Worker.Act} {plan plan' : Plan}
    (h : plan.Step asked act plan') (i k u : Nat) : (Event.worker i act).results k u = [] := by
  cases h <;> rfl

/-- The end of a worker is heard. -/
def Event.isEnd : Event → Bool
  | .worker _ (.heard .finished) => true
  | _ => false

/-- A run goes on until the end of a worker is heard. -/
theorem Sound.running_step (h : d.Sound) (hrunning : d.window.engine.running = true)
    (hstep : d.Step event d') (hend : event.isEnd = false) : d'.window.engine.running = true := by
  cases hstep with
  | works => exact hrunning
  | @hears i signal w rest hw hunderway =>
    have hengine : (Window.report (pure ()) signal d.window).2.engine =
        (d.window.engine.receive signal).1 :=
      congrArg Window.Core.engine (h.heard_core hw hunderway)
    show (Window.report (pure ()) signal d.window).2.engine.running = true
    rw [hengine]
    cases signal with
    | finished => cases hend
    | _ => exact hrunning
  | @gesture g hg turns =>
    rw [after_of_running hrunning]
    exact (leads_handle hg turns hrunning).running_eq.trans hrunning

/-- **A step of a run leaves a unit with the text that comes last in it.** -/
theorem Sound.targetAt_step (h : d.Sound) (hrunning : d.window.engine.running = true)
    (hstep : d.Step event d') {old : Json} (hold : targetAt d.window.documents k u = some old) :
    targetAt d'.window.documents k u =
      some (settled old (event.typed k u ++ event.results k u)) := by
  cases hstep with
  | @works i act w plan hw hplan =>
    rw [results_of_plan hplan]
    exact hold
  | @hears i signal w rest hw hunderway =>
    have hdocuments : (Window.report (pure ()) signal d.window).2.documents =
        putAll signal.writes d.window.documents :=
      congrArg Window.Core.documents (h.heard_core hw hunderway)
    have htexts : textsFor k u signal.writes =
        (Event.worker i (.heard signal)).results k u := by
      cases signal with
      | done document unit text =>
        obtain ⟨k', u', -, rfl, rfl, -⟩ := h.exists_unit hw hunderway
        simp only [Signal.writes, Event.results, textsFor, Int.toNat_natCast, Int.natCast_inj,
          List.filter_cons, List.filter_nil, decide_eq_true_eq]
        split <;> rfl
      | _ => rfl
    show targetAt (Window.report (pure ()) signal d.window).2.documents k u = _
    rw [hdocuments, targetAt_putAll, hold, htexts]
    rfl
  | @gesture g hg turns =>
    have hleads := leads_handle hg turns hrunning
    have hput := targetAt_putAll (d.window.writes g) d.window.documents k u
    rw [hold, Option.map_some] at hput
    rw [after_of_running hrunning, Event.results_gesture, List.append_nil]
    exact targetAt_of_prefix (hleads.grows hrunning).2 hput

/-- **A step of a run is counted**: the jobs and the workers stay, and a result that is heard is
announced. -/
theorem Sound.account_step (h : d.Sound) (hrunning : d.window.engine.running = true)
    (hstep : d.Step event d') : d'.window.jobs = d.window.jobs ∧
      d'.workers.length = d.workers.length ∧
      d'.announced.filterMap Announcement.address? =
        d.announced.filterMap Announcement.address? ++ event.address?.toList := by
  cases hstep with
  | @works i act w plan hw hplan =>
    have hnone : (Event.worker i act).address? = none := by
      generalize w.plan = before at hplan
      cases hplan <;> rfl
    rw [hnone]
    exact ⟨rfl, List.length_set, (List.append_nil _).symm⟩
  | @hears i signal w rest hw hunderway =>
    have hjobs := congrArg Window.Core.jobs (h.heard_core hw hunderway)
    refine ⟨hjobs, List.length_set, ?_⟩
    rw [List.filterMap_append, Engine.address?_receive]
    rfl
  | @gesture g hg turns =>
    have hleads := leads_handle hg turns hrunning
    rw [after_of_running hrunning]
    exact ⟨hleads.jobs_eq, List.length_map .., (List.append_nil _).symm⟩

end Step

/-- "Translate All" starts a run over the jobs of the session, or changes nothing of the core. -/
theorem handle_translateAll (w : Window) (reply : DialogReply) (turns : List ScriptedTurn) :
    (w.handle (.choose .translateAll reply) turns).core = w.core ∨
      ∃ jobs, w.bench.session.jobs Window.contextLines = .ok jobs ∧
        w.core.Begins jobs (w.handle (.choose .translateAll reply) turns).core := by
  simp only [Window.handle, Window.perform, Window.run_get]
  split
  · have hanswer := Window.bind_keeps (a := Window.translateAll Window.deal)
      (fun _ => Window.keeps_pure (f := Window.core) true) (w.ready turns)
    have hbegins := Window.translateAll_begins (w.ready turns)
    rw [← hanswer] at hbegins
    exact hbegins
  · exact .inl rfl

/-! ## What a run does -/

section Runs

variable {d d' : Desk} {events : List Event} {k u : Nat}

/-- What happens before the end of a worker is heard happens while the run goes on. -/
theorem Leads.runs (h : d.Leads events d') (hd : d.Sound)
    (hrunning : d.window.engine.running = true) (hend : ∀ event ∈ events, event.isEnd = false) :
    Runs d events d' ∧ d'.window.engine.running = true := by
  induction h with
  | refl d => exact ⟨.refl d, hrunning⟩
  | @step d₁ d₂ d₃ event events hstep _ ih =>
    have hgoes := hd.running_step hrunning hstep (hend event List.mem_cons_self)
    obtain ⟨hruns, hlast⟩ := ih (hd.step hstep) hgoes fun e he =>
      hend e (List.mem_cons_of_mem _ he)
    exact ⟨.step hrunning hstep hruns, hlast⟩

theorem Runs.sound (h : Runs d events d') (hd : d.Sound) : d'.Sound := by
  induction h with
  | refl => exact hd
  | step _ hstep _ ih => exact ih (hd.step hstep)

/-- **A unit has the text that came to it last.** -/
theorem Runs.targetAt_eq (h : Runs d events d') (hd : d.Sound) {old : Json}
    (hold : targetAt d.window.documents k u = some old) :
    targetAt d'.window.documents k u =
      some (settled old (events.flatMap fun e => e.typed k u ++ e.results k u)) := by
  induction h generalizing old with
  | refl => exact hold
  | step hrunning hstep _ ih =>
    rw [List.flatMap_cons, settled_append]
    exact ih (hd.step hstep) (hd.targetAt_step hrunning hstep hold)

theorem filterMap_address?_cons (event : Event) (events : List Event) :
    (event :: events).filterMap Event.address? =
      event.address?.toList ++ events.filterMap Event.address? := by
  rw [List.filterMap_cons]
  cases event.address? <;> rfl

theorem Runs.account (h : Runs d events d') (hd : d.Sound) : d'.window.jobs = d.window.jobs ∧
    d'.workers.length = d.workers.length ∧
    d'.announced.filterMap Announcement.address? =
      d.announced.filterMap Announcement.address? ++ events.filterMap Event.address? := by
  induction h with
  | refl => exact ⟨rfl, rfl, (List.append_nil _).symm⟩
  | @step d₁ d₂ d₃ event events hrunning hstep _ ih =>
    obtain ⟨hjobs, hworkers, hannounced⟩ := hd.account_step hrunning hstep
    obtain ⟨hjobs', hworkers', hannounced'⟩ := ih (hd.step hstep)
    refine ⟨hjobs'.trans hjobs, hworkers'.trans hworkers, ?_⟩
    rw [hannounced', hannounced, List.append_assoc, filterMap_address?_cons]

/-- What is announced of a sound desk has a result for a job once at most. -/
theorem Sound.results (h : d.Sound) (hne : d.workers ≠ []) :
    (d.announced.filterMap Announcement.address?).Subperm (d.window.jobs.map Job.address) := by
  have hrun := h.run hne
  have hsub := Run.addresses_subperm hrun.workers
  rw [hrun.dealt] at hsub
  exact hrun.tally.results.subperm.trans hsub

theorem Event.length_results_le (event : Event) (k u : Nat) :
    (event.results k u).length ≤ event.address?.toList.count (↑k, ↑u) := by
  unfold results
  split
  next i document unit text =>
    split
    next hunit =>
      obtain ⟨rfl, rfl⟩ := hunit
      exact Nat.le_of_eq (List.count_singleton_self ..).symm
    next => exact Nat.zero_le _
  next => exact Nat.zero_le _

/-- A text that is heard for a unit is a result for it. -/
theorem length_results_le (events : List Event) (k u : Nat) :
    (events.flatMap (Event.results k u)).length ≤
      (events.filterMap Event.address?).count (↑k, ↑u) := by
  induction events with
  | nil => exact Nat.le_refl _
  | cons event events ih =>
    rw [List.flatMap_cons, List.length_append, filterMap_address?_cons, List.count_append]
    exact Nat.add_le_add (event.length_results_le k u) ih

/-- A run over different units has one result for a unit at most. -/
theorem Runs.results_le_one (h : Runs d events d') (hd : d.Sound) (hne : d.workers ≠ [])
    (hjobs : (d.window.jobs.map Job.address).Nodup) (k u : Nat) :
    (events.flatMap (Event.results k u)).length ≤ 1 := by
  obtain ⟨hsame, hlength, hannounced⟩ := h.account hd
  have hne' : d'.workers ≠ [] := List.ne_nil_of_length_pos (hlength ▸ List.length_pos_of_ne_nil hne)
  have hsub := (h.sound hd).results hne'
  rw [hsame, hannounced] at hsub
  have hheard := ((List.sublist_append_right ..).subperm.trans hsub).count_le (↑k, ↑u)
  exact Nat.le_trans (length_results_le events k u)
    (Nat.le_trans hheard (List.nodup_iff_count_le_one.mp hjobs _))

/-- A run over the whole session has workers, and its jobs are for different units. -/
theorem translateAll_jobs {reply : DialogReply} {turns : List ScriptedTurn} {writes : List Write}
    (hidle : d.window.engine.running = false)
    (hstep : d.Step (.gesture (.choose .translateAll reply) turns writes) d')
    (hrunning : d'.window.engine.running = true) :
    d'.workers ≠ [] ∧ (d'.window.jobs.map Job.address).Nodup := by
  cases hstep with
  | gesture hg turns =>
    have hwindow : (d.after (d.window.handle (.choose .translateAll reply) turns)).window =
        d.window.handle (.choose .translateAll reply) turns := by
      unfold after
      split <;> rfl
    rw [hwindow] at hrunning ⊢
    rcases handle_translateAll d.window reply turns with hsame | ⟨jobs, hjobs, hbegins⟩
    · have hsame := congrArg (fun c : Window.Core => c.engine.running) hsame
      exact absurd (hrunning.symm.trans (hsame.trans hidle)) (by decide)
    · have hdealt : (d.window.handle (.choose .translateAll reply) turns).jobs = jobs :=
        congrArg Window.Core.jobs hbegins.started
      rw [after_begins hidle hbegins, hdealt, Run.start_of_ne_nil _ _ hbegins.ne_nil]
      refine ⟨fun hnil => ?_, (Session.jobs_sublist hjobs).nodup (Session.nodup_addressesFrom ..)⟩
      have hflat := Engine.flatten_chunks jobs (min Window.workerCount jobs.length)
      rw [List.map_eq_nil_iff.mp hnil] at hflat
      exact hbegins.ne_nil hflat.symm

end Runs

/-! ## A text and a result for one line -/

/-- A worker comes to its end when its text was delivered. -/
theorem Runs.finishes (window : Window) (hrunning : window.engine.running = true)
    (announced : List Announcement) (collected : List Nat) (job : Job) (text : Text) :
    ∃ d', Runs { window, workers := [delivered job text], announced, collected }
        [.worker 0 (.reports .finished), .worker 0 (.heard .finished)] d' ∧
      d'.window = (Window.report (pure ()) .finished window).2 :=
  ⟨_, .step hrunning (.works rfl (.reports ..)) <| .step hrunning (.hears rfl rfl) <| .refl _, rfl⟩

/-- The user gives the line of the script a text. -/
def greetingEdit : Gesture := .edit ⟨0, Table.targetColumn⟩ .edit "Bonjour".toList

/-- The worker translates the line, and the window hears the text. -/
def greetingAnswer : List Event :=
  [.worker 0 .looks, .worker 0 (.reports (.processed (Plan.preview greetingJob.text))),
    .worker 0 (.heard (.processed (Plan.preview greetingJob.text))), .worker 0 .calls,
    .worker 0 (.reports (.done 0 0 "Salut".toList)), .worker 0 (.heard (.done 0 0 "Salut".toList))]

/-- The window when it has heard the text. -/
def greetingHeard (w : Window) : Window :=
  (Window.report (pure ()) (.done 0 0 "Salut".toList)
    (Window.report (pure ()) (.processed (Plan.preview greetingJob.text)) w).2).2

theorem greeting_answered (w : Window) : ∃ announced,
    Leads { window := w, workers := [.hire 1 [greetingJob]], collected := [0] } greetingAnswer
      { window := greetingHeard w, workers := [delivered greetingJob "Salut".toList]
        announced, collected := [0] } :=
  ⟨_, (Leads.answered w [0] greetingJob "Salut".toList).trans
    (.step (.hears_answered ..) (.refl _))⟩

theorem greeting_edited {w : Window}
    (h : w.writes greetingEdit = [⟨0, 0, "Bonjour".toList⟩] ∧
      (w.handle greetingEdit []).engine.running = w.engine.running ∧
      (w.handle greetingEdit []).engine.cancelled = false)
    (workers : List Worker) (announced : List Announcement) :
    Step { window := w, workers, announced, collected := [0] }
      (.gesture greetingEdit [] [⟨0, 0, "Bonjour".toList⟩])
      { window := w.handle greetingEdit [], workers, announced, collected := [0] } := by
  obtain ⟨hwrites, hsame, hcancelled⟩ := h
  rw [← hwrites]
  exact .goesOn rfl [] rfl hsame hcancelled

theorem sound_greeting : Sound
    { window := greetingBegun, workers := [.hire 1 [greetingJob]], collected := [0] } :=
  ((sound_ofDisk ofDisk_greeting).leads greeting_opens).step greeting_begins

theorem greeting_queued :
    (((0 : Nat) : Int), ((0 : Nat) : Int)) ∈ greetingBegun.jobs.map Job.address := by
  decide +kernel

/-! ## What becomes of a text that is typed -/

section Typed

variable {d d' : Desk} {before after : List Event} {g : Gesture} {turns : List ScriptedTurn}
  {writes : List Write} {k u : Nat} {x : Text}

/-- A unit that waits for its result is there. -/
theorem Sound.exists_target (h : d.Sound) (hrunning : d.window.engine.running = true)
    (hqueued : ((k : Int), (u : Int)) ∈ d.window.jobs.map Job.address) :
    ∃ old, targetAt d.window.documents k u = some old := by
  obtain ⟨job, hjob, haddress⟩ := List.mem_map.mp hqueued
  obtain ⟨k', u', doc, hunit, -, hdoc, hu⟩ := h.jobs hrunning job hjob
  have hsame : ((k' : Int), (u' : Int)) = (↑k, ↑u) := hunit.symm.trans haddress
  obtain rfl : k' = k := Int.ofNat_inj.mp (congrArg Prod.fst hsame)
  obtain rfl : u' = u := Int.ofNat_inj.mp (congrArg Prod.snd hsame)
  have hfilled : doc.total ≤ doc.targets.length := h.core.filled doc (List.mem_of_getElem? hdoc)
  simp only [targetAt, hdoc, Option.bind_some]
  exact ⟨_, List.getElem?_eq_getElem (Nat.lt_of_lt_of_le hu hfilled)⟩

/-- A text that is typed is there until a result for its unit arrives. -/
theorem Runs.targetAt_typed (h : Runs d (before ++ .gesture g turns writes :: after) d')
    (hd : d.Sound) {old : Json} (hold : targetAt d.window.documents k u = some old)
    (htyped : (textsFor k u writes).getLast? = some x)
    (halone : ∀ event ∈ after, event.typed k u = []) :
    targetAt d'.window.documents k u =
      some (.str ((after.flatMap (Event.results k u)).getLastD x)) := by
  have hresults : (after.flatMap fun e => e.typed k u ++ e.results k u) =
      after.flatMap (Event.results k u) :=
    List.flatMap_congr fun event hevent => by rw [halone event hevent, List.nil_append]
  rw [h.targetAt_eq hd hold, List.flatMap_append, List.flatMap_cons, settled_append,
    settled_append, hresults, Event.results_gesture, List.append_nil, Event.typed_gesture,
    settled_of_getLast? htyped, settled_str]

theorem getLastD_eq_iff {texts : List Text} (h : texts.length ≤ 1) (x : Text) :
    texts.getLastD x = x ↔ ∀ text ∈ texts, text = x := by
  match texts, h with
  | [], _ => simp
  | [text], _ => simp

/-- **What the user gives a unit while a run over all documents goes on is kept exactly if no other
text arrives for it later.** The run brings the unit one text at most, so a text that is typed when
it has come stays; one that is typed before is replaced when it comes. -/
theorem typed_kept_iff {disk : Disk} {w : Window} (hstart : Window.ofDisk disk = .ok w)
    {earlier : List Event} {idle : Desk} (hleads : Leads { window := w } earlier idle)
    (hidle : idle.window.engine.running = false) {reply : DialogReply} {ts : List ScriptedTurn}
    (hbegins : idle.Step (.gesture (.choose .translateAll reply) ts []) d)
    (hqueued : ((k : Int), (u : Int)) ∈ d.window.jobs.map Job.address)
    (hrun : Runs d (before ++ .gesture g turns writes :: after) d')
    (htyped : (textsFor k u writes).getLast? = some x)
    (halone : ∀ event ∈ after, event.typed k u = []) :
    (before.flatMap (Event.results k u)).length + (after.flatMap (Event.results k u)).length ≤ 1 ∧
      targetAt d'.window.documents k u =
        some (.str ((after.flatMap (Event.results k u)).getLastD x)) ∧
      (targetAt d'.window.documents k u = some (.str x) ↔
        ∀ text ∈ after.flatMap (Event.results k u), text = x) := by
  have hd : d.Sound := ((sound_ofDisk hstart).leads hleads).step hbegins
  have hrunning : d.window.engine.running = true := hrun.running (by simp)
  obtain ⟨hne, hnodup⟩ := translateAll_jobs hidle hbegins hrunning
  have hone : (before.flatMap (Event.results k u)).length +
      (after.flatMap (Event.results k u)).length ≤ 1 := by
    have hle := hrun.results_le_one hd hne hnodup k u
    rwa [List.flatMap_append, List.flatMap_cons, Event.results_gesture, List.nil_append,
      List.length_append] at hle
  obtain ⟨old, hold⟩ := hd.exists_target hrunning hqueued
  have hend := hrun.targetAt_typed hd hold htyped halone
  refine ⟨hone, hend, ?_⟩
  rw [hend, Option.some_inj, Json.str.injEq]
  exact getLastD_eq_iff (Nat.le_trans (Nat.le_add_left ..) hone) x

end Typed

/-- A text that is typed when the result has come stays to the end of the run. -/
theorem typed_late_kept : ∃ before after d',
    Runs { window := greetingBegun, workers := [.hire 1 [greetingJob]], collected := [0] }
      (before ++ .gesture greetingEdit [] [⟨0, 0, "Bonjour".toList⟩] :: after) d' ∧
    before.flatMap (Event.results 0 0) = ["Salut".toList] ∧ d'.window.engine.running = false ∧
    targetAt d'.window.documents 0 0 = some (.str "Bonjour".toList) := by
  obtain ⟨announced, hanswered⟩ := greeting_answered greetingBegun
  obtain ⟨hbefore, hrunning⟩ := hanswered.runs sound_greeting greeting_goes (by decide)
  have hedit := greeting_edited (w := greetingHeard greetingBegun) (by decide +kernel)
    [delivered greetingJob "Salut".toList] announced
  obtain ⟨d', hafter, hwindow⟩ := Runs.finishes
    ((greetingHeard greetingBegun).handle greetingEdit []) (by decide +kernel) announced [0]
    greetingJob "Salut".toList
  have hrun := runs_append.mpr ⟨_, hbefore, .step hrunning hedit hafter⟩
  have hkept := typed_kept_iff ofDisk_greeting greeting_opens (by decide +kernel) greeting_begins
    greeting_queued hrun rfl (by decide)
  refine ⟨_, _, d', hrun, rfl, ?_, hkept.2.1⟩
  rw [hwindow]
  decide +kernel

/-- A text that is typed before the result has come is lost at the end of the run. -/
theorem typed_early_lost : ¬∀ (disk : Disk) (w : Window) (earlier : List Event) (idle d d' : Desk)
    (reply : DialogReply) (ts turns : List ScriptedTurn) (k u : Nat) (before after : List Event)
    (g : Gesture) (writes : List Write) (x : Text), Window.ofDisk disk = .ok w →
    Leads { window := w } earlier idle → idle.window.engine.running = false →
    idle.Step (.gesture (.choose .translateAll reply) ts []) d →
    ((k : Int), (u : Int)) ∈ d.window.jobs.map Job.address →
    Runs d (before ++ .gesture g turns writes :: after) d' →
    (textsFor k u writes).getLast? = some x → x ≠ [] →
    (∀ event ∈ after, event.typed k u = []) → d'.window.engine.running = false →
    targetAt d'.window.documents k u = some (.str x) := by
  intro hclaim
  have hedit := greeting_edited (w := greetingBegun) (by decide +kernel)
    [.hire 1 [greetingJob]] []
  obtain ⟨announced, hanswered⟩ := greeting_answered (greetingBegun.handle greetingEdit [])
  obtain ⟨hanswer, hrunning⟩ :=
    hanswered.runs (sound_greeting.step hedit) (by decide +kernel) (by decide)
  obtain ⟨d', hend, hwindow⟩ := Runs.finishes (greetingHeard (greetingBegun.handle greetingEdit []))
    hrunning announced [0] greetingJob "Salut".toList
  have hrun := Runs.step greeting_goes hedit (runs_append.mpr ⟨_, hanswer, hend⟩)
  have hkept := hclaim greeting greetingStart _ _ _ d' {} greetingTurns [] 0 0 [] _ greetingEdit
    [⟨0, 0, "Bonjour".toList⟩] "Bonjour".toList ofDisk_greeting greeting_opens (by decide +kernel)
    greeting_begins greeting_queued hrun rfl (by decide) (by decide)
    (by rw [hwindow]; decide +kernel)
  have hlost : (targetAt d'.window.documents 0 0).bind Json.text? = some "Salut".toList := by
    rw [hwindow]
    decide +kernel
  rw [hkept] at hlost
  cases hlost

end Desk

end GameText
