import GameText.Localization.Rehearsal
import GameText.Proofs.Localization.Client
import GameText.Proofs.Localization.Tally

/-!
# A rehearsal is a run

A rehearsal of the engine is one of the ways in which its workers can come side by side: one after
the other, with every report heard at once (`Rehearsal.start_goes`). So whatever holds of all runs
holds of what a rehearsal records. The steps of a plan are followed one by one (`Stands.report`,
`Stands.works`, `Stands.looks`), then a whole plan (`plays`) and all plans (`runAll_goes`). A client
that fails in a way that is no report breaks a rehearsal off; a run has no such answers.

Not established: when a request to stop came. The run that is found has it when the worker looks.
-/

namespace GameText

namespace Plan

/-! ## Failures that are no report -/

/-- A failure of the client that is no report breaks the plan off. -/
def Strict : Plan → Prop
  | .stop => True
  | .breakDown _ => True
  | .report _ next => next.Strict
  | .ifCancelled yes no => yes.Strict ∧ no.Strict
  | .translate _ next =>
    (∀ e, isReported e = false → next (.error e) = .breakDown (.client e)) ∧
      ∀ answer, (next answer).Strict
  | .translateBatch _ next =>
    (∀ e, isReported e = false → next (.error e) = .breakDown (.client e)) ∧
      ∀ answer, (next answer).Strict

section Strict

variable {next : Plan}

theorem strict_each (h : next.Strict) (jobs : List Job) : (each next jobs).Strict := by
  induction jobs with
  | nil => exact h
  | cons job jobs ih =>
    refine ⟨h, fun e he => by simp [he], fun answer => ?_⟩
    cases answer with
    | ok target => exact ih
    | error e =>
      cases he : isReported e with
      | true =>
        simp only [he, if_true]
        exact ih
      | false =>
        simp only [he, Bool.false_eq_true, if_false]
        trivial

theorem strict_reportAll (h : next.Strict) (keys : List (Text × Job))
    (results : List (Text × Text)) : (reportAll keys next results).Strict := by
  induction results with
  | nil => exact h
  | cons entry results ih =>
    obtain ⟨key, target⟩ := entry
    unfold reportAll
    cases lookup? key keys with
    | none => exact ih
    | some job =>
      dsimp only
      split
      · exact ih
      · exact ih

theorem strict_batch (h : next.Strict) (jobs : List Job) (attempts : Nat) :
    (batch next jobs attempts).Strict := by
  induction attempts with
  | zero => exact strict_each h jobs
  | succ attempts ih =>
    refine ⟨h, fun e he => by simp [he], fun answer => ?_⟩
    cases answer with
    | ok results => exact strict_reportAll (strict_each h _) _ _
    | error e =>
      cases he : isReported e with
      | true =>
        simp only [he, if_true]
        exact ih
      | false =>
        simp only [he, Bool.false_eq_true, if_false]
        trivial

theorem strict_batches (h : next.Strict) (jobs : List (List Job)) :
    (batches next jobs).Strict := by
  induction jobs with
  | nil => exact h
  | cons b bs ih => exact ⟨h, strict_batch ih b attempts⟩

theorem strict_plan (batchSize : Int) (jobs : List Job) :
    (if 1 < batchSize then ofBatches batchSize jobs else ofJobs jobs).Strict := by
  have hfinish : finish.Strict := trivial
  split
  · unfold ofBatches
    split
    · trivial
    · exact strict_batches hfinish _
  · exact strict_each hfinish jobs

end Strict

end Plan

namespace Engine

/-- The engine, whether or not its workers were asked to stop. -/
def unasked (e : Engine) : Engine := { e with cancelled := false }

theorem unasked_cancel (e : Engine) : e.cancel.unasked = e.unasked := by
  unfold cancel
  split <;> rfl

/-- A request to stop makes no difference to what the engine does with a report. -/
theorem receive_unasked (e : Engine) (signal : Signal) :
    e.unasked.receive signal = ((e.receive signal).1.unasked, (e.receive signal).2) := by
  cases signal with
  | finished =>
    by_cases hlast : e.workers ≤ e.finished + 1 <;> simp [receive, unasked, hlast]
  | _ => rfl

theorem receive_congr {e e' : Engine} (h : e.unasked = e'.unasked) (signal : Signal) :
    (e.receive signal).1.unasked = (e'.receive signal).1.unasked ∧
      (e.receive signal).2 = (e'.receive signal).2 := by
  have hreceive := e.receive_unasked signal
  rw [h, receive_unasked] at hreceive
  exact ⟨(congrArg Prod.fst hreceive).symm, (congrArg Prod.snd hreceive).symm⟩

end Engine

namespace Rehearsal

open Run

/-! ## A stage and a run -/

/-- A call leaves a stage as it was but for the connection. -/
structure Called (s s' : Stage) : Prop where
  engine : s'.engine = s.engine
  records : s'.recording.records = s.recording.records
  keeps : s.recording.isCancelled = true → s'.recording.isCancelled = true

theorem Called.refl (s : Stage) : Called s s := ⟨rfl, rfl, id⟩

theorem Called.converse {α : Type} {talk : Talk α} {P : α → Prop} (h : talk.Yields P) (s : Stage) :
    Called s { s with recording := (s.recording.converse talk).2 } where
  engine := rfl
  records := rfl
  keeps hcancelled := by
    rw [Recording.isCancelled, Bool.or_eq_true] at hcancelled ⊢
    exact hcancelled.imp_right (h.keeps rfl)

/-- A stage stands where a run does: the worker with an ordinal is to carry a plan out, nothing is
under way, and what the run has announced was recorded. -/
structure Stands (before : List Announcement) (k : Nat) (plan : Plan) (s : Stage) (r : Run) :
    Prop where
  worker : ∃ w, r.workers[k]? = some w ∧ w.plan = plan ∧ w.underway = [] ∧
    (w.asked = true → s.recording.isCancelled = true)
  engine : r.engine.unasked = s.engine.unasked
  records : s.recording.records = before ++ r.announced

/-- A run goes on as a stage does. -/
structure Goes (s : Stage) (r : Run) (events : List Event) (s' : Stage) (r' : Run) : Prop where
  leads : r.Leads events r'
  keeps : s.recording.isCancelled = true → s'.recording.isCancelled = true
  /-- Nobody is asked to stop unless the recording is cancelled. -/
  work : s'.recording.isCancelled = false → ∀ event ∈ events, event.isWork = true

namespace Goes

variable {s s' s'' : Stage} {r r' r'' : Run} {events events' : List Event}

theorem refl (s : Stage) (r : Run) : Goes s r [] s r := ⟨.refl r, id, fun _ => nofun⟩

theorem trans (h : Goes s r events s' r') (h' : Goes s' r' events' s'' r'') :
    Goes s r (events ++ events') s'' r'' where
  leads := leads_append.mpr ⟨r', h.leads, h'.leads⟩
  keeps hcancelled := h'.keeps (h.keeps hcancelled)
  work hcancelled event hevent := by
    have hbefore : s'.recording.isCancelled = false :=
      Bool.eq_false_iff.mpr fun hs' => by simp [h'.keeps hs'] at hcancelled
    rcases List.mem_append.mp hevent with hevent | hevent
    · exact h.work hbefore event hevent
    · exact h'.work hcancelled event hevent

end Goes

/-- One worker goes on by itself. -/
structure GoesAlone (k : Nat) (s : Stage) (r : Run) (events : List Event) (s' : Stage) (r' : Run) :
    Prop extends Goes s r events s' r' where
  others : ∀ j, j ≠ k → r'.workers[j]? = r.workers[j]?

namespace GoesAlone

variable {k : Nat} {s s' s'' : Stage} {r r' r'' : Run} {events events' : List Event}

theorem refl (k : Nat) (s : Stage) (r : Run) : GoesAlone k s r [] s r := ⟨.refl s r, fun _ _ => rfl⟩

theorem trans (h : GoesAlone k s r events s' r') (h' : GoesAlone k s' r' events' s'' r'') :
    GoesAlone k s r (events ++ events') s'' r'' :=
  ⟨h.toGoes.trans h'.toGoes, fun j hj => (h'.others j hj).trans (h.others j hj)⟩

/-- One act of the worker. -/
theorem act {act : Worker.Act} {w w' : Worker} (hw : r.workers[k]? = some w) (h : w.Step act w')
    (hact : act ≠ .asked ∨ s'.recording.isCancelled = true)
    (keeps : s.recording.isCancelled = true → s'.recording.isCancelled = true) :
    GoesAlone k s r [⟨k, act⟩] s' { r.notice act with workers := r.workers.set k w' } where
  leads := .step (.of hw h) (.refl _)
  keeps := keeps
  work hcancelled event hevent := by
    rw [List.mem_singleton.mp hevent]
    rcases hact with hact | hact
    · exact decide_eq_true hact
    · simp [hact] at hcancelled
  others j hj := List.getElem?_set_ne hj.symm

end GoesAlone

variable {client : Client} {before : List Announcement} {k : Nat} {s : Stage} {r : Run}

/-! ## The steps of a plan -/

/-- A stage after a report. -/
theorem report_onStage (client : Client) (signal : Signal) (s : Stage) :
    ∃ s', (onStage client).report signal s = (.ok (), s') ∧
      s'.engine = (s.engine.receive signal).1 ∧
      s'.recording.records = s.recording.records ++ (s.engine.receive signal).2.toList ∧
      (s.recording.isCancelled = true → s'.recording.isCancelled = true) := by
  simp only [onStage]
  rcases s.engine.receive signal with ⟨engine, _ | announcement⟩
  · exact ⟨_, rfl, rfl, (List.append_nil _).symm, id⟩
  · refine ⟨_, rfl, rfl, rfl, fun hcancelled => ?_⟩
    simp only [Recording.isCancelled, Bool.or_eq_true] at hcancelled
    rcases hcancelled with h | h <;> simp [Stage.announce, Recording.isCancelled, Recording.add, h]

/-- A report is made and heard. -/
theorem Stands.report (client : Client) {signal : Signal} {next : Plan}
    (h : Stands before k (.report signal next) s r) :
    ∃ s' events r', (onStage client).report signal s = (.ok (), s') ∧
      GoesAlone k s r events s' r' ∧ Stands before k next s' r' := by
  obtain ⟨w, hw, hplan, hunderway, hasked⟩ := h.worker
  obtain ⟨s', hreport, hengine, hrecords, hkeeps⟩ := report_onStage client signal s
  obtain ⟨hk, -⟩ := List.getElem?_eq_some_iff.mp hw
  have hmakes : w.Step (.reports signal) { w with plan := next, underway := [signal] } := by
    have hworks := Worker.Step.works (w := w) (hplan ▸ Plan.Step.reports signal next)
    rwa [hunderway] at hworks
  have hmade := GoesAlone.act (s := s) hw hmakes (.inl nofun) id
  have hhears : Worker.Step { w with plan := next, underway := [signal] } (.heard signal) _ :=
    .heard rfl
  have hheard : GoesAlone k s { r with workers := r.workers.set k _ } [⟨k, .heard signal⟩] s' _ :=
    .act (List.getElem?_set_self hk) hhears (.inl nofun) hkeeps
  obtain ⟨hsame, hannounced⟩ := Engine.receive_congr h.engine signal
  refine ⟨s', _, _, hreport, hmade.trans hheard, ?_, ?_, ?_⟩
  · refine ⟨_, List.getElem?_set_self (by rwa [List.length_set]), rfl, rfl, ?_⟩
    exact fun hw => hkeeps (hasked hw)
  · rw [hengine]
    exact hsame
  · rw [hrecords, h.records, ← hannounced, List.append_assoc]
    rfl

/-- A step that says nothing. -/
theorem Stands.works {plan plan' : Plan} {s' : Stage} {act : Worker.Act}
    (h : Stands before k plan s r)
    (hstep : ∀ w, r.workers[k]? = some w → plan.Step w.asked act plan') (hsaid : act.said = [])
    (hcalled : Called s s') :
    ∃ r', GoesAlone k s r [⟨k, act⟩] s' r' ∧ Stands before k plan' s' r' := by
  obtain ⟨w, hw, rfl, hunderway, hasked⟩ := h.worker
  obtain ⟨hk, -⟩ := List.getElem?_eq_some_iff.mp hw
  have hact := hstep w hw
  refine ⟨_, .act hw (.works hact) (.inl hact.ne_asked) hcalled.keeps, ?_, ?_, ?_⟩
  · refine ⟨_, List.getElem?_set_self hk, rfl, by rw [hunderway, hsaid]; rfl, ?_⟩
    exact fun hw => hcalled.keeps (hasked hw)
  · rw [notice_of_step hact, hcalled.engine]
    exact h.engine
  · rw [notice_of_step hact, hcalled.records]
    exact h.records

/-- Before it looks, a worker is told of a request to stop. -/
theorem Stands.told {plan : Plan} (h : Stands before k plan s r) :
    ∃ events r', GoesAlone k s r events s r' ∧ Stands before k plan s r' ∧
      ∀ w, r'.workers[k]? = some w → w.asked = s.recording.isCancelled := by
  obtain ⟨w, hw, hplan, hunderway, hasked⟩ := h.worker
  obtain ⟨hk, -⟩ := List.getElem?_eq_some_iff.mp hw
  by_cases hsame : w.asked = s.recording.isCancelled
  · refine ⟨[], r, .refl k s r, h, fun v hv => ?_⟩
    rwa [← Option.some.inj (hw.symm.trans hv)]
  · have hcancelled : s.recording.isCancelled = true := by
      cases hw : w.asked <;> simp_all
    refine ⟨_, _, .act hw (.asked w) (.inr hcancelled) id, ⟨?_, ?_, h.records⟩, fun v hv => ?_⟩
    · exact ⟨_, List.getElem?_set_self hk, hplan, hunderway, fun _ => hcancelled⟩
    · exact (Engine.unasked_cancel _).trans h.engine
    · obtain rfl := Option.some.inj ((List.getElem?_set_self hk).symm.trans hv)
      exact hcancelled.symm

/-- A worker looks. -/
theorem Stands.looks {yes no : Plan} (h : Stands before k (.ifCancelled yes no) s r) :
    ∃ events r', GoesAlone k s r events s r' ∧
      Stands before k (if s.recording.isCancelled then yes else no) s r' := by
  obtain ⟨events, r₁, htold, hstands, hasked⟩ := h.told
  have hstep : ∀ w, r₁.workers[k]? = some w → (Plan.ifCancelled yes no).Step w.asked .looks
      (if s.recording.isCancelled then yes else no) := by
    intro w hw
    rw [← hasked w hw]
    exact .looks yes no
  obtain ⟨r₂, hlooks, hafter⟩ := hstands.works hstep rfl (.refl s)
  exact ⟨_, r₂, htold.trans hlooks, hafter⟩

/-! ## A whole plan -/

/-- A plan is carried out on a stage as a run goes, unless the client fails in a way that is no
report. -/
def Plays (client : Client) (before : List Announcement) (k : Nat) (plan : Plan) (s : Stage)
    (r : Run) : Prop :=
  (∃ s' events r', plan.run (onStage client) s = (.ok (), s') ∧ GoesAlone k s r events s' r' ∧
    Stands before k .stop s' r') ∨
  ∃ e s', plan.run (onStage client) s = (.error (.client e), s') ∧ Plan.isReported e = false

theorem Plays.of_goes {plan next : Plan} {s' : Stage} {r' : Run} {events : List Event}
    (hrun : plan.run (onStage client) s = next.run (onStage client) s')
    (hgoes : GoesAlone k s r events s' r') (h : Plays client before k next s' r') :
    Plays client before k plan s r := by
  rw [Plays, hrun]
  refine h.imp_left ?_
  rintro ⟨s'', events', r'', hend, hrest, hstands⟩
  exact ⟨s'', _, r'', hend, hgoes.trans hrest, hstands⟩

theorem called_translate (client : Client) (job : Job) (s : Stage) :
    Called s ((onStage client).translate job s).2 :=
  .converse (client.yields_translate job.text job.context) s

theorem called_translateBatch (client : Client) (entries : List Client.BatchEntry) (s : Stage) :
    Called s ((onStage client).translateBatch entries s).2 :=
  .converse (client.yields_translateBatch entries) s

/-- A call ends in a way that a worker can go on with, or in a failure that is no report. -/
theorem isAnswered {α : Type} (answer : Except ClientError α) :
    Plan.Answer answer ∨ ∃ e, answer = .error e ∧ Plan.isReported e = false := by
  cases answer with
  | ok a => exact .inl trivial
  | error e =>
    cases he : Plan.isReported e with
    | true => exact .inl he
    | false => exact .inr ⟨e, rfl, he⟩

theorem isAnswered_batch {entries : List Client.BatchEntry} {s' : Stage}
    {answer : Except ClientError (List (Text × Text))}
    (h : (onStage client).translateBatch entries s = (answer, s')) :
    Plan.BatchAnswer answer ∨ ∃ e, answer = .error e ∧ Plan.isReported e = false := by
  cases answer with
  | ok results =>
    have hresult : (client.translateBatch entries s.recording.wire).1 = .ok results :=
      congrArg Prod.fst h
    exact .inl ((client.yields_translateBatch entries).result (Prod.ext hresult rfl))
  | error e => exact isAnswered (.error e)

/-- A plan goes on after a call, or breaks off. -/
theorem Plays.of_call {α : Type} {plan : Plan} {next : Except ClientError α → Plan}
    {answer : Except ClientError α} {s' : Stage} {Answered : Prop} (h : Stands before k plan s r)
    (hrun : plan.run (onStage client) s = (next answer).run (onStage client) s')
    (hcalled : Called s s')
    (hanswered : Answered ∨ ∃ e, answer = .error e ∧ Plan.isReported e = false)
    (hstrict : ∀ e, Plan.isReported e = false → next (.error e) = .breakDown (.client e))
    (hstep : Answered → ∀ asked, plan.Step asked .calls (next answer))
    (hplays : Answered → ∀ r', Stands before k (next answer) s' r' →
      Plays client before k (next answer) s' r') : Plays client before k plan s r := by
  rcases hanswered with hanswer | ⟨e, rfl, he⟩
  · obtain ⟨r', hgoes, hafter⟩ := h.works (fun w _ => hstep hanswer w.asked) rfl hcalled
    exact .of_goes hrun hgoes (hplays hanswer r' hafter)
  · rw [hstrict e he] at hrun
    exact .inr ⟨e, s', hrun, he⟩

theorem plays (client : Client) {plan : Plan} {n : Nat} (hn : plan.Within n) (hstrict : plan.Strict)
    (h : Stands before k plan s r) : Plays client before k plan s r := by
  induction plan generalizing n s r with
  | stop => exact .inl ⟨s, [], r, rfl, .refl k s r, h⟩
  | breakDown => exact hn.elim
  | report signal next ih =>
    obtain ⟨m, -, hm⟩ := hn
    obtain ⟨s', events, r', hreport, hgoes, hafter⟩ := h.report client
    exact .of_goes (by rw [Plan.run, hreport]) hgoes (ih hm hstrict hafter)
  | ifCancelled yes no ihyes ihno =>
    obtain ⟨m, -, hyes, hno⟩ := hn
    obtain ⟨events, r', hgoes, hafter⟩ := h.looks
    cases hcancelled : s.recording.isCancelled with
    | true =>
      rw [hcancelled, if_pos rfl] at hafter
      exact .of_goes (if_pos hcancelled) hgoes (ihyes hyes hstrict.1 hafter)
    | false =>
      rw [hcancelled, if_neg Bool.false_ne_true] at hafter
      exact .of_goes (if_neg (by simp [onStage, hcancelled])) hgoes (ihno hno hstrict.2 hafter)
  | translate job next ih =>
    obtain ⟨m, -, hm⟩ := hn
    have hcalled := called_translate client job s
    rcases hcall : (onStage client).translate job s with ⟨answer, s'⟩
    rw [hcall] at hcalled
    refine .of_call h (by rw [Plan.run, hcall]) hcalled (isAnswered answer) hstrict.1
      (fun hanswer _ => .calls job next hanswer) fun hanswer r' hafter => ?_
    exact ih answer (hm answer hanswer) (hstrict.2 answer) hafter
  | translateBatch entries next ih =>
    obtain ⟨m, -, hm⟩ := hn
    have hcalled := called_translateBatch client entries s
    rcases hcall : (onStage client).translateBatch entries s with ⟨answer, s'⟩
    rw [hcall] at hcalled
    refine .of_call h (by rw [Plan.run, hcall]) hcalled (isAnswered_batch hcall) hstrict.1
      (fun hanswer _ => .callsBatch entries next hanswer) fun hanswer r' hafter => ?_
    exact ih answer (hm answer hanswer) (hstrict.2 answer) hafter

/-! ## All plans, one after the other -/

/-- The workers from an ordinal on are to carry plans out, and those before it have come to their
end. -/
structure Waits (k : Nat) (plans : List Plan) (r : Run) : Prop where
  ended : ∀ j < k, ∀ w, r.workers[j]? = some w → w.plan = .stop ∧ w.underway = []
  fresh : ∀ j, r.workers[k + j]?.map (fun w => (w.plan, w.underway, w.asked)) =
    plans[j]?.map fun plan => (plan, [], false)

/-- When the worker that is next has carried out its plan, the others still wait. -/
theorem Waits.goes {plan : Plan} {plans : List Plan} {s' : Stage} {r' : Run} {events : List Event}
    (h : Waits k (plan :: plans) r) (hgoes : GoesAlone k s r events s' r')
    (hstands : Stands before k .stop s' r') : Waits (k + 1) plans r' where
  ended j hj w hw := by
    obtain ⟨v, hv, hplan, hunderway, -⟩ := hstands.worker
    rcases Nat.lt_succ_iff_lt_or_eq.mp hj with hj | rfl
    · rw [hgoes.others j (Nat.ne_of_lt hj)] at hw
      exact h.ended j hj w hw
    · obtain rfl := Option.some.inj (hv.symm.trans hw)
      exact ⟨hplan, hunderway⟩
  fresh j := by
    have hfresh := h.fresh (j + 1)
    rw [List.getElem?_cons_succ, ← Nat.add_assoc, Nat.add_right_comm] at hfresh
    rw [hgoes.others _ (by omega)]
    exact hfresh

theorem Waits.atRest (h : Waits k [] r) : r.AtRest := by
  rintro _ _ (@⟨i, act, w, w', hw, hstep⟩)
  have hend : w.plan = .stop ∧ w.underway = [] := by
    by_cases hi : i < k
    · exact h.ended i hi w hw
    · have hfresh := h.fresh (i - k)
      rw [Nat.add_sub_cancel' (Nat.le_of_not_lt hi), hw] at hfresh
      cases hfresh
  cases hstep with
  | asked => rfl
  | works hworks =>
    rw [hend.1] at hworks
    cases hworks
  | heard hunderway =>
    rw [hend.2] at hunderway
    cases hunderway

/-- Workers that carry their plans out one after the other come to rest. -/
theorem runAll_goes (client : Client) {plans : List Plan}
    (hplans : ∀ plan ∈ plans, (∃ n, plan.Within n) ∧ plan.Strict) (h : Waits k plans r) (hengine : r.engine.unasked = s.engine.unasked)
    (hrecords : s.recording.records = before ++ r.announced) :
    (∃ s' events r', Plan.runAll (onStage client) plans s = (.ok (), s') ∧ Goes s r events s' r' ∧
      r'.AtRest ∧ s'.recording.records = before ++ r'.announced) ∨
    ∃ e s', Plan.runAll (onStage client) plans s = (.error (.client e), s') ∧
      Plan.isReported e = false := by
  induction plans generalizing k s r with
  | nil => exact .inl ⟨s, [], r, rfl, .refl s r, h.atRest, hrecords⟩
  | cons plan plans ih =>
    obtain ⟨⟨n, hn⟩, hstrict⟩ := hplans plan List.mem_cons_self
    have hstands : Stands before k plan s r := by
      obtain ⟨w, hw, hfresh⟩ := Option.map_eq_some_iff.mp (h.fresh 0)
      obtain ⟨rfl, hunderway, hasked⟩ : w.plan = plan ∧ w.underway = [] ∧ w.asked = false := by
        simpa using hfresh
      exact ⟨⟨w, hw, rfl, hunderway, fun hw => by simp [hasked] at hw⟩, hengine, hrecords⟩
    rcases plays client hn hstrict hstands with
      ⟨s', events, r', hrun, hgoes, hafter⟩ | ⟨e, s', hrun, he⟩
    · have hrest := ih (fun p hp => hplans p (List.mem_cons_of_mem _ hp)) (h.goes hgoes hafter)
        hafter.engine hafter.records
      rw [Plan.runAll, hrun]
      refine hrest.imp_left ?_
      rintro ⟨s'', events', r'', hend, hgo, hatRest, hrecords⟩
      exact ⟨s'', _, r'', hend, hgoes.toGoes.trans hgo, hatRest, hrecords⟩
    · rw [Plan.runAll, hrun]
      exact .inr ⟨e, s', rfl, he⟩

/-- **A rehearsal of the engine is one of its runs.** It announces what the run announces, nobody is
asked to stop unless the recording is cancelled, and the run comes to rest; or the client fails in a
way that is no report. -/
theorem start_goes (client : Client) (workers batchSize : Int) (jobs : List Job) (s : Stage) :
    (∃ s' events r, Stage.start client (Engine.plans workers batchSize jobs) jobs.length s =
        (.ok (), s') ∧ (Run.start workers batchSize jobs).Leads events r ∧ r.AtRest ∧
      s'.recording.records = s.recording.records ++ r.announced ∧
      (s'.recording.isCancelled = false → ∀ event ∈ events, event.isWork = true)) ∨
    ∃ e s', Stage.start client (Engine.plans workers batchSize jobs) jobs.length s =
      (.error (.client e), s') ∧ Plan.isReported e = false := by
  by_cases hjobs : jobs = []
  · subst hjobs
    have hrest : Waits 0 [] (Run.start workers batchSize []) :=
      ⟨fun _ hj => absurd hj (Nat.not_lt_zero _), fun _ => rfl⟩
    exact .inl ⟨_, [], _, rfl, .refl _, hrest.atRest, rfl, fun _ => nofun⟩
  · have hpos : jobs.length ≠ 0 := fun hlength => hjobs (List.length_eq_zero_iff.mp hlength)
    have hplans : ∀ plan ∈ Engine.plans workers batchSize jobs,
        (∃ n, plan.Within n) ∧ plan.Strict := by
      intro plan hplan
      obtain ⟨chunk, -, rfl⟩ := List.mem_map.mp hplan
      exact ⟨⟨_, Plan.within_plan batchSize chunk⟩, Plan.strict_plan batchSize chunk⟩
    have hwaits : Waits 0 (Engine.plans workers batchSize jobs)
        (Run.start workers batchSize jobs) := by
      rw [start_of_ne_nil workers batchSize hjobs]
      refine ⟨fun _ hj => absurd hj (Nat.not_lt_zero _), fun j => ?_⟩
      rw [Engine.plans, List.getElem?_map, List.getElem?_map, Option.map_map, Option.map_map,
        Nat.zero_add]
      rfl
    have hengine : (Run.start workers batchSize jobs).engine =
        .start jobs.length (Engine.plans workers batchSize jobs).length := by
      rw [start_of_ne_nil workers batchSize hjobs, Engine.plans, List.length_map]
    have hannounced : (Run.start workers batchSize jobs).announced = [] := by
      rw [start_of_ne_nil workers batchSize hjobs]
    unfold Stage.start
    rw [if_neg hpos]
    refine (runAll_goes client hplans hwaits (congrArg Engine.unasked hengine)
      (by rw [hannounced]; exact (List.append_nil _).symm)).imp_left ?_
    rintro ⟨s', events, r, hrun, hgoes, hatRest, hrecords⟩
    exact ⟨s', events, r, hrun, hgoes.leads, hatRest, hrecords, hgoes.work⟩

end Rehearsal

end GameText
