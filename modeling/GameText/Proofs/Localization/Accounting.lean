import GameText.Proofs.Localization.Tally

/-!
# Every job is accounted for once

In whatever order workers and their reports come, and whenever some of them are asked to stop, the
engine announces a result for a job once at most, under the job's own document and unit; it counts
up from one and not past the number of jobs; and it announces the end once, after everything else. A
worker that was asked to stop makes one more call at most, and none when it has looked. A run comes
to rest after twenty acts for each job at most. Then the end has been announced, and if no worker was
asked to stop every job has its result and is counted (`Accounted`).

Not established: that a target text is the one that the client gave for that job.
-/

namespace GameText

namespace Run

/-! ## One worker in a run -/

/-- A step of a run is a step of one worker, and leaves the others as they are. -/
theorem Step.worker {r r' : Run} {event : Event} (h : r.Step event r') {k : Nat} {w : Worker}
    (hw : r.workers[k]? = some w) :
    (∃ w', event = ⟨k, event.act⟩ ∧ w.Step event.act w' ∧ r'.workers[k]? = some w') ∨
      event.worker ≠ k ∧ r'.workers[k]? = some w := by
  cases h with
  | @of i act v v' hv h =>
    by_cases hi : i = k
    · subst hi
      obtain rfl : v = w := Option.some.inj (hv.symm.trans hw)
      obtain ⟨hlt, -⟩ := List.getElem?_eq_some_iff.mp hw
      exact .inl ⟨v', rfl, h, List.getElem?_set_self hlt⟩
    · exact .inr ⟨hi, by rw [List.getElem?_set_ne hi, hw]⟩

/-! ## Requests to stop -/

/-- A worker makes one call at most, and none when it has looked. -/
def Stops (k : Nat) (events : List Event) : Prop :=
  events.count ⟨k, .calls⟩ ≤ 1 ∧
    ∀ before after, events = before ++ ⟨k, .looks⟩ :: after → ⟨k, .calls⟩ ∉ after

theorem Stops.of_not_mem {k : Nat} {events : List Event} (h : ⟨k, .calls⟩ ∉ events) :
    Stops k events := by
  refine ⟨?_, ?_⟩
  · rw [List.count_eq_zero_of_not_mem h]
    exact Nat.zero_le 1
  · rintro before after rfl hmem
    exact h (List.mem_append_right _ (List.mem_cons_of_mem _ hmem))

/-- An act before that is neither a call nor a look makes no difference. -/
theorem Stops.cons {k : Nat} {event : Event} {events : List Event} (h : Stops k events)
    (hcalls : event ≠ ⟨k, .calls⟩) (hlooks : event ≠ ⟨k, .looks⟩) : Stops k (event :: events) := by
  refine ⟨?_, ?_⟩
  · rw [List.count_cons_of_ne hcalls]
    exact h.1
  · rintro (_ | ⟨e, before⟩) after heq
    · exact absurd (List.cons.inj heq).1 hlooks
    · exact h.2 before after (List.cons.inj heq).2

/-- A call before that the worker makes no other is its only one. -/
theorem Stops.cons_of_not_mem {k : Nat} {events : List Event} (event : Event)
    (h : ⟨k, .calls⟩ ∉ events) : Stops k (event :: events) := by
  refine ⟨?_, ?_⟩
  · rw [List.count_cons, List.count_eq_zero_of_not_mem h]
    split <;> omega
  · rintro (_ | ⟨e, before⟩) after heq hmem
    · exact h ((List.cons.inj heq).2 ▸ hmem)
    · exact h ((List.cons.inj heq).2 ▸ List.mem_append_right _ (List.mem_cons_of_mem _ hmem))

/-- A worker that was asked to stop and is silent makes no call. -/
theorem Leads.not_calls {r r' : Run} {events : List Event} (h : r.Leads events r') {k : Nat}
    {w : Worker} (hw : r.workers[k]? = some w) (hasked : w.asked = true)
    (hsilent : w.plan.Silent) : ⟨k, .calls⟩ ∉ events := by
  induction h generalizing w with
  | refl => exact List.not_mem_nil
  | @step r₁ r₂ r₃ event events hstep _ ih =>
    have hrest : event ≠ ⟨k, .calls⟩ ∧ ⟨k, .calls⟩ ∉ events := by
      rcases hstep.worker hw with ⟨w', hevent, hact, hw'⟩ | ⟨hother, hw'⟩
      · obtain ⟨hcalls, hsilent'⟩ := hact.silent hasked hsilent
        refine ⟨fun heq => hcalls (congrArg Event.act heq), ?_⟩
        exact ih hw' (hact.asked_of_asked hasked) hsilent'
      · exact ⟨fun heq => hother (congrArg Event.worker heq), ih hw' hasked hsilent⟩
    exact fun hmem => (List.mem_cons.mp hmem).elim (fun heq => hrest.1 heq.symm) hrest.2

/-- A worker that was asked to stop heeds it. -/
theorem Leads.stops {r r' : Run} {events : List Event} (h : r.Leads events r') {k : Nat}
    {w : Worker} (hw : r.workers[k]? = some w) (hasked : w.asked = true)
    (hheeding : w.plan.Heeding) : Stops k events := by
  induction h generalizing w with
  | refl => exact .of_not_mem List.not_mem_nil
  | @step r₁ r₂ r₃ event events hstep hrest ih =>
    rcases hstep.worker hw with ⟨w', hevent, hact, hw'⟩ | ⟨hother, hw'⟩
    · have hasked' := hact.asked_of_asked hasked
      by_cases hlast : event.act = .calls ∨ event.act = .looks
      · have hsilent := hact.silent_of_heeding hasked hheeding hlast
        exact .cons_of_not_mem event (hrest.not_calls hw' hasked' hsilent)
      · refine (ih hw' hasked' (hact.heeding hheeding)).cons ?_ ?_
        · exact fun heq => hlast (.inl (congrArg Event.act heq))
        · exact fun heq => hlast (.inr (congrArg Event.act heq))
    · refine (ih hw' hasked hheeding).cons ?_ ?_
      · exact fun heq => hother (congrArg Event.worker heq)
      · exact fun heq => hother (congrArg Event.worker heq)

/-- Whenever a worker of a sound run is asked to stop, it heeds that from then on. -/
theorem Leads.stops_of_asked {jobs : List Job} {r r' : Run} {before after : List Event} {k : Nat}
    (h : r.Leads (before ++ ⟨k, .asked⟩ :: after) r') (hr : Sound jobs r) : Stops k after := by
  obtain ⟨mid, hbefore, hafter⟩ := leads_append.mp h
  cases hafter with
  | step hstep hrest =>
    have hmid : Sound jobs mid := hbefore.invariant (fun _ _ _ h => h.step) hr
    cases hstep with
    | @of i act w w' hw hact =>
      obtain ⟨hlt, hget⟩ := List.getElem?_eq_some_iff.mp hw
      have hsound : w.Sound := hmid.workers w (hget ▸ List.getElem_mem hlt)
      cases hact with
      | asked => exact hrest.stops (List.getElem?_set_self hlt) rfl hsound.heeding
      | works hplan => exact absurd rfl hplan.ne_asked

/-- Workers that nobody asks go on as such. -/
theorem Leads.unasked {r r' : Run} {events : List Event} (h : r.Leads events r')
    (hevents : ∀ event ∈ events, event.isWork = true) (hr : ∀ w ∈ r.workers, w.asked = false) :
    ∀ w ∈ r'.workers, w.asked = false := by
  induction h with
  | refl => exact hr
  | @step r₁ r₂ r₃ event events hstep _ ih =>
    refine ih (fun e he => hevents e (List.mem_cons_of_mem _ he)) ?_
    obtain ⟨before, w, after, w', hsplit, -, hact, rfl⟩ := hstep.exists_split
    have hwork : event.act ≠ .asked := of_decide_eq_true (hevents event List.mem_cons_self)
    rw [hsplit] at hr
    intro v hv
    rcases List.mem_append.mp hv with hv | hv
    · exact hr v (List.mem_append_left _ hv)
    · rcases List.mem_cons.mp hv with rfl | hv
      · rw [hact.asked_eq hwork]
        exact hr w (List.mem_append_right _ List.mem_cons_self)
      · exact hr v (List.mem_append_right _ (List.mem_cons_of_mem w hv))

/-! ## The length of a run -/

theorem Step.owe {r r' : Run} {event : Event} {n : Nat} (h : r.Step event r')
    (hn : Worker.Owe r.workers n) :
    ∃ m, Worker.Owe r'.workers m ∧ m + (if event.isWork then 1 else 0) ≤ n := by
  obtain ⟨before, w, after, w', hsplit, -, hact, rfl⟩ := h.exists_split
  rw [hsplit] at hn
  refine hn.replace fun i hi => ?_
  obtain ⟨m, hm, hmi⟩ := hi.step hact
  refine ⟨m, hm, ?_⟩
  by_cases hasked : event.act = .asked <;> simpa [Event.isWork, hasked] using hmi

/-- There is no more work in a run than its workers owe. -/
theorem Leads.work_le {r r' : Run} {events : List Event} (h : r.Leads events r') {n : Nat}
    (hn : Worker.Owe r.workers n) : events.countP Event.isWork ≤ n := by
  induction h generalizing n with
  | refl => exact Nat.zero_le n
  | step hstep _ ih =>
    obtain ⟨m, hm, hmn⟩ := hstep.owe hn
    rw [List.countP_cons]
    exact Nat.le_trans (Nat.add_le_add_right (ih hm) _) hmn

theorem Leads.owe {r r' : Run} {events : List Event} (h : r.Leads events r') {n : Nat}
    (hn : Worker.Owe r.workers n) : Worker.Owe r'.workers n := by
  induction h generalizing n with
  | refl => exact hn
  | step hstep _ ih =>
    obtain ⟨m, hm, hmn⟩ := hstep.owe hn
    exact (ih hm).mono (by omega)

/-- A run comes to rest if its workers go on. -/
theorem exists_atRest {n : Nat} {r : Run} (hn : Worker.Owe r.workers n) :
    ∃ events r', r.Leads events r' ∧ r'.AtRest := by
  induction n using Nat.strongRecOn generalizing r with
  | ind n ih =>
    by_cases hrest : r.AtRest
    · exact ⟨[], r, .refl r, hrest⟩
    · unfold AtRest at hrest
      push Not at hrest
      obtain ⟨event, r₁, hstep, hwork⟩ := hrest
      obtain ⟨m, hm, hmn⟩ := hstep.owe hn
      rw [eq_true_of_ne_false hwork, if_pos rfl] at hmn
      obtain ⟨events, r', hleads, hend⟩ := ih m hmn hm
      exact ⟨event :: events, r', .step hstep hleads, hend⟩

/-- The workers of the engine owe twenty acts for each job at most. -/
theorem owe_start (workers batchSize : Int) (jobs : List Job) :
    Worker.Owe (start workers batchSize jobs).workers (20 * jobs.length) := by
  by_cases hjobs : jobs = []
  · subst hjobs
    trivial
  · rw [start_of_ne_nil workers batchSize hjobs]
    have howe := Worker.owe_hire batchSize (Engine.chunks jobs (min workers jobs.length))
    have hlength := Engine.length_chunks_le hjobs workers
    rw [Engine.flatten_chunks] at howe
    exact howe.mono (by omega)

theorem unasked_start (workers batchSize : Int) (jobs : List Job) :
    ∀ w ∈ (start workers batchSize jobs).workers, w.asked = false := by
  by_cases hjobs : jobs = []
  · subst hjobs
    exact nofun
  · rw [start_of_ne_nil workers batchSize hjobs]
    intro w hw
    obtain ⟨chunk, -, rfl⟩ := List.mem_map.mp hw
    rfl

/-! ## What is heard of all workers -/

section Heard

variable {workers : List Worker}

theorem addresses_subperm (h : ∀ w ∈ workers, w.Sound) :
    ((workers.flatMap Worker.heard).filterMap Signal.address?).Subperm
      ((workers.flatMap Worker.jobs).map Job.address) := by
  induction workers with
  | nil => exact .refl _
  | cons w workers ih =>
    rw [List.flatMap_cons, List.flatMap_cons, List.filterMap_append, List.map_append]
    exact (h w List.mem_cons_self).addresses_subperm.append
      (ih fun v hv => h v (List.mem_cons_of_mem w hv))

theorem count_le (h : ∀ w ∈ workers, w.Sound) :
    (workers.flatMap Worker.heard).countP Signal.isCount ≤
      (workers.flatMap Worker.jobs).length := by
  induction workers with
  | nil => exact Nat.le_refl 0
  | cons w workers ih =>
    rw [List.flatMap_cons, List.flatMap_cons, List.countP_append, List.length_append]
    exact Nat.add_le_add (h w List.mem_cons_self).count_le
      (ih fun v hv => h v (List.mem_cons_of_mem w hv))

theorem count_finished_eq (h : ∀ w ∈ workers, Completes w.asked w.jobs w.heard) :
    (workers.flatMap Worker.heard).count .finished = workers.length := by
  induction workers with
  | nil => rfl
  | cons w workers ih =>
    rw [List.flatMap_cons, List.count_append, (h w List.mem_cons_self).count_finished,
      ih fun v hv => h v (List.mem_cons_of_mem w hv), List.length_cons, Nat.add_comm]

/-- Workers that nobody asked to stop account for all of their jobs. -/
theorem complete_heard (h : ∀ w ∈ workers, Completes false w.jobs w.heard) :
    ((workers.flatMap Worker.heard).filterMap Signal.address?).Perm
        ((workers.flatMap Worker.jobs).map Job.address) ∧
      (workers.flatMap Worker.heard).countP Signal.isCount =
        (workers.flatMap Worker.jobs).length := by
  induction workers with
  | nil => exact ⟨.refl _, rfl⟩
  | cons w workers ih =>
    obtain ⟨account, haccount, haddress, hcount⟩ := (h w List.mem_cons_self).exists_account
    obtain ⟨hperm, hlength⟩ := ih fun v hv => h v (List.mem_cons_of_mem w hv)
    rw [List.flatMap_cons, List.flatMap_cons, List.filterMap_append, List.map_append,
      List.countP_append, List.length_append, haddress, hcount, haccount.count_eq, hlength]
    exact ⟨haccount.addresses_perm.append hperm, rfl⟩

end Heard

/-- At rest every worker has come to its end, and all of its reports were heard. -/
theorem AtRest.completes {jobs : List Job} {r : Run} (hrest : r.AtRest) (h : Sound jobs r)
    {w : Worker} (hw : w ∈ r.workers) : Completes w.asked w.jobs w.heard := by
  have hsound := h.workers w hw
  have hstop : w.plan = .stop ∧ w.underway = [] := by
    by_contra hgoes
    obtain ⟨act, w', hact, hstep⟩ := hsound.exists_step hgoes
    obtain ⟨i, hi⟩ := List.mem_iff_getElem?.mp hw
    have hidle := hrest ⟨i, act⟩ _ (.of hi hstep)
    simp [Event.isWork, hact] at hidle
  exact hsound.completes_heard hstop.1 hstop.2

/-! ## The account of a run -/

/-- The account of a run with some jobs, after some events. -/
structure Accounted (jobs : List Job) (events : List Event) (r : Run) : Prop where
  /-- There is one result at most for a job, under its document and unit. -/
  results : (r.announced.filterMap Announcement.address?).Subperm (jobs.map Job.address)
  /-- The counts go up one by one, and not past the number of jobs. -/
  counts : ∃ n ≤ jobs.length, r.announced.filterMap Announcement.count? =
    (List.range' 1 n).map fun current => (current, jobs.length)
  /-- Nothing is announced after the end, so there is one end at most. -/
  ended : ∀ before after, r.announced = before ++ .finished :: after → after = []
  /-- After a request to stop, the worker makes the one call at most that it was about to make. -/
  stops : ∀ before k after, events = before ++ ⟨k, .asked⟩ :: after → Stops k after
  /-- No run goes on forever. -/
  bounded : events.countP Event.isWork ≤ 20 * jobs.length
  /-- Every run can come to rest. -/
  reaches : ∃ more r', r.Leads more r' ∧ r'.AtRest
  /-- At rest the end has been announced. -/
  rest : r.AtRest → .finished ∈ r.announced
  /-- At rest, and without a request to stop, each job has its result and is counted. -/
  complete : r.AtRest → (∀ event ∈ events, event.isWork = true) →
    (r.announced.filterMap Announcement.address?).Perm (jobs.map Job.address) ∧
      r.announced.filterMap Announcement.count? =
        (List.range' 1 jobs.length).map fun current => (current, jobs.length)

/-- Every run of the engine is accounted for, with any number of workers and any size of the
batches. -/
theorem jobs_accounted (workers batchSize : Int) (jobs : List Job) {events : List Event} {r : Run}
    (h : (start workers batchSize jobs).Leads events r) : Accounted jobs events r := by
  have hstart := Sound.start workers batchSize jobs
  have hsound : Sound jobs r := h.invariant (fun _ _ _ h => h.step) hstart
  have howe := owe_start workers batchSize jobs
  have hdealt := hsound.dealt
  refine ⟨?results, ?counts, ?ended, ?stops, h.work_le howe, exists_atRest (h.owe howe), ?rest,
    ?complete⟩
  case results =>
    have hsubperm := addresses_subperm hsound.workers
    rw [hdealt] at hsubperm
    exact hsound.tally.results.subperm.trans hsubperm
  case counts =>
    have hle := count_le hsound.workers
    rw [hdealt] at hle
    exact ⟨r.engine.progress, hsound.tally.progress ▸ hle, hsound.tally.counts⟩
  case ended =>
    intro before after hsplit
    have hle := count_finished_le hsound.workers
    exact hsound.tally.nothing_after (hsound.tally.finished ▸ hle) hsplit
  case stops =>
    rintro before k after rfl
    exact h.stops_of_asked hstart
  case rest =>
    intro hrest
    have hall := count_finished_eq fun w hw => hrest.completes hsound hw
    obtain ⟨before, hbefore, -⟩ := hsound.tally.ended (hsound.tally.finished.trans hall)
    exact hbefore ▸ List.mem_append_right _ List.mem_cons_self
  case complete =>
    intro hrest hwork
    have hunasked := h.unasked hwork (unasked_start workers batchSize jobs)
    obtain ⟨hperm, hcount⟩ := complete_heard fun w hw =>
      hunasked w hw ▸ hrest.completes hsound hw
    rw [hdealt] at hperm hcount
    refine ⟨hsound.tally.results.trans hperm, ?_⟩
    rw [hsound.tally.counts, hsound.tally.progress.trans hcount]

/-- A worker that is asked to stop when it has looked: it makes its call, and leaves the other job. -/
theorem asked_midway_accounted :
    ∃ events r, (start 1 1 [⟨0, 0, ['A'], []⟩, ⟨0, 1, ['B'], ['A']⟩]).Leads events r ∧
      events.count ⟨0, .calls⟩ = 1 ∧ ⟨0, .asked⟩ ∈ events ∧
      r.announced = [.progress 1 2 ['A'], .done 0 0 ['a'], .finished] ∧
      Accounted [⟨0, 0, ['A'], []⟩, ⟨0, 1, ['B'], ['A']⟩] events r := by
  have hrun : ∃ r, (start 1 1 [⟨0, 0, ['A'], []⟩, ⟨0, 1, ['B'], ['A']⟩]).Leads
      [⟨0, .looks⟩, ⟨0, .asked⟩, ⟨0, .reports (.processed ['A'])⟩, ⟨0, .calls⟩,
        ⟨0, .heard (.processed ['A'])⟩, ⟨0, .reports (.done 0 0 ['a'])⟩, ⟨0, .looks⟩,
        ⟨0, .reports .finished⟩, ⟨0, .heard (.done 0 0 ['a'])⟩, ⟨0, .heard .finished⟩] r ∧
      r.announced = [.progress 1 2 ['A'], .done 0 0 ['a'], .finished] :=
    ⟨_, .step (.of rfl (.works (.looks ..))) <|
      .step (.of rfl (.asked _)) <|
      .step (.of rfl (.works (.reports ..))) <|
      .step (.of rfl (.works (@Plan.Step.calls _ _ _ (.ok ['a']) trivial))) <|
      .step (.of rfl (.heard rfl)) <|
      .step (.of rfl (.works (.reports ..))) <|
      .step (.of rfl (.works (.looks ..))) <|
      .step (.of rfl (.works (.reports ..))) <|
      .step (.of rfl (.heard rfl)) <|
      .step (.of rfl (.heard rfl)) <| .refl _, rfl⟩
  obtain ⟨r, hleads, hannounced⟩ := hrun
  exact ⟨_, r, hleads, by decide, by decide, hannounced, jobs_accounted 1 1 _ hleads⟩

end Run

end GameText
