import GameText.Proofs.Localization.Workers

/-!
# What the engine has heard

The engine's counts and announcements agree with the reports that it has heard, in whatever order
they arrive (`Tally`). A run keeps that together with the soundness of its workers (`Run.Sound`): a
report that arrives was under way, so the end of its worker was not heard before, and the end of the
run had not been announced.
-/

namespace GameText

namespace Announcement

/-- The document and unit that an announcement has a result for. -/
def address? : Announcement → Option (Int × Int)
  | .done document unit _ => some (document, unit)
  | .failed document unit _ => some (document, unit)
  | _ => none

/-- The count of an announcement, and the total beside it. -/
def count? : Announcement → Option (Nat × Nat)
  | .progress current total _ => some (current, total)
  | _ => none

end Announcement

/-! ## The engine's tally -/

/-- An engine for an amount of jobs, and its announcements, agree with what was heard of a number of
workers. -/
structure Tally (workers amount : Nat) (heard : List Signal) (e : Engine)
    (announced : List Announcement) : Prop where
  total : e.total = amount
  progress : e.progress = heard.countP Signal.isCount
  finished : e.finished = heard.count .finished
  results : (announced.filterMap Announcement.address?).Perm (heard.filterMap Signal.address?)
  counts : announced.filterMap Announcement.count? =
    (List.range' 1 e.progress).map fun current => (current, amount)
  waiting : e.finished < workers → e.workers = workers ∧ .finished ∉ announced
  ended : e.finished = workers → ∃ before, announced = before ++ [.finished] ∧ .finished ∉ before

namespace Tally

variable {workers amount : Nat} {heard heard' : List Signal} {e : Engine}
  {announced : List Announcement}

theorem perm (h : Tally workers amount heard e announced) (hheard : heard.Perm heard') :
    Tally workers amount heard' e announced where
  total := h.total
  progress := h.progress.trans (hheard.countP_eq _)
  finished := h.finished.trans (hheard.count_eq _)
  results := h.results.trans (hheard.filterMap _)
  counts := h.counts
  waiting := h.waiting
  ended := h.ended

theorem cancel (h : Tally workers amount heard e announced) :
    Tally workers amount heard e.cancel announced := by
  unfold Engine.cancel
  split
  · exact h
  · exact ⟨h.total, h.progress, h.finished, h.results, h.counts, h.waiting, h.ended⟩

/-- A result is passed on. -/
theorem relay (h : Tally workers amount heard e announced) (hopen : e.finished < workers)
    {signal : Signal} {announcement : Announcement} (hcount : signal.isCount = false)
    (hsignal : signal ≠ .finished) (haddress : announcement.address? = signal.address?)
    (hnumber : announcement.count? = none) (hannouncement : announcement ≠ .finished) :
    Tally workers amount (heard ++ [signal]) e (announced ++ [announcement]) where
  total := h.total
  progress := by simp [h.progress, hcount]
  finished := by simp [h.finished, hsignal]
  results := by
    rw [List.filterMap_append, List.filterMap_append]
    exact h.results.append (by simp [List.filterMap_cons, haddress])
  counts := by
    rw [List.filterMap_append, List.filterMap_cons_none hnumber, h.counts]
    exact List.append_nil _
  waiting _ := ⟨(h.waiting hopen).1, by simp [(h.waiting hopen).2, hannouncement.symm]⟩
  ended heq := absurd heq (Nat.ne_of_lt hopen)

/-- A count goes up by one. -/
theorem advance (h : Tally workers amount heard e announced) (hopen : e.finished < workers)
    (preview : Text) :
    Tally workers amount (heard ++ [.processed preview]) { e with progress := e.progress + 1 }
      (announced ++ [.progress (e.progress + 1) e.total preview]) where
  total := h.total
  progress := by simp [h.progress, Signal.isCount]
  finished := by simp [h.finished]
  results := by
    rw [List.filterMap_append, List.filterMap_append]
    exact h.results.append (.refl _)
  counts := by
    rw [List.filterMap_append, h.counts, h.total, List.range'_1_concat, List.map_append,
      Nat.add_comm]
    rfl
  waiting _ := ⟨(h.waiting hopen).1, by simp [(h.waiting hopen).2]⟩
  ended heq := absurd heq (Nat.ne_of_lt hopen)

/-- The end of a worker is the end of the run if it is the last. -/
theorem finish (h : Tally workers amount heard e announced) (hopen : e.finished < workers) :
    Tally workers amount (heard ++ [.finished]) (e.receive .finished).1
      (announced ++ (e.receive .finished).2.toList) := by
  obtain ⟨hworkers, hmem⟩ := h.waiting hopen
  have hresults : (heard ++ [Signal.finished]).filterMap Signal.address? =
      heard.filterMap Signal.address? := by
    rw [List.filterMap_append]
    exact List.append_nil _
  have hprogress : (heard ++ [Signal.finished]).countP Signal.isCount =
      heard.countP Signal.isCount := by
    rw [List.countP_append]
    rfl
  have hfinished : (heard ++ [Signal.finished]).count .finished = heard.count .finished + 1 := by
    rw [List.count_append]
    rfl
  unfold Engine.receive
  by_cases hlast : e.workers ≤ e.finished + 1
  · simp only [hlast, if_true, Option.toList_some]
    refine ⟨h.total, h.progress.trans hprogress.symm, ?_, ?_, ?_, ?_, ?_⟩
    · exact (congrArg (· + 1) h.finished).trans hfinished.symm
    · rw [hresults, List.filterMap_append]
      exact (List.append_nil _).symm ▸ h.results
    · rw [List.filterMap_append]
      exact (List.append_nil _).trans h.counts
    · intro hlt
      exact absurd hlast (by simp only at hlt; omega)
    · intro _
      exact ⟨announced, rfl, hmem⟩
  · simp only [hlast, if_false, Option.toList_none, List.append_nil]
    refine ⟨h.total, h.progress.trans hprogress.symm, ?_, ?_, h.counts, ?_, ?_⟩
    · exact (congrArg (· + 1) h.finished).trans hfinished.symm
    · exact hresults ▸ h.results
    · intro _
      exact ⟨hworkers, hmem⟩
    · intro heq
      exact absurd hlast (by simp only at heq; omega)

/-- A report is taken in while the end of a worker is still to come. -/
theorem receive (h : Tally workers amount heard e announced) (hopen : e.finished < workers)
    (signal : Signal) : Tally workers amount (heard ++ [signal]) (e.receive signal).1
      (announced ++ (e.receive signal).2.toList) := by
  cases signal with
  | processed preview => exact h.advance hopen preview
  | done document unit target => exact h.relay hopen rfl nofun rfl rfl nofun
  | failed document unit message => exact h.relay hopen rfl nofun rfl rfl nofun
  | finished => exact h.finish hopen

/-- Nothing is announced after the end. -/
theorem nothing_after (h : Tally workers amount heard e announced) (hle : e.finished ≤ workers)
    {before after : List Announcement} (hsplit : announced = before ++ .finished :: after) :
    after = [] := by
  have hmem : .finished ∈ announced := hsplit ▸ List.mem_append_right _ List.mem_cons_self
  have hfinished : e.finished = workers :=
    Nat.le_antisymm hle (Nat.le_of_not_lt fun hlt => (h.waiting hlt).2 hmem)
  obtain ⟨rest, heq, hrest⟩ := h.ended hfinished
  rcases List.eq_nil_or_concat' after with hnil | ⟨last, a, rfl⟩
  · exact hnil
  · have hsame : before ++ .finished :: last ++ [a] = rest ++ [.finished] := by
      rw [List.append_assoc, List.cons_append, ← hsplit, heq]
    have hinit : before ++ .finished :: last = rest := (List.append_inj' hsame rfl).1
    exact absurd (hinit ▸ List.mem_append_right _ List.mem_cons_self) hrest

end Tally

namespace Run

/-! ## Sound runs -/

/-- Everything that the engine has heard. -/
def heard (r : Run) : List Signal := r.workers.flatMap Worker.heard

/-- What holds of a run with some jobs at any time. -/
structure Sound (jobs : List Job) (r : Run) : Prop where
  workers : ∀ w ∈ r.workers, w.Sound
  dealt : r.workers.flatMap Worker.jobs = jobs
  tally : Tally r.workers.length jobs.length r.heard r.engine r.announced

/-- The beginning of a run with jobs to do. -/
theorem start_of_ne_nil (workers batchSize : Int) {jobs : List Job} (h : jobs ≠ []) :
    start workers batchSize jobs =
      { workers := (Engine.chunks jobs (min workers jobs.length)).map (Worker.hire batchSize)
        engine := .start jobs.length (Engine.chunks jobs (min workers jobs.length)).length } := by
  have hempty : jobs.isEmpty = false := by simpa using h
  have hzip : ∀ chunks : List (List Job), chunks.zipWith (fun jobs plan => { jobs, plan })
      (chunks.map fun chunk =>
        if 1 < batchSize then Plan.ofBatches batchSize chunk else Plan.ofJobs chunk) =
      chunks.map (Worker.hire batchSize) := by
    intro chunks
    rw [List.zipWith_map_right, List.zipWith_self]
    rfl
  simp only [start, hempty, Bool.false_eq_true, if_false, Engine.plans, hzip, List.length_map]

theorem count_finished_le {workers : List Worker} (h : ∀ w ∈ workers, w.Sound) :
    (workers.flatMap Worker.heard).count .finished ≤ workers.length := by
  induction workers with
  | nil => exact Nat.le_refl 0
  | cons w workers ih =>
    have hw := (h w List.mem_cons_self).count_finished_le
    have hrest := ih fun v hv => h v (List.mem_cons_of_mem w hv)
    rw [List.flatMap_cons, List.count_append, List.length_cons]
    omega

theorem Sound.start (workers batchSize : Int) (jobs : List Job) :
    Sound jobs (start workers batchSize jobs) := by
  by_cases hjobs : jobs = []
  · subst hjobs
    exact ⟨nofun, rfl, ⟨rfl, rfl, rfl, .refl _, rfl, nofun, fun _ => ⟨[], rfl, nofun⟩⟩⟩
  · rw [start_of_ne_nil workers batchSize hjobs]
    have hhired : ∀ w ∈ (Engine.chunks jobs (min workers jobs.length)).map (Worker.hire batchSize),
        w.Sound ∧ w.heard = [] := by
      intro w hw
      obtain ⟨chunk, -, rfl⟩ := List.mem_map.mp hw
      exact ⟨Worker.sound_hire batchSize chunk, rfl⟩
    have hheard : ∀ ws : List Worker, (∀ w ∈ ws, w.Sound ∧ w.heard = []) →
        ws.flatMap Worker.heard = [] :=
      fun ws hws => List.flatMap_eq_nil_iff.mpr fun w hw => (hws w hw).2
    refine ⟨fun w hw => (hhired w hw).1, ?_, ?_⟩
    · rw [List.flatMap_map]
      exact List.flatMap_id.trans (Engine.flatten_chunks jobs _)
    · rw [heard, hheard _ hhired]
      refine ⟨rfl, rfl, rfl, .refl _, rfl, fun _ => ⟨(List.length_map ..).symm, nofun⟩, fun heq => ?_⟩
      have hlength : 0 < (Engine.chunks jobs (min workers jobs.length)).length := by
        refine List.length_pos_of_ne_nil fun hnil => hjobs ?_
        rw [← Engine.flatten_chunks jobs (min workers jobs.length), hnil, List.flatten_nil]
      rw [List.length_map] at heq
      exact absurd heq (Nat.ne_of_lt hlength)

/-- As long as something is under way, the end of a worker is still to come. -/
theorem Sound.finished_lt {jobs : List Job} {r : Run} (h : Sound jobs r) {w : Worker}
    (hw : w ∈ r.workers) (hunderway : w.underway ≠ []) : r.engine.finished < r.workers.length := by
  rw [h.tally.finished, heard]
  obtain ⟨before, after, hsplit⟩ := List.append_of_mem hw
  have hworkers := h.workers
  rw [hsplit] at hworkers ⊢
  have hbefore := count_finished_le fun v hv => hworkers v (List.mem_append_left _ hv)
  have hafter := count_finished_le fun v hv =>
    hworkers v (List.mem_append_right _ (List.mem_cons_of_mem w hv))
  have hw := List.count_eq_zero_of_not_mem
    ((hworkers w (List.mem_append_right _ List.mem_cons_self)).finished_not_mem_heard hunderway)
  rw [List.flatMap_append, List.flatMap_cons, List.count_append, List.count_append,
    List.length_append, List.length_cons]
  omega

theorem Sound.step {jobs : List Job} {r r' : Run} {event : Event} (h : Sound jobs r)
    (hstep : r.Step event r') : Sound jobs r' := by
  obtain ⟨before, w, after, w', hsplit, -, hact, rfl⟩ := hstep.exists_split
  have hw : w ∈ r.workers := hsplit ▸ List.mem_append_right _ List.mem_cons_self
  have hworkers : ∀ v ∈ before ++ w' :: after, v.Sound := by
    intro v hv
    rcases List.mem_append.mp hv with hv | hv
    · exact h.workers v (hsplit ▸ List.mem_append_left _ hv)
    · rcases List.mem_cons.mp hv with rfl | hv
      · exact (h.workers w hw).step hact
      · exact h.workers v (hsplit ▸ List.mem_append_right _ (List.mem_cons_of_mem w hv))
  have hdealt : (before ++ w' :: after).flatMap Worker.jobs = jobs := by
    rw [← h.dealt, hsplit, List.flatMap_append, List.flatMap_append, List.flatMap_cons,
      List.flatMap_cons, hact.jobs_eq]
  have hlength : r.workers.length = (before ++ w' :: after).length := by
    rw [hsplit, List.length_append, List.length_append, List.length_cons, List.length_cons]
  have htally := h.tally
  rw [hlength, heard, hsplit, List.flatMap_append, List.flatMap_cons] at htally
  refine ⟨hworkers, hdealt, ?_⟩
  show Tally (before ++ w' :: after).length jobs.length
    ((before ++ w' :: after).flatMap Worker.heard) _ _
  rw [List.flatMap_append, List.flatMap_cons]
  obtain ⟨i, act⟩ := event
  cases hact with
  | asked => exact htally.cancel
  | works hplan =>
    rw [notice_of_step hplan]
    exact htally
  | @heard signal rest hunderway =>
    have hopen : r.engine.finished < (before ++ w :: after).length :=
      hsplit ▸ h.finished_lt hw (hunderway ▸ List.cons_ne_nil _ _)
    refine (htally.receive (hlength ▸ hsplit ▸ hopen) signal).perm ?_
    simp only [List.append_assoc]
    exact (List.perm_append_comm.append_left _).append_left _

end Run

end GameText
