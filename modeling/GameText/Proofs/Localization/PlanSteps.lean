import GameText.Proofs.Localization.PlanReports

/-!
# The steps of a plan

A plan whose calls are answered ends after a number of steps that is known beforehand and never
breaks down (`Plan.Within`): a job takes nine steps at most, and the end takes one. A worker that was
asked to stop may still make the one call it was about to make. After that call, or when it has
looked, it makes no other (`Plan.Heeding`).
-/

namespace GameText

namespace Plan

/-! ## The number of steps -/

/-- A plan comes to its end within a number of steps. -/
def Within : Plan → Nat → Prop
  | .stop, _ => True
  | .breakDown _, _ => False
  | .report _ next, n => ∃ m < n, next.Within m
  | .ifCancelled yes no, n => ∃ m < n, yes.Within m ∧ no.Within m
  | .translate _ next, n => ∃ m < n, ∀ answer, Answer answer → (next answer).Within m
  | .translateBatch _ next, n => ∃ m < n, ∀ answer, BatchAnswer answer → (next answer).Within m

section Within

variable {plan next : Plan} {m n : Nat}

theorem Within.mono (h : plan.Within m) (hmn : m ≤ n) : plan.Within n := by
  cases plan with
  | stop => trivial
  | breakDown => exact h
  | report signal next =>
    obtain ⟨k, hk, h⟩ := h
    exact ⟨k, Nat.lt_of_lt_of_le hk hmn, h⟩
  | ifCancelled yes no =>
    obtain ⟨k, hk, h⟩ := h
    exact ⟨k, Nat.lt_of_lt_of_le hk hmn, h⟩
  | translate job next =>
    obtain ⟨k, hk, h⟩ := h
    exact ⟨k, Nat.lt_of_lt_of_le hk hmn, h⟩
  | translateBatch entries next =>
    obtain ⟨k, hk, h⟩ := h
    exact ⟨k, Nat.lt_of_lt_of_le hk hmn, h⟩

/-- Each step is one of the number. -/
theorem Step.within {asked : Bool} {plan' : Plan} {act : Worker.Act}
    (h : plan.Step asked act plan') (hn : plan.Within n) : ∃ m < n, plan'.Within m := by
  cases h with
  | reports signal next => exact hn
  | looks yes no =>
    obtain ⟨m, hm, hyes, hno⟩ := hn
    cases asked with
    | true => exact ⟨m, hm, hyes⟩
    | false => exact ⟨m, hm, hno⟩
  | calls job next h =>
    obtain ⟨m, hm, hnext⟩ := hn
    exact ⟨m, hm, hnext _ h⟩
  | callsBatch entries next h =>
    obtain ⟨m, hm, hnext⟩ := hn
    exact ⟨m, hm, hnext _ h⟩

/-- A call may be answered. -/
theorem answer_ok : Answer (.ok [] : Except ClientError Text) := trivial

theorem batchAnswer_ok : BatchAnswer (.ok []) := List.nodup_nil

/-- Short of its end a plan has a step. -/
theorem Within.exists_step (h : plan.Within n) (asked : Bool) (hstop : plan ≠ .stop) :
    ∃ act plan', plan.Step asked act plan' := by
  cases plan with
  | stop => exact absurd rfl hstop
  | breakDown => exact h.elim
  | report signal next => exact ⟨_, _, .reports signal next⟩
  | ifCancelled yes no => exact ⟨_, _, .looks yes no⟩
  | translate job next => exact ⟨_, _, .calls job next answer_ok⟩
  | translateBatch entries next => exact ⟨_, _, .callsBatch entries next batchAnswer_ok⟩

/-- There is something that the plan reports in the end. -/
theorem Within.exists_said (asked : Bool) (h : plan.Within n) : ∃ said, plan.Says asked said := by
  induction plan generalizing n with
  | stop => exact ⟨[], rfl⟩
  | breakDown => exact h.elim
  | report signal next ih =>
    obtain ⟨m, -, h⟩ := h
    obtain ⟨said, hsaid⟩ := ih h
    exact ⟨signal :: said, said, rfl, hsaid⟩
  | ifCancelled yes no _ ih =>
    obtain ⟨m, -, -, h⟩ := h
    obtain ⟨said, hsaid⟩ := ih h
    exact ⟨said, .inr hsaid⟩
  | translate job next ih =>
    obtain ⟨m, -, h⟩ := h
    obtain ⟨said, hsaid⟩ := ih _ (h _ answer_ok)
    exact ⟨said, _, answer_ok, hsaid⟩
  | translateBatch entries next ih =>
    obtain ⟨m, -, h⟩ := h
    obtain ⟨said, hsaid⟩ := ih _ (h _ batchAnswer_ok)
    exact ⟨said, _, batchAnswer_ok, hsaid⟩

/-- A job by itself takes four steps: a look, a count, a call and a result. -/
theorem within_each (h : next.Within n) (jobs : List Job) :
    (each next jobs).Within (4 * jobs.length + n) := by
  induction jobs with
  | nil => exact h.mono (Nat.le_add_left ..)
  | cons job jobs ih =>
    obtain ⟨goOn, heach, hgoOn⟩ := exists_each_cons next job jobs
    rw [heach, List.length_cons]
    refine ⟨4 * jobs.length + n + 3, by omega, h.mono (by omega),
      4 * jobs.length + n + 2, by omega, 4 * jobs.length + n + 1, by omega, ?_⟩
    intro answer hanswer
    obtain ⟨signal, -, -, hreport⟩ := hgoOn answer hanswer
    rw [hreport]
    exact ⟨_, Nat.lt_succ_self _, ih⟩

theorem within_reportAll (h : next.Within n) (keys : List (Text × Job))
    (results : List (Text × Text)) :
    (reportAll keys next results).Within (2 * (answered keys results).length + n) := by
  induction results with
  | nil => exact h.mono (Nat.le_add_left ..)
  | cons entry results ih =>
    obtain ⟨key, target⟩ := entry
    rw [answered_cons]
    unfold reportAll
    cases lookup? key keys with
    | none => exact ih.mono (by simp)
    | some job =>
      by_cases htarget : target.isEmpty = true
      · simp only [htarget, if_true]
        exact ih
      · simp only [htarget, Bool.false_eq_true, if_false, Option.toList_some, List.length_append,
          List.length_singleton]
        exact ⟨2 * (answered keys results).length + n + 1, by omega, _, Nat.lt_succ_self _, ih⟩

/-- An attempt at a batch takes a look and a call. -/
theorem within_batch (h : next.Within n) (jobs : List Job) (attempts : Nat) :
    (batch next jobs attempts).Within (2 * attempts + (4 * jobs.length + n)) := by
  induction attempts with
  | zero => exact (within_each h jobs).mono (Nat.le_add_left ..)
  | succ attempts ih =>
    obtain ⟨entries, goOn, hbatch, hgoOn⟩ := exists_batch_succ next jobs attempts
    rw [hbatch]
    refine ⟨2 * attempts + (4 * jobs.length + n) + 1, by omega, h.mono (by omega),
      2 * attempts + (4 * jobs.length + n), by omega, ?_⟩
    intro answer hanswer
    rcases hgoOn answer hanswer with hagain | ⟨results, hresults, hreport⟩
    · rw [hagain]
      exact ih
    · have hlength := (answered_append_missing_perm (nodup_keys_keyed jobs) hresults).length_eq
      rw [keyed_jobs, List.length_append] at hlength
      rw [hreport]
      exact (within_reportAll (within_each h _) (keyed jobs) results).mono (by omega)

/-- A batch that is not empty takes nine steps for each job at most. -/
theorem within_batches (h : next.Within n) {jobs : List (List Job)} (hne : ∀ b ∈ jobs, b ≠ []) :
    (batches next jobs).Within (9 * jobs.flatten.length + n) := by
  induction jobs with
  | nil => exact h.mono (Nat.le_add_left ..)
  | cons b bs ih =>
    have hlength : 0 < b.length := List.length_pos_of_ne_nil (hne b List.mem_cons_self)
    have hrest := ih fun b hb => hne b (List.mem_cons_of_mem _ hb)
    rw [List.flatten_cons, List.length_append]
    refine ⟨2 * attempts + (4 * b.length + (9 * bs.flatten.length + n)), ?_,
      h.mono (by omega), within_batch hrest b attempts⟩
    rw [attempts]
    omega

theorem ne_nil_of_mem_runsOf {α : Type} (size : Nat) (items : List α) :
    ∀ run ∈ runsOf size items, run ≠ [] := by
  fun_induction runsOf size items with
  | case1 => exact fun _ hrun => absurd hrun List.not_mem_nil
  | case2 items h ih =>
    rintro run (_ | ⟨_, hrun⟩)
    · exact fun hrun => h (by simp_all)
    · exact ih run hrun

/-- Whatever plan the engine makes for jobs, it ends within nine steps for each and one more. -/
theorem within_plan (batchSize : Int) (jobs : List Job) :
    (if 1 < batchSize then ofBatches batchSize jobs else ofJobs jobs).Within
      (9 * jobs.length + 1) := by
  have hfinish : finish.Within 1 := ⟨0, Nat.one_pos, trivial⟩
  split
  next hsize =>
    unfold ofBatches
    rw [if_neg (by omega), if_neg (by omega)]
    have hwithin := within_batches hfinish (ne_nil_of_mem_runsOf batchSize.toNat jobs)
    rwa [flatten_runsOf (by omega)] at hwithin
  next => exact (within_each hfinish jobs).mono (by omega)

end Within

/-! ## Requests to stop -/

/-- A worker that was asked to stop makes no other call. -/
def Silent : Plan → Prop
  | .stop => True
  | .breakDown _ => True
  | .report _ next => next.Silent
  | .ifCancelled yes _ => yes.Silent
  | .translate _ _ => False
  | .translateBatch _ _ => False

/-- A worker that is asked to stop makes no other call when it has looked, or called. -/
def Heeding : Plan → Prop
  | .stop => True
  | .breakDown _ => True
  | .report _ next => next.Heeding
  | .ifCancelled yes no => yes.Silent ∧ yes.Heeding ∧ no.Heeding
  | .translate _ next => ∀ answer, Answer answer → (next answer).Silent ∧ (next answer).Heeding
  | .translateBatch _ next =>
    ∀ answer, BatchAnswer answer → (next answer).Silent ∧ (next answer).Heeding

theorem Step.silent {plan plan' : Plan} {act : Worker.Act} (h : plan.Step true act plan')
    (hsilent : plan.Silent) : act ≠ .calls ∧ plan'.Silent := by
  cases h with
  | reports signal next => exact ⟨nofun, hsilent⟩
  | looks yes no => exact ⟨nofun, hsilent⟩
  | calls => exact hsilent.elim
  | callsBatch => exact hsilent.elim

theorem Step.heeding {asked : Bool} {plan plan' : Plan} {act : Worker.Act}
    (h : plan.Step asked act plan') (hheeding : plan.Heeding) : plan'.Heeding := by
  cases h with
  | reports signal next => exact hheeding
  | looks yes no =>
    cases asked with
    | true => exact hheeding.2.1
    | false => exact hheeding.2.2
  | calls job next h => exact (hheeding _ h).2
  | callsBatch entries next h => exact (hheeding _ h).2

/-- The one call after the request, or the look, is the last. -/
theorem Step.silent_of_heeding {plan plan' : Plan} {act : Worker.Act}
    (h : plan.Step true act plan') (hheeding : plan.Heeding) (hact : act = .calls ∨ act = .looks) :
    plan'.Silent := by
  cases h with
  | reports signal next => rcases hact with hact | hact <;> cases hact
  | looks yes no => exact hheeding.1
  | calls job next h => exact (hheeding _ h).1
  | callsBatch entries next h => exact (hheeding _ h).1

/-- A plan that looks before it calls. -/
structure Looks (plan : Plan) : Prop where
  silent : plan.Silent
  heeding : plan.Heeding

section Looks

variable {next : Plan}

theorem Looks.report {plan : Plan} (h : Looks plan) (signal : Signal) :
    Looks (.report signal plan) := ⟨h.silent, h.heeding⟩

theorem Looks.ifCancelled {no : Plan} (h : Looks next) (hno : no.Heeding) :
    Looks (.ifCancelled next no) := ⟨h.silent, h.silent, h.heeding, hno⟩

theorem looks_each (h : Looks next) (jobs : List Job) : Looks (each next jobs) := by
  induction jobs with
  | nil => exact h
  | cons job jobs ih =>
    obtain ⟨goOn, heach, hgoOn⟩ := exists_each_cons next job jobs
    rw [heach]
    refine h.ifCancelled fun answer hanswer => ?_
    obtain ⟨signal, -, -, hreport⟩ := hgoOn answer hanswer
    rw [hreport]
    exact ⟨(ih.report signal).silent, (ih.report signal).heeding⟩

theorem looks_reportAll (h : Looks next) (keys : List (Text × Job)) (results : List (Text × Text)) :
    Looks (reportAll keys next results) := by
  induction results with
  | nil => exact h
  | cons entry results ih =>
    obtain ⟨key, target⟩ := entry
    unfold reportAll
    cases lookup? key keys with
    | none => exact ih
    | some job =>
      dsimp only
      split
      · exact ih
      · exact (ih.report _).report _

theorem looks_batch (h : Looks next) (jobs : List Job) (attempts : Nat) :
    Looks (batch next jobs attempts) := by
  induction attempts with
  | zero => exact looks_each h jobs
  | succ attempts ih =>
    obtain ⟨entries, goOn, hbatch, hgoOn⟩ := exists_batch_succ next jobs attempts
    rw [hbatch]
    refine h.ifCancelled fun answer hanswer => ?_
    have hgo : Looks (goOn answer) := by
      rcases hgoOn answer hanswer with hagain | ⟨results, -, hreport⟩
      · rw [hagain]
        exact ih
      · rw [hreport]
        exact looks_reportAll (looks_each h _) _ _
    exact ⟨hgo.silent, hgo.heeding⟩

theorem looks_batches (h : Looks next) (jobs : List (List Job)) : Looks (batches next jobs) := by
  induction jobs with
  | nil => exact h
  | cons b bs ih => exact h.ifCancelled (looks_batch ih b attempts).heeding

theorem looks_plan (batchSize : Int) (jobs : List Job) :
    Looks (if 1 < batchSize then ofBatches batchSize jobs else ofJobs jobs) := by
  have hfinish : Looks finish := ⟨trivial, trivial⟩
  split
  · unfold ofBatches
    rw [if_neg (by omega)]
    exact looks_batches hfinish _
  · exact looks_each hfinish jobs

end Looks

end Plan

end GameText
