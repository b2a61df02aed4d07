import GameText.Proofs.Json.Entries
import GameText.Proofs.Localization.Interleaving
import GameText.Proofs.Text.Decimal
import Mathlib.Data.List.Perm.Subperm
import Mathlib.Data.List.Nodup

/-!
# What a plan reports

Whatever a worker's calls come to, and wherever it finds that it was asked to stop, the reports of
its whole plan account for its jobs: a unit is reported for a job once at most, and for every job
unless the worker was asked to stop; there is one count for each of them; and the end is reported
last and once (`Completes`).

A plan is made of parts that go on with another plan. The law of a part says that what is reported
begins with an account of the part's jobs and goes on with a report of that other plan. A batch that
comes back in part splits its jobs into those that have a target text and those that are missing
(`answered_append_missing_perm`).
-/

namespace GameText

/-- The document and unit of a job. -/
def Job.address (job : Job) : Int × Int := (job.document, job.unit)

namespace Signal

/-- The document and unit that a report has a result for. -/
def address? : Signal → Option (Int × Int)
  | .done document unit _ => some (document, unit)
  | .failed document unit _ => some (document, unit)
  | _ => none

/-- A report that a job is worked on. -/
def isCount : Signal → Bool
  | .processed _ => true
  | _ => false

end Signal

/-! ## Accounts -/

/-- Reports account for some jobs of a list, each once, and for all of them unless the worker was
asked to stop. -/
def Accounts (asked : Bool) (jobs : List Job) (said : List Signal) : Prop :=
  ∃ settled : List Job, settled.Subperm jobs ∧ (asked = false → settled.Perm jobs) ∧
    (said.filterMap Signal.address?).Perm (settled.map Job.address) ∧
    said.countP Signal.isCount = settled.length ∧ .finished ∉ said

namespace Accounts

variable {asked : Bool}

theorem nil (asked : Bool) : Accounts asked [] [] :=
  ⟨[], .refl _, fun _ => .refl _, .refl _, rfl, List.not_mem_nil⟩

/-- A worker that was asked to stop need not account for anything. -/
theorem stopped (jobs : List Job) : Accounts true jobs [] :=
  ⟨[], List.nil_subperm, nofun, .refl _, rfl, List.not_mem_nil⟩

theorem append {jobs jobs' : List Job} {said said' : List Signal} (h : Accounts asked jobs said)
    (h' : Accounts asked jobs' said') : Accounts asked (jobs ++ jobs') (said ++ said') := by
  obtain ⟨settled, hsub, hall, haddress, hcount, hfinished⟩ := h
  obtain ⟨settled', hsub', hall', haddress', hcount', hfinished'⟩ := h'
  refine ⟨settled ++ settled', hsub.append hsub', fun ha => (hall ha).append (hall' ha), ?_, ?_, ?_⟩
  · rw [List.filterMap_append, List.map_append]
    exact haddress.append haddress'
  · rw [List.countP_append, List.length_append, hcount, hcount']
  · simp [hfinished, hfinished']

theorem perm {jobs jobs' : List Job} {said : List Signal} (h : Accounts asked jobs said)
    (hjobs : jobs.Perm jobs') : Accounts asked jobs' said := by
  obtain ⟨settled, hsub, hall, hsaid⟩ := h
  exact ⟨settled, hsub.trans hjobs.subperm, fun ha => (hall ha).trans hjobs, hsaid⟩

/-- A job is accounted for by a count and a result for its unit. -/
theorem single (job : Job) (preview : Text) {signal : Signal}
    (h : signal.address? = some job.address) (hcount : signal.isCount = false) :
    Accounts asked [job] [.processed preview, signal] := by
  refine ⟨[job], .refl _, fun _ => .refl _, ?_, ?_, ?_⟩
  · rw [List.filterMap_cons_none rfl, List.filterMap_cons_some h]
    exact .refl _
  · rw [List.countP_cons_of_pos rfl, List.countP_cons_of_neg (by simp [hcount])]
    rfl
  · rintro (_ | ⟨_, _ | ⟨_, hmem⟩⟩)
    · cases h
    · cases hmem

end Accounts

/-- The reports of a whole plan: an account of the jobs, and the end. -/
def Completes (asked : Bool) (jobs : List Job) (said : List Signal) : Prop :=
  ∃ account, said = account ++ [.finished] ∧ Accounts asked jobs account

namespace Plan

/-! ## The reports of a plan -/

/-- What a plan may report in the end, for a worker that may be asked to stop at any time or that is
never asked. -/
def Says (asked : Bool) : Plan → List Signal → Prop
  | .stop, said => said = []
  | .breakDown _, _ => False
  | .report signal next, said => ∃ rest, said = signal :: rest ∧ next.Says asked rest
  | .ifCancelled yes no, said => asked = true ∧ yes.Says asked said ∨ no.Says asked said
  | .translate _ next, said => ∃ answer, Answer answer ∧ (next answer).Says asked said
  | .translateBatch _ next, said => ∃ answer, BatchAnswer answer ∧ (next answer).Says asked said

/-- What is reported after a step was open before it. -/
theorem Step.said_before {asked mayBe : Bool} {plan plan' : Plan} {act : Worker.Act}
    (h : plan.Step asked act plan') (hasked : asked = true → mayBe = true) {said : List Signal}
    (hsaid : plan'.Says mayBe said) : plan.Says mayBe (act.said ++ said) := by
  cases h with
  | reports signal next => exact ⟨said, rfl, hsaid⟩
  | looks yes no =>
    cases asked with
    | true => exact .inl ⟨hasked rfl, hsaid⟩
    | false => exact .inr hsaid
  | calls job next h => exact ⟨_, h, hsaid⟩
  | callsBatch entries next h => exact ⟨_, h, hsaid⟩

/-- A part of a plan reports an account of its jobs before the plan goes on. -/
def Settles (asked : Bool) (jobs : List Job) (plan next : Plan) : Prop :=
  ∀ said, plan.Says asked said →
    ∃ account rest, said = account ++ rest ∧ Accounts asked jobs account ∧ next.Says asked rest

namespace Settles

variable {asked : Bool} {jobs : List Job} {plan yes no next : Plan}

theorem refl (asked : Bool) (next : Plan) : Settles asked [] next next := by
  intro said h
  exact ⟨[], said, rfl, .nil asked, h⟩

theorem trans {jobs' : List Job} {plan' : Plan} (h : Settles asked jobs plan plan')
    (h' : Settles asked jobs' plan' next) : Settles asked (jobs ++ jobs') plan next := by
  intro said hsaid
  obtain ⟨account, rest, rfl, haccount, hrest⟩ := h said hsaid
  obtain ⟨account', rest', rfl, haccount', hrest'⟩ := h' rest hrest
  exact ⟨account ++ account', rest', (List.append_assoc ..).symm, haccount.append haccount', hrest'⟩

theorem perm {jobs' : List Job} (h : Settles asked jobs plan next) (hjobs : jobs.Perm jobs') :
    Settles asked jobs' plan next := by
  intro said hsaid
  obtain ⟨account, rest, hsplit, haccount, hrest⟩ := h said hsaid
  exact ⟨account, rest, hsplit, haccount.perm hjobs, hrest⟩

/-- A worker that finds that it was asked to stop goes on at once. -/
theorem ifCancelled (h : Settles asked jobs no next) :
    Settles asked jobs (.ifCancelled next no) next := by
  rintro said (⟨rfl, hnext⟩ | hno)
  · exact ⟨[], said, rfl, .stopped jobs, hnext⟩
  · exact h said hno

/-- A job is settled by a count and a result. -/
theorem single (job : Job) (preview : Text) {signal : Signal}
    (h : signal.address? = some job.address) (hcount : signal.isCount = false) :
    Settles asked [job] (.report (.processed preview) (.report signal next)) next := by
  rintro _ ⟨_, rfl, rest, rfl, hrest⟩
  exact ⟨[.processed preview, signal], rest, rfl, .single job preview h hcount, hrest⟩

end Settles

/-! ## The parts of a plan -/

/-- How a worker goes on with its first job: it looks, counts the job, calls, and reports the result
of the job. -/
theorem exists_each_cons (next : Plan) (job : Job) (jobs : List Job) :
    ∃ goOn, each next (job :: jobs) = .ifCancelled next
        (.report (.processed (preview job.text)) (.translate job goOn)) ∧
      ∀ answer, Answer answer → ∃ signal, signal.address? = some job.address ∧
        signal.isCount = false ∧ goOn answer = .report signal (each next jobs) := by
  refine ⟨_, rfl, fun answer hanswer => ?_⟩
  cases answer with
  | ok target => exact ⟨.done job.document job.unit target, rfl, rfl, rfl⟩
  | error e => exact ⟨.failed job.document job.unit e.message, rfl, rfl, if_pos hanswer⟩

/-- How a worker goes on with a batch: it looks and calls, and then it tries again or reports what
came back and takes the missing jobs one at a time. -/
theorem exists_batch_succ (next : Plan) (jobs : List Job) (attempts : Nat) :
    ∃ entries goOn, batch next jobs (attempts + 1) =
        .ifCancelled next (.translateBatch entries goOn) ∧
      ∀ answer, BatchAnswer answer → goOn answer = batch next jobs attempts ∨
        ∃ results : List (Text × Text), (results.map Prod.fst).Nodup ∧ goOn answer =
          reportAll (keyed jobs) (each next (missing (keyed jobs) results)) results := by
  refine ⟨_, _, rfl, fun answer hanswer => ?_⟩
  cases answer with
  | ok results => exact .inr ⟨results, hanswer, rfl⟩
  | error e => exact .inl (if_pos hanswer)

/-- One at a time, every job is settled. -/
theorem settles_each (asked : Bool) (next : Plan) (jobs : List Job) :
    Settles asked jobs (each next jobs) next := by
  induction jobs with
  | nil => exact .refl asked next
  | cons job jobs ih =>
    obtain ⟨goOn, heach, hgoOn⟩ := exists_each_cons next job jobs
    rw [heach]
    refine .ifCancelled ?_
    rintro _ ⟨said, rfl, answer, hanswer, hsaid⟩
    obtain ⟨signal, haddress, hcount, hreport⟩ := hgoOn answer hanswer
    rw [hreport] at hsaid
    exact (Settles.single job _ haddress hcount).trans ih _ ⟨said, rfl, hsaid⟩

section Batch

variable {keys : List (Text × Job)}

/-- The jobs for which a reply has a target text, in the order of the reply. -/
def answered (keys : List (Text × Job)) (results : List (Text × Text)) : List Job :=
  results.flatMap fun (key, target) => if target.isEmpty then [] else (lookup? key keys).toList

theorem answered_cons (keys : List (Text × Job)) (key target : Text)
    (results : List (Text × Text)) :
    answered keys ((key, target) :: results) =
      (if target.isEmpty then [] else (lookup? key keys).toList) ++ answered keys results :=
  List.flatMap_cons

/-- The target texts of a reply settle the jobs they are for. -/
theorem settles_reportAll (asked : Bool) (keys : List (Text × Job)) (next : Plan)
    (results : List (Text × Text)) :
    Settles asked (answered keys results) (reportAll keys next results) next := by
  induction results with
  | nil => exact .refl asked next
  | cons entry results ih =>
    obtain ⟨key, target⟩ := entry
    rw [answered_cons]
    unfold reportAll
    cases hjob : lookup? key keys with
    | none => simpa using ih
    | some job =>
      by_cases htarget : target.isEmpty = true
      · simpa only [htarget, if_true, List.nil_append] using ih
      · simp only [htarget, Bool.false_eq_true, if_false]
        exact (Settles.single job _ rfl rfl).trans ih

/-- A reply has a target text for a key. -/
def isAnswered (results : List (Text × Text)) (entry : Text × Job) : Bool :=
  results.any fun (key, target) => key == entry.1 && !target.isEmpty

theorem isAnswered_cons_of_ne {results : List (Text × Text)} {key target : Text}
    {entry : Text × Job} (h : entry.1 ≠ key) :
    isAnswered ((key, target) :: results) entry = isAnswered results entry := by
  simp [isAnswered, Ne.symm h]

theorem isAnswered_eq_false {results : List (Text × Text)} {key : Text}
    (hfresh : key ∉ results.map Prod.fst) (job : Job) : isAnswered results (key, job) = false := by
  simp only [isAnswered, List.any_eq_false]
  rintro ⟨k, t⟩ hmem hk
  exact hfresh (List.mem_map.mpr ⟨(k, t), hmem, by simp_all⟩)

/-- A target text for a key that had none answers the one job with that key besides. -/
theorem filter_isAnswered_cons_perm {before after : List (Text × Job)} {key target : Text}
    {job : Job} (hkeys : ((before ++ (key, job) :: after).map Prod.fst).Nodup)
    {results : List (Text × Text)} (hfresh : key ∉ results.map Prod.fst)
    (htarget : target.isEmpty = false) :
    ((before ++ (key, job) :: after).filter (isAnswered ((key, target) :: results))).Perm
      ((key, job) :: (before ++ (key, job) :: after).filter (isAnswered results)) := by
  have hne : ∀ e ∈ before ++ after, e.1 ≠ key := by
    intro e he hkey
    have hnodup := (List.perm_middle.map Prod.fst).nodup_iff.mp hkeys
    exact (List.nodup_cons.mp hnodup).1 (List.mem_map.mpr ⟨e, he, hkey⟩)
  have hsame : ∀ part ⊆ before ++ after, part.filter (isAnswered ((key, target) :: results)) =
      part.filter (isAnswered results) :=
    fun part hpart => List.filter_congr fun e he => isAnswered_cons_of_ne (hne e (hpart he))
  have hnew : isAnswered ((key, target) :: results) (key, job) = true := by
    simp [isAnswered, htarget]
  have hold : ¬ isAnswered results (key, job) = true := by simp [isAnswered_eq_false hfresh]
  rw [List.filter_append, List.filter_cons_of_pos hnew,
    hsame before (List.subset_append_left ..), hsame after (List.subset_append_right ..),
    List.filter_append, List.filter_cons_of_neg hold]
  exact List.perm_middle

/-- With each key once on either side, the jobs that a reply answers are those whose key has a
target text in it. -/
theorem answered_perm_filter (hkeys : (keys.map Prod.fst).Nodup) {results : List (Text × Text)}
    (hresults : (results.map Prod.fst).Nodup) :
    (answered keys results).Perm ((keys.filter (isAnswered results)).map Prod.snd) := by
  induction results with
  | nil => simp [answered, isAnswered]
  | cons entry results ih =>
    obtain ⟨key, target⟩ := entry
    obtain ⟨hfresh, hresults⟩ := List.nodup_cons.mp hresults
    have ih := ih hresults
    by_cases htarget : target.isEmpty = true
    · have hsame : isAnswered ((key, target) :: results) = isAnswered results := by
        funext e
        simp [isAnswered, htarget]
      simpa only [answered_cons, htarget, if_true, List.nil_append, hsame] using ih
    cases hjob : lookup? key keys with
    | none =>
      have hsame : keys.filter (isAnswered ((key, target) :: results)) =
          keys.filter (isAnswered results) :=
        List.filter_congr fun e he => isAnswered_cons_of_ne (lookup?_eq_none hjob e he)
      simpa [answered_cons, hjob, hsame] using ih
    | some job =>
      have hans : answered keys ((key, target) :: results) = job :: answered keys results := by
        simp [answered_cons, htarget, hjob]
      obtain ⟨before, after, rfl⟩ := exists_split_of_lookup? hjob
      have hperm := filter_isAnswered_cons_perm hkeys hfresh (Bool.eq_false_iff.mpr htarget)
      rw [hans]
      exact (ih.cons job).trans (hperm.map Prod.snd).symm

/-- The jobs that a reply answers and those that it misses are the jobs of the batch. -/
theorem answered_append_missing_perm (hkeys : (keys.map Prod.fst).Nodup)
    {results : List (Text × Text)} (hresults : (results.map Prod.fst).Nodup) :
    (answered keys results ++ missing keys results).Perm (keys.map Prod.snd) := by
  have hmissing : missing keys results =
      (keys.filter fun e => !isAnswered results e).map Prod.snd := rfl
  rw [hmissing]
  refine ((answered_perm_filter hkeys hresults).append_right _).trans ?_
  rw [← List.map_append]
  exact (List.filter_append_perm _ keys).map _

/-- No two jobs of a batch have one key. -/
theorem nodup_keys_keyed (jobs : List Job) : ((keyed jobs).map Prod.fst).Nodup := by
  have hkeys : (keyed jobs).map Prod.fst =
      (List.range' 0 jobs.length).map fun i => "Line".toList ++ Text.ofNat (i + 1) := by
    rw [keyed, List.map_map, ← List.zipIdx_map_snd, List.map_map]
    rfl
  have hrange : (List.range' 0 jobs.length).Nodup := List.nodup_range'
  rw [hkeys]
  refine hrange.map fun i j h => ?_
  have hnumber := Text.ofNat_injective (List.append_cancel_left h)
  omega

theorem keyed_jobs (jobs : List Job) : (keyed jobs).map Prod.snd = jobs := by
  rw [keyed, List.map_map]
  exact List.zipIdx_map_fst 0 jobs

/-- However often it has to be tried, a batch settles its jobs. -/
theorem settles_batch (asked : Bool) (next : Plan) (jobs : List Job) (attempts : Nat) :
    Settles asked jobs (batch next jobs attempts) next := by
  induction attempts with
  | zero => exact settles_each asked next jobs
  | succ attempts ih =>
    obtain ⟨entries, goOn, hbatch, hgoOn⟩ := exists_batch_succ next jobs attempts
    rw [hbatch]
    refine .ifCancelled ?_
    rintro said ⟨answer, hanswer, hsaid⟩
    rcases hgoOn answer hanswer with hagain | ⟨results, hresults, hreport⟩
    · rw [hagain] at hsaid
      exact ih said hsaid
    · have hperm := answered_append_missing_perm (nodup_keys_keyed jobs) hresults
      rw [keyed_jobs] at hperm
      rw [hreport] at hsaid
      exact (((settles_reportAll asked _ _ results).trans (settles_each asked next _)).perm hperm)
        said hsaid

end Batch

theorem settles_batches (asked : Bool) (next : Plan) (jobs : List (List Job)) :
    Settles asked jobs.flatten (batches next jobs) next := by
  induction jobs with
  | nil => exact .refl asked next
  | cons b bs ih =>
    rw [List.flatten_cons]
    rintro said (⟨rfl, hnext⟩ | hsaid)
    · exact ⟨[], said, rfl, .stopped _, hnext⟩
    · exact ((settles_batch asked _ b attempts).trans ih) said hsaid

/-- Runs of a list are its elements in order. -/
theorem flatten_runsOf {α : Type} {size : Nat} (hsize : size ≠ 0) (items : List α) :
    (runsOf size items).flatten = items := by
  fun_induction runsOf size items with
  | case1 items h =>
    rcases (Bool.or_eq_true _ _).mp h with h | h
    · rw [List.isEmpty_iff.mp h, List.flatten_nil]
    · exact absurd (of_decide_eq_true h) hsize
  | case2 items h ih => rw [List.flatten_cons, ih, List.take_append_drop]

/-! ## Whole plans -/

/-- A plan that settles its jobs and then finishes reports a complete account. -/
theorem Settles.completes {asked : Bool} {jobs : List Job} {plan : Plan}
    (h : Settles asked jobs plan finish) {said : List Signal} (hsaid : plan.Says asked said) :
    Completes asked jobs said := by
  obtain ⟨account, rest, rfl, haccount, _, rfl, rfl⟩ := h said hsaid
  exact ⟨account, rfl, haccount⟩

/-- Whatever plan the engine makes for jobs, its reports are a complete account of them. -/
theorem completes_plan (asked : Bool) (batchSize : Int) (jobs : List Job) {said : List Signal}
    (h : (if 1 < batchSize then ofBatches batchSize jobs else ofJobs jobs).Says asked said) :
    Completes asked jobs said := by
  split at h
  next hsize =>
    unfold ofBatches at h
    rw [if_neg (by omega), if_neg (by omega)] at h
    refine Settles.completes ?_ h
    have hsettles := settles_batches asked finish (runsOf batchSize.toNat jobs)
    rwa [flatten_runsOf (by omega)] at hsettles
  next => exact (settles_each asked finish jobs).completes h

end Plan

end GameText
