import GameText.Proofs.Localization.PlanSteps
import Mathlib.Algebra.GroupWithZero.Nat

/-!
# A worker among others

`Worker.Sound` holds of every worker at any time: what it has said so far begins a complete account
of its jobs, whichever way its plan goes on; its plan comes to an end; and it heeds a request to
stop. What the engine has heard of it is a beginning of that account, so no unit is heard of twice,
and nothing is under way once its end is heard.
-/

namespace GameText

/-! ## Accounts heard in part -/

namespace Accounts

variable {asked : Bool} {jobs : List Job} {said : List Signal}

theorem addresses_subperm (h : Accounts asked jobs said) :
    (said.filterMap Signal.address?).Subperm (jobs.map Job.address) := by
  obtain ⟨settled, ⟨part, hpart, hsub⟩, -, haddress, -⟩ := h
  exact haddress.subperm.trans ⟨part.map Job.address, hpart.map _, hsub.map _⟩

theorem count_le (h : Accounts asked jobs said) : said.countP Signal.isCount ≤ jobs.length := by
  obtain ⟨settled, hsub, -, -, hcount, -⟩ := h
  exact hcount ▸ hsub.length_le

theorem addresses_perm (h : Accounts false jobs said) :
    (said.filterMap Signal.address?).Perm (jobs.map Job.address) := by
  obtain ⟨settled, -, hall, haddress, -⟩ := h
  exact haddress.trans ((hall rfl).map _)

theorem count_eq (h : Accounts false jobs said) : said.countP Signal.isCount = jobs.length := by
  obtain ⟨settled, -, hall, -, hcount, -⟩ := h
  exact hcount.trans (hall rfl).length_eq

end Accounts

namespace Completes

variable {asked : Bool} {jobs : List Job} {said rest : List Signal}

/-- The end is not among reports that others follow. -/
theorem finished_not_mem (h : Completes asked jobs (said ++ rest)) (hrest : rest ≠ []) :
    .finished ∉ said := by
  obtain ⟨account, heq, -, -, -, -, -, hfinished⟩ := h
  obtain ⟨before, last, rfl⟩ := List.eq_nil_or_concat' rest |>.resolve_left hrest
  rw [← List.append_assoc] at heq
  have hsaid : said ++ before = account := (List.append_inj' heq rfl).1
  exact fun hmem => hfinished (hsaid ▸ List.mem_append_left _ hmem)

theorem count_finished (h : Completes asked jobs said) : said.count .finished = 1 := by
  obtain ⟨account, rfl, -, -, -, -, -, hfinished⟩ := h
  rw [List.count_append, List.count_eq_zero_of_not_mem hfinished]
  rfl

/-- The end changes neither results nor counts. -/
theorem exists_account (h : Completes asked jobs said) :
    ∃ account, Accounts asked jobs account ∧
      said.filterMap Signal.address? = account.filterMap Signal.address? ∧
      said.countP Signal.isCount = account.countP Signal.isCount := by
  obtain ⟨account, rfl, haccount⟩ := h
  refine ⟨account, haccount, ?_, ?_⟩
  · rw [List.filterMap_append]
    exact List.append_nil _
  · rw [List.countP_append]
    rfl

end Completes

namespace Worker

/-! ## Sound workers -/

/-- What holds of a worker at any time. -/
structure Sound (w : Worker) : Prop where
  /-- What it says in the end is a complete account, whether it may be asked to stop or not. -/
  completes : ∀ mayBe said, (w.asked = true → mayBe = true) → w.plan.Says mayBe said →
    Completes mayBe w.jobs (w.said ++ said)
  within : ∃ n, w.plan.Within n
  heeding : w.plan.Heeding

theorem Sound.step {w w' : Worker} {act : Act} (h : w.Sound) (hstep : w.Step act w') :
    w'.Sound := by
  cases hstep with
  | asked =>
    refine ⟨fun mayBe said hasked => h.completes mayBe said fun _ => hasked rfl, h.within, ?_⟩
    exact h.heeding
  | works hstep =>
    refine ⟨fun mayBe said hasked hsaid => ?_, ?_, hstep.heeding h.heeding⟩
    · have hcompletes := h.completes mayBe _ hasked (hstep.said_before hasked hsaid)
      have hsaid : w.said ++ (act.said ++ said) = w.heard ++ (w.underway ++ act.said) ++ said := by
        simp only [Worker.said, List.append_assoc]
      rwa [hsaid] at hcompletes
    · obtain ⟨n, hn⟩ := h.within
      obtain ⟨m, -, hm⟩ := hstep.within hn
      exact ⟨m, hm⟩
  | @heard signal rest hunderway =>
    have hsaid : w.heard ++ [signal] ++ rest = w.said := by
      rw [Worker.said, hunderway, List.append_assoc]
      rfl
    refine ⟨fun mayBe said hasked hgoes => ?_, h.within, h.heeding⟩
    have hcompletes := h.completes mayBe said hasked hgoes
    rwa [← hsaid] at hcompletes

/-- What is heard of a worker begins a complete account. -/
theorem Sound.exists_rest {w : Worker} (h : w.Sound) :
    ∃ rest, Completes true w.jobs (w.heard ++ (w.underway ++ rest)) := by
  obtain ⟨n, hn⟩ := h.within
  obtain ⟨rest, hrest⟩ := hn.exists_said true
  refine ⟨rest, ?_⟩
  have hcompletes := h.completes true rest (fun _ => rfl) hrest
  rwa [Worker.said, List.append_assoc] at hcompletes

/-- While something is under way the end is not heard. -/
theorem Sound.finished_not_mem_heard {w : Worker} (h : w.Sound) (hunderway : w.underway ≠ []) :
    .finished ∉ w.heard := by
  obtain ⟨rest, hrest⟩ := h.exists_rest
  exact hrest.finished_not_mem fun hnil => hunderway (List.append_eq_nil_iff.mp hnil).1

theorem Sound.count_finished_le {w : Worker} (h : w.Sound) : w.heard.count .finished ≤ 1 := by
  obtain ⟨rest, hrest⟩ := h.exists_rest
  have hcount := hrest.count_finished
  rw [List.count_append] at hcount
  omega

theorem Sound.addresses_subperm {w : Worker} (h : w.Sound) :
    (w.heard.filterMap Signal.address?).Subperm (w.jobs.map Job.address) := by
  obtain ⟨rest, hrest⟩ := h.exists_rest
  obtain ⟨account, haccount, haddress, -⟩ := hrest.exists_account
  refine List.Subperm.trans ?_ haccount.addresses_subperm
  rw [← haddress]
  exact ((List.sublist_append_left ..).filterMap _).subperm

theorem Sound.count_le {w : Worker} (h : w.Sound) :
    w.heard.countP Signal.isCount ≤ w.jobs.length := by
  obtain ⟨rest, hrest⟩ := h.exists_rest
  obtain ⟨account, haccount, -, hcount⟩ := hrest.exists_account
  refine Nat.le_trans ?_ haccount.count_le
  rw [← hcount]
  exact (List.sublist_append_left ..).countP_le

/-- When a worker has come to rest, a complete account of its jobs was heard. -/
theorem Sound.completes_heard {w : Worker} (h : w.Sound) (hplan : w.plan = .stop)
    (hunderway : w.underway = []) : Completes w.asked w.jobs w.heard := by
  have hcompletes := h.completes w.asked [] id (by rw [hplan]; rfl)
  rwa [Worker.said, hunderway, List.append_nil, List.append_nil] at hcompletes

/-- A worker that has not come to rest has a step. -/
theorem Sound.exists_step {w : Worker} (h : w.Sound) (hrest : ¬(w.plan = .stop ∧ w.underway = [])) :
    ∃ act w', act ≠ .asked ∧ w.Step act w' := by
  by_cases hplan : w.plan = .stop
  · obtain ⟨signal, rest, hunderway⟩ := List.exists_cons_of_ne_nil fun h => hrest ⟨hplan, h⟩
    exact ⟨.heard signal, _, nofun, .heard hunderway⟩
  · obtain ⟨n, hn⟩ := h.within
    obtain ⟨act, plan, hstep⟩ := hn.exists_step w.asked hplan
    exact ⟨act, _, hstep.ne_asked, .works hstep⟩

/-! ## Requests to stop -/

/-- A request to stop is not taken back. -/
theorem Step.asked_of_asked {w w' : Worker} {act : Act} (h : w.Step act w')
    (hasked : w.asked = true) : w'.asked = true := by
  cases h with
  | asked => rfl
  | works => exact hasked
  | heard => exact hasked

/-- Nobody but the run asks a worker to stop. -/
theorem Step.asked_eq {w w' : Worker} {act : Act} (h : w.Step act w') (hact : act ≠ .asked) :
    w'.asked = w.asked := by
  cases h with
  | asked => exact absurd rfl hact
  | works => rfl
  | heard => rfl

theorem Step.silent {w w' : Worker} {act : Act} (h : w.Step act w') (hasked : w.asked = true)
    (hsilent : w.plan.Silent) : act ≠ .calls ∧ w'.plan.Silent := by
  cases h with
  | asked => exact ⟨nofun, hsilent⟩
  | works hstep =>
    rw [hasked] at hstep
    exact hstep.silent hsilent
  | heard => exact ⟨nofun, hsilent⟩

theorem Step.heeding {w w' : Worker} {act : Act} (h : w.Step act w')
    (hheeding : w.plan.Heeding) : w'.plan.Heeding := by
  cases h with
  | asked => exact hheeding
  | works hstep => exact hstep.heeding hheeding
  | heard => exact hheeding

theorem Step.silent_of_heeding {w w' : Worker} {act : Act} (h : w.Step act w')
    (hasked : w.asked = true) (hheeding : w.plan.Heeding) (hact : act = .calls ∨ act = .looks) :
    w'.plan.Silent := by
  cases h with
  | asked => rcases hact with hact | hact <;> cases hact
  | works hstep =>
    rw [hasked] at hstep
    exact hstep.silent_of_heeding hheeding hact
  | heard => rcases hact with hact | hact <;> cases hact

/-! ## The acts that a worker still owes -/

/-- A worker acts a number of times at most, requests to stop apart: each step of its plan may make
a report, which is heard later. -/
def Owes (w : Worker) (n : Nat) : Prop :=
  ∃ steps, w.plan.Within steps ∧ 2 * steps + w.underway.length ≤ n

theorem length_said_le (act : Act) : act.said.length ≤ 1 := by
  cases act <;> simp [Act.said]

theorem Owes.step {w w' : Worker} {act : Act} {n : Nat} (h : w.Owes n) (hstep : w.Step act w') :
    ∃ m, w'.Owes m ∧ m + (if act = .asked then 0 else 1) ≤ n := by
  obtain ⟨steps, hsteps, hn⟩ := h
  cases hstep with
  | asked => exact ⟨n, ⟨steps, hsteps, hn⟩, Nat.le_refl n⟩
  | works hstep =>
    obtain ⟨fewer, hfewer, hwithin⟩ := hstep.within hsteps
    have hsaid := length_said_le act
    refine ⟨2 * fewer + (w.underway ++ act.said).length, ⟨fewer, hwithin, Nat.le_refl _⟩, ?_⟩
    rw [if_neg hstep.ne_asked, List.length_append]
    omega
  | @heard signal rest hunderway =>
    rw [hunderway, List.length_cons] at hn
    refine ⟨2 * steps + rest.length, ⟨steps, hsteps, Nat.le_refl _⟩, ?_⟩
    rw [if_neg nofun]
    omega

/-- Workers owe a number of acts together. -/
def Owe : List Worker → Nat → Prop
  | [], _ => True
  | w :: ws, n => ∃ i j, w.Owes i ∧ Owe ws j ∧ i + j ≤ n

theorem Owe.mono {workers : List Worker} {m n : Nat} (h : Owe workers m) (hmn : m ≤ n) :
    Owe workers n := by
  cases workers with
  | nil => trivial
  | cons w ws =>
    obtain ⟨i, j, hi, hj, hm⟩ := h
    exact ⟨i, j, hi, hj, Nat.le_trans hm hmn⟩

theorem Owe.replace {before after : List Worker} {w w' : Worker} {k n : Nat}
    (hw : ∀ i, w.Owes i → ∃ m, w'.Owes m ∧ m + k ≤ i) (h : Owe (before ++ w :: after) n) :
    ∃ m, Owe (before ++ w' :: after) m ∧ m + k ≤ n := by
  induction before generalizing n with
  | nil =>
    obtain ⟨i, j, hi, hj, hn⟩ := h
    obtain ⟨m, hm, hmi⟩ := hw i hi
    exact ⟨m + j, ⟨m, j, hm, hj, Nat.le_refl _⟩, by omega⟩
  | cons v before ih =>
    obtain ⟨i, j, hi, hj, hn⟩ := h
    obtain ⟨m, hm, hmj⟩ := ih hj
    exact ⟨i + m, ⟨i, m, hi, hm, Nat.le_refl _⟩, by omega⟩

/-! ## The workers of the engine -/

/-- A worker that the engine gives jobs. -/
def hire (batchSize : Int) (jobs : List Job) : Worker :=
  { jobs, plan := if 1 < batchSize then Plan.ofBatches batchSize jobs else Plan.ofJobs jobs }

theorem sound_hire (batchSize : Int) (jobs : List Job) : (hire batchSize jobs).Sound where
  completes mayBe _ _ hsaid := Plan.completes_plan mayBe batchSize jobs hsaid
  within := ⟨_, Plan.within_plan batchSize jobs⟩
  heeding := (Plan.looks_plan batchSize jobs).heeding

theorem owes_hire (batchSize : Int) (jobs : List Job) :
    (hire batchSize jobs).Owes (18 * jobs.length + 2) :=
  ⟨_, Plan.within_plan batchSize jobs, by simp only [hire, List.length_nil]; omega⟩

theorem owe_hire (batchSize : Int) (chunks : List (List Job)) :
    Owe (chunks.map (hire batchSize)) (18 * chunks.flatten.length + 2 * chunks.length) := by
  induction chunks with
  | nil => trivial
  | cons chunk chunks ih =>
    refine ⟨_, _, owes_hire batchSize chunk, ih, ?_⟩
    rw [List.flatten_cons, List.length_append, List.length_cons]
    omega

end Worker

/-! ## Dealing out -/

namespace Engine

theorem flatten_cut {α : Type} (items : List α) (sizes : List Nat) :
    (cut items sizes).flatten = items.take sizes.sum := by
  induction sizes generalizing items with
  | nil => rfl
  | cons size sizes ih => rw [cut, List.flatten_cons, ih, List.sum_cons, List.take_add]

/-- The sizes of the runs, of which the first are longer by one. -/
theorem sum_sizes (size longer n : Nat) :
    ((List.range n).map fun i => size + if i < longer then 1 else 0).sum =
      n * size + min n longer := by
  induction n with
  | zero => simp
  | succ n ih =>
    rw [List.range_succ, List.map_append, List.sum_append, ih, Nat.add_mul]
    by_cases h : n < longer
    · simp only [List.map_cons, List.map_nil, List.sum_singleton, h, if_true]
      omega
    · simp only [List.map_cons, List.map_nil, List.sum_singleton, h, if_false]
      omega

/-- Every item is dealt out once and in order. -/
theorem flatten_chunks {α : Type} (items : List α) (n : Int) :
    (chunks items n).flatten = items := by
  unfold chunks
  split
  · exact List.append_nil items
  next hn =>
    have hpos : 0 < n.toNat := by omega
    rw [flatten_cut, sum_sizes, Nat.min_eq_right (Nat.le_of_lt (Nat.mod_lt _ hpos)), Nat.div_add_mod,
      List.take_length]

theorem length_cut {α : Type} (items : List α) (sizes : List Nat) :
    (cut items sizes).length = sizes.length := by
  induction sizes generalizing items with
  | nil => rfl
  | cons size sizes ih => rw [cut, List.length_cons, ih, List.length_cons]

/-- There are no more runs than items. -/
theorem length_chunks_le {α : Type} {items : List α} (hne : items ≠ []) (workers : Int) :
    (chunks items (min workers items.length)).length ≤ items.length := by
  have hpos := List.length_pos_of_ne_nil hne
  unfold chunks
  split
  · exact hpos
  · rw [length_cut, List.length_map, List.length_range]
    omega

end Engine

end GameText
