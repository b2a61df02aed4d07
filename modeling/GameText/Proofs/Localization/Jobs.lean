import GameText.Proofs.Localization.PlanReports
import GameText.Proofs.Outcomes

/-!
# The jobs of a session

A job is for the unit of a document that it was made from, and a unit that is not there has none.
The jobs of a session are for different units, in the order of the documents
(`Session.jobs_sublist`).

Not established: that a unit without a job is blank or has a target text.
-/

namespace GameText

/-- A job is for a unit with a text, and names it. -/
theorem jobOf?_eq_some {document unit : Nat} {sources : List Json} {lines : Int} {source : Json}
    {job : Job} (h : jobOf? document sources lines unit source = .ok (some job)) :
    job.address = (↑document, ↑unit) ∧
      ∃ text : Text, source = .str text ∧ text.allBlank = false := by
  unfold jobOf? at h
  cases source with
  | str text =>
    by_cases hblank : text.allBlank = true
    · simp only [hblank, if_true] at h
      cases h
    · simp only [hblank] at h
      obtain ⟨context, -, h⟩ := bind_eq_ok h
      cases h
      exact ⟨rfl, text, rfl, Bool.eq_false_iff.mpr hblank⟩
  | _ => cases h

/-- The jobs for some units are for units among them, in their order. -/
theorem sublist_of_outcomes {α : Type} {f : α → Except Misfit (Option Job)}
    (address : α → Int × Int) (hf : ∀ x job, f x = .ok (some job) → job.address = address x)
    {xs : List α} {outcomes : List (Option Job)}
    (h : List.Forall₂ (fun x outcome => f x = .ok outcome) xs outcomes) :
    ((outcomes.filterMap id).map Job.address).Sublist (xs.map address) := by
  induction h with
  | nil => exact .slnil
  | @cons x outcome xs outcomes hx _ ih =>
    cases outcome with
    | none => exact ih.cons _
    | some job =>
      have haddress : job.address = address x := hf x job hx
      rw [List.map_cons, ← haddress]
      exact ih.cons_cons job.address

namespace SessionDocument

/-- A unit with a text is there. -/
theorem lt_total_of_source {d : SessionDocument} {unit : Nat} {text : Text}
    (h : d.source unit = .str text) (hblank : text.allBlank = false) : unit < d.total := by
  by_contra hle
  have hout : d.sources[unit]? = none := List.getElem?_eq_none (Nat.le_of_not_lt hle)
  rw [source, List.getD_eq_getElem?_getD, hout] at h
  cases h
  cases hblank

end SessionDocument

namespace Session

/-- The units of documents that are numbered from `first` on. -/
def addressesFrom (first : Nat) (ds : List SessionDocument) : List (Int × Int) :=
  (ds.zipIdx first).flatMap fun (d, i) =>
    (List.range d.total).map fun unit : Nat => ((i : Int), (unit : Int))

theorem mem_addressesFrom {first : Nat} {ds : List SessionDocument} {a : Int × Int}
    (h : a ∈ addressesFrom first ds) : ∃ (k unit : Nat) (d : SessionDocument),
      a = (↑(first + k), ↑unit) ∧ ds[k]? = some d ∧ unit < d.total := by
  obtain ⟨⟨d, i⟩, hd, ha⟩ := List.mem_flatMap.mp h
  obtain ⟨unit, hunit, rfl⟩ := List.mem_map.mp ha
  have hle := List.le_snd_of_mem_zipIdx hd
  refine ⟨i - first, unit, d, ?_, ?_, List.mem_range.mp hunit⟩
  · rw [Nat.add_sub_cancel' hle]
  · exact List.mk_mem_zipIdx_iff_le_and_getElem?_sub.mp hd |>.2

/-- No unit stands there twice. -/
theorem nodup_addressesFrom (first : Nat) (ds : List SessionDocument) :
    (addressesFrom first ds).Nodup := by
  induction ds generalizing first with
  | nil => exact .nil
  | cons d ds ih =>
    have hown : ((List.range d.total).map fun unit : Nat =>
        ((first : Int), (unit : Int))).Nodup := by
      refine List.nodup_range.map fun i j h => ?_
      exact Int.ofNat_inj.mp (congrArg Prod.snd h)
    refine List.nodup_append.mpr ⟨hown, ih (first + 1), ?_⟩
    intro a ha b hb hsame
    obtain ⟨unit, -, rfl⟩ := List.mem_map.mp ha
    obtain ⟨k, unit', d', rfl, -, -⟩ := mem_addressesFrom hb
    have hdocument : (first : Int) = ↑(first + 1 + k) := congrArg Prod.fst hsame
    omega

theorem jobsOf_sublist {lines : Int} {document : Nat} {d : SessionDocument} {jobs : List Job}
    (h : jobsOf lines document d = .ok jobs) :
    (jobs.map Job.address).Sublist
      ((List.range d.total).map fun unit : Nat => ((document : Int), (unit : Int))) := by
  obtain ⟨outcomes, houtcomes, h⟩ := bind_eq_ok h
  cases h
  have hwaiting := sublist_of_outcomes
    (fun row : Json × Nat => ((document : Int), (row.2 : Int)))
    (fun row job hjob => (jobOf?_eq_some hjob).1) (mapM_eq_ok houtcomes)
  have hunits : d.sources.zipIdx.map (fun row : Json × Nat => ((document : Int), (row.2 : Int))) =
      (List.range d.total).map fun unit : Nat => ((document : Int), (unit : Int)) := by
    have hrange : d.sources.zipIdx.map Prod.snd = List.range d.total := by
      rw [List.zipIdx_map_snd, List.range_eq_range']
      rfl
    rw [← hrange, List.map_map]
    rfl
  rw [← hunits]
  exact hwaiting.trans (List.filter_sublist.map _)

/-- **The jobs of a session are for different units** of its documents, in order. -/
theorem jobs_sublist {s : Session} {lines : Int} {jobs : List Job} (h : s.jobs lines = .ok jobs) :
    (jobs.map Job.address).Sublist (addressesFrom 0 s.documents) := by
  obtain ⟨rows, hrows, hflat⟩ := bind_eq_ok h
  cases hflat
  have hall := mapM_eq_ok hrows
  unfold addressesFrom
  generalize s.documents.zipIdx = documents at hall ⊢
  clear h hrows
  induction hall with
  | nil => exact .slnil
  | cons hrow _ ih =>
    rw [List.flatten_cons, List.map_append, List.flatMap_cons]
    exact (jobsOf_sublist hrow).append ih

end Session

end GameText
