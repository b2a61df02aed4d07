import GameText.Proofs.Desktop.Moves
import GameText.Proofs.Json.Leaves

/-!
# What moves preserve

Every document has one identity, and a target text for each unit, whatever is done in the window
(`Core.Leads.sound`). While a run is going on, the documents keep their places: texts are put into
them, and others are added behind them (`Core.Leads.grows`). A target text that the window hears
goes to its unit and changes nothing else (`report_done_core`).
-/

namespace GameText

/-! ## Documents under writes -/

theorem Write.length_put (x : Write) (ds : List SessionDocument) :
    (x.put ds).length = ds.length := List.length_modify ..

theorem Write.getElem?_put (x : Write) (ds : List SessionDocument) (k : Nat) :
    (x.put ds)[k]? = (ds[k]?).map fun d =>
      if x.document = k then d.setTarget x.unit (.str x.text) else d := List.getElem?_modify ..

/-- Writing changes target texts only. -/
theorem Write.map_put {α : Type} {f : SessionDocument → α}
    (hf : ∀ d unit target, f (d.setTarget unit target) = f d) (x : Write)
    (ds : List SessionDocument) : (x.put ds).map f = ds.map f := by
  refine List.ext_getElem? fun k => ?_
  rw [List.getElem?_map, List.getElem?_map, getElem?_put, Option.map_map]
  congr 1
  funext d
  show f (if x.document = k then _ else d) = f d
  split
  · exact hf ..
  · rfl

/-- More documents do not change what is written into the first ones. -/
theorem Write.put_append (x : Write) (ds added : List SessionDocument) :
    x.put ds <+: x.put (ds ++ added) := by
  rw [List.prefix_iff_getElem?]
  intro k hk
  have hlt : k < ds.length := by rwa [length_put] at hk
  rw [← List.getElem?_eq_getElem hk, getElem?_put, getElem?_put, List.getElem?_append_left hlt]

theorem map_putAll {α : Type} {f : SessionDocument → α}
    (hf : ∀ d unit target, f (d.setTarget unit target) = f d) (ws : List Write)
    (ds : List SessionDocument) : (putAll ws ds).map f = ds.map f := by
  induction ws generalizing ds with
  | nil => rfl
  | cons x ws ih => exact (ih (x.put ds)).trans (x.map_put hf ds)

theorem putAll_concat (ws : List Write) (x : Write) (ds : List SessionDocument) :
    putAll (ws ++ [x]) ds = x.put (putAll ws ds) := by
  rw [putAll, List.foldl_append]
  rfl

/-- What the window writes when it hears a report. -/
def Signal.writes : Signal → List Write
  | .done document unit text => [⟨document.toNat, unit.toNat, text⟩]
  | _ => []

namespace Window

namespace Core

/-! ## What moves preserve -/

/-- What holds of the core of a window at any time. -/
structure Sound (c : Core) : Prop where
  aligned : c.identities.length = c.documents.length
  distinct : c.identities.Nodup
  fresh : ∀ n ∈ c.identities, n < c.nextIdentity
  filled : ∀ d ∈ c.documents, d.Filled

theorem Sound.write {c : Core} (h : c.Sound) (x : Write) : (c.write x).Sound := by
  refine ⟨h.aligned.trans (x.length_put _).symm, h.distinct, h.fresh, ?_⟩
  intro d hd
  obtain ⟨k, hk⟩ := List.mem_iff_getElem?.mp hd
  have hput : ((x.put c.documents)[k]?) = some d := hk
  rw [Write.getElem?_put] at hput
  obtain ⟨d', hd', rfl⟩ := Option.map_eq_some_iff.mp hput
  have hfilled := h.filled d' (List.mem_of_getElem? hd')
  split
  · exact hfilled.setTarget _ _
  · exact hfilled

theorem Sound.adopt {c : Core} (h : c.Sound) {d : SessionDocument} (hd : d.Filled) :
    (c.adopt d).Sound := by
  refine ⟨?aligned, ?distinct, ?fresh, ?filled⟩
  case aligned => simp only [Core.adopt, List.length_append, h.aligned, List.length_singleton]
  case distinct =>
    refine List.nodup_append.mpr ⟨h.distinct, List.nodup_singleton _, ?_⟩
    intro n hn m hm hsame
    have hlt := h.fresh n hn
    rw [List.mem_singleton.mp hm] at hsame
    omega
  case fresh =>
    intro n hn
    rcases List.mem_append.mp hn with hn | hn
    · exact Nat.lt_succ_of_lt (h.fresh n hn)
    · rw [List.mem_singleton.mp hn]
      exact Nat.lt_succ_self _
  case filled =>
    intro d' hd'
    rcases List.mem_append.mp hd' with hd' | hd'
    · exact h.filled d' hd'
    · rw [List.mem_singleton.mp hd']
      exact hd

theorem Sound.close {c : Core} (h : c.Sound) (i : Nat) : (c.close i).Sound := by
  refine ⟨?_, h.distinct.sublist (List.eraseIdx_sublist ..), ?_, ?_⟩
  · simp only [Core.close, List.length_eraseIdx, h.aligned]
  · exact fun n hn => h.fresh n ((List.eraseIdx_sublist ..).subset hn)
  · exact fun d hd => h.filled d ((List.eraseIdx_sublist ..).subset hd)

/-- Whatever was open, documents that take its place get identities of their own. -/
theorem sound_install (c : Core) {ds : List SessionDocument} (hds : ∀ d ∈ ds, d.Filled) :
    (c.install ds).Sound := by
  refine ⟨List.length_range', List.nodup_range', ?_, hds⟩
  intro n hn
  obtain ⟨i, hi, rfl⟩ := List.mem_range'.mp hn
  show _ < _ + _
  omega

theorem Leads.sound {c c' : Core} {ws : List Write} (h : c.Leads ws c') (hc : c.Sound) :
    c'.Sound := by
  induction h with
  | refl => exact hc
  | write _ x ih => exact ih.write x
  | adopt _ hd ih => exact ih.adopt hd
  | cancel _ ih => exact ⟨ih.aligned, ih.distinct, ih.fresh, ih.filled⟩
  | close _ _ i ih => exact ih.close i
  | install _ _ hds _ => exact sound_install _ hds

theorem cancel_cancel (e : Engine) : e.cancel.cancel = e.cancel := by
  unfold Engine.cancel
  by_cases h : e.workers = 0
  · simp only [h, if_true]
  · simp only [h, if_false]

/-- The engine is asked to stop, or left alone. -/
theorem Leads.engine_eq {c c' : Core} {ws : List Write} (h : c.Leads ws c') :
    c'.engine = c.engine ∨ c'.engine = c.engine.cancel := by
  induction h with
  | refl => exact .inl rfl
  | cancel _ ih =>
    rcases ih with ih | ih
    · exact .inr (congrArg Engine.cancel ih)
    · exact .inr ((congrArg Engine.cancel ih).trans (cancel_cancel _))
  | write _ _ ih => exact ih
  | adopt _ _ ih => exact ih
  | close _ _ _ ih => exact ih
  | install _ _ _ ih => exact ih

theorem running_cancel (e : Engine) : e.cancel.running = e.running := by
  unfold Engine.cancel
  split <;> rfl

theorem Leads.running_eq {c c' : Core} {ws : List Write} (h : c.Leads ws c') :
    c'.engine.running = c.engine.running := by
  rcases h.engine_eq with heq | heq
  · rw [heq]
  · rw [heq, running_cancel]

theorem Leads.jobs_eq {c c' : Core} {ws : List Write} (h : c.Leads ws c') : c'.jobs = c.jobs := by
  induction h with
  | refl => rfl
  | _ => assumption

/-- **While a run is going on**, documents keep their places, and are written into or added. -/
theorem Leads.grows {c c' : Core} {ws : List Write} (h : c.Leads ws c')
    (hrunning : c.engine.running = true) :
    c.identities <+: c'.identities ∧ putAll ws c.documents <+: c'.documents := by
  induction h with
  | refl => exact ⟨List.prefix_rfl, List.prefix_rfl⟩
  | @write ws c' _ x ih =>
    refine ⟨ih.1, ?_⟩
    obtain ⟨added, hadded⟩ := ih.2
    rw [putAll_concat]
    show x.put (putAll ws c.documents) <+: x.put c'.documents
    rw [← hadded]
    exact x.put_append _ added
  | adopt _ _ ih =>
    exact ⟨ih.1.trans (List.prefix_append ..), ih.2.trans (List.prefix_append ..)⟩
  | cancel _ ih => exact ih
  | close h hidle => exact absurd (h.running_eq.trans hrunning) (by simp [hidle])
  | install h hidle => exact absurd (h.running_eq.trans hrunning) (by simp [hidle])

end Core

/-! ## What the window hears -/

/-- A text is put into a unit that is there. -/
theorem receive_documents {b : Workbench} {k unit : Nat} {d : SessionDocument}
    (hd : b.session.documents[k]? = some d) (hunit : unit < d.targets.length) (text : Text) :
    ∃ b', b.receive k unit text = .ok b' ∧
      b'.session.documents = Write.put ⟨k, unit, text⟩ b.session.documents := by
  have htranslate : (b.session.documents[k]?).bind (·.translate? unit (.str text)) =
      some (d.setTarget unit (.str text)) := by
    rw [hd, Option.bind_some, SessionDocument.translate?, Json.index?_natCast hunit]
    rfl
  rw [Write.put_eq_set hd]
  simp only [Workbench.receive, htranslate]
  split
  · exact ⟨_, rfl, rfl⟩
  · refine ⟨_, rfl, ?_⟩
    split
    · exact congrArg Session.documents (Workbench.refreshRow_session _ _)
    · exact congrArg Session.documents (Workbench.refreshRow_session _ _)

/-- A target text that is heard goes to its unit. -/
theorem receiveTarget_core {w : Window} {k unit : Nat} {d : SessionDocument}
    (hd : w.documents[k]? = some d) (hunit : unit < d.targets.length) (text : Text) :
    (receiveTarget k unit text w).2.core = w.core.write ⟨k, unit, text⟩ := by
  obtain ⟨b', hreceive, hdocuments⟩ := receive_documents (b := w.bench) hd hunit text
  have hinside : ¬((k : Int) < 0 ∨ (w.documents.length : Int) ≤ k) := by
    have hlt := (List.getElem?_eq_some_iff.mp hd).1
    omega
  simp only [receiveTarget, run_get, hinside, if_false, Int.toNat_natCast, hreceive]
  refine (bind_keeps (fun _ => keeps_change fun _ => by rfl) w).trans ?_
  rw [work_core, hdocuments]
  rfl

/-- What the engine makes of a report is all that hearing it changes, unless it is a target text. -/
theorem report_core {signal : Signal} (hsignal : signal.writes = []) (w : Window) :
    (report (pure ()) signal w).2.core =
      { w.core with engine := (w.engine.receive signal).1 } := by
  cases signal with
  | done k unit text => cases hsignal
  | processed preview => rfl
  | failed k unit message => rfl
  | finished =>
    simp only [report, run_get, run_change, Engine.receive]
    by_cases hlast : w.engine.workers ≤ w.engine.finished + 1
    · simp only [hlast, if_true]
      rfl
    · simp only [hlast, if_false]
      rfl

/-- **A target text that is heard goes to its unit**, and that is all it changes. -/
theorem report_done_core {w : Window} {k unit : Nat} {d : SessionDocument}
    (hd : w.documents[k]? = some d) (hunit : unit < d.targets.length) (text : Text) :
    (report (pure ()) (.done k unit text) w).2.core = w.core.write ⟨k, unit, text⟩ :=
  receiveTarget_core (w := { w with engine := w.engine }) hd hunit text

end Window

end GameText
