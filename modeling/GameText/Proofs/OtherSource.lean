import GameText.Document.Extraction
import GameText.Proofs.EventData.OtherDocument
import GameText.Proofs.Mapping
import GameText.Proofs.Script.OtherScript

/-!
# Addresses written back into another source

A source may have changed since its text units were taken out, or the addresses may be those of
another source altogether. Reinsertion does not fail for that, in any format. It passes over what
does not resolve, and what no address names stays as it is (`Format.LeftAlone`): the other lines of a
script, and in event data every value but the strings at addressed places. A script call has new
literals only where the recorded literals still stand.

Not established: that the texts which are written make sense where they land.
-/

namespace GameText

/-- The line that an address on a script names. -/
def Address.line? : Address → Option Int
  | .literal a => some a.line
  | .prose a => some a.line
  | .tagLine a => some a.line
  | _ => none

namespace Format

/-- The parser of a format accepts a source: event data must be JSON of a known shape, a script may be
any text. -/
def Accepts (source : Text) : Format → Prop
  | .eventData => ∃ shape document, EventData.read source = .ok (shape, document)
  | .other _ => False
  | _ => True

/-- What was written back into a source left alone everything that no address names. -/
def LeftAlone (source : Text) (mapping : List Address) (edits : Edits) (out : Text) : Format → Prop
  | .eventData => ∃ addresses shape before after, mapping = addresses.map .event ∧
      Json.read source = .ok before ∧ EventData.shape? before = some shape ∧
      Json.read out = .ok after ∧
      EventData.Overwritten shape (Edits.rows addresses edits) before after
  | .renpy | .tyrano | .kag => LinesKept source out (mapping.filterMap Address.line?)
  | .other _ => False

section Mapping

variable {α : Type} {make : α → Address}

/-- Addresses that are all of one kind are read as such. -/
theorem mapM_own (make : α → Address) (own? : Address → Option α)
    (h : ∀ a, own? (make a) = some a) (addresses : List α) :
    (addresses.map make).mapM own? = some addresses :=
  mapM_map_pure fun a _ => h a

/-- The addresses of units whose addresses are of one kind. -/
theorem map_snd_units (units : List (Text × α)) :
    (units.map fun (t, a) => ((t, make a) : TextUnit)).map (·.2) = (units.map (·.2)).map make := by
  rw [List.map_map, List.map_map]
  rfl

theorem extract_of_extractUnits {options : ExtractionOptions} {source : Text}
    {units : List TextUnit} (h : extractUnits options source .eventData = .ok units) :
    ∃ us, EventData.extract options.scriptCalls source = .ok us ∧
      us.map (fun (t, a) => ((t, .event a) : TextUnit)) = units := by
  rw [extractUnits] at h
  cases hunits : EventData.extract options.scriptCalls source with
  | error => rw [hunits] at h; cases h
  | ok us => rw [hunits] at h; exact ⟨us, rfl, Except.ok.inj h⟩

theorem filterMap_line {line : α → Int} (h : ∀ a, (make a).line? = some (line a))
    (units : List (Text × α)) :
    ((units.map (·.2)).map make).filterMap Address.line? = units.map fun u => line u.2 := by
  rw [List.map_map, List.filterMap_map]
  have hsome : (Address.line? ∘ make ∘ fun u : Text × α => u.2) = some ∘ fun u => line u.2 :=
    funext fun u => h u.2
  rw [hsome, List.filterMap_eq_map]

end Mapping

/-- A document that was read has the value of its source and is of the shape that was found. -/
theorem value_of_read {source : Text} {shape : EventData.Shape} {document : Json.Document}
    (h : EventData.read source = .ok (shape, document)) :
    Json.read source = .ok document.value ∧ EventData.shape? document.value = some shape := by
  unfold EventData.read at h
  split at h
  next => cases h
  next d hread =>
    split at h
    next s hshape =>
      cases h
      refine ⟨?_, hshape⟩
      rw [Json.read, hread]
      rfl
    next => cases h

/-- **Addresses of another source do no harm.** Whatever was extracted from one source, with whatever
edits, is written back into any source of the format that the parser accepts without a failure, and
everything that no address names is left alone. -/
theorem reinsert_elsewhere {format : Format} {options : ExtractionOptions} {first second : Text}
    {units : List TextUnit} (extracted : format.extractUnits options first = .ok units)
    (accepted : format.Accepts second) (edits : Edits) :
    ∃ out, format.reinsertTexts second (units.map (·.2)) edits = .ok out ∧
      format.LeftAlone second (units.map (·.2)) edits out := by
  cases format with
  | other => exact accepted.elim
  | eventData =>
    obtain ⟨shape, document, hread⟩ := accepted
    obtain ⟨eventUnits, hunits, rfl⟩ := extract_of_extractUnits extracted
    have carried := EventData.carried_rows hunits edits
    obtain ⟨out, hout, hvalue⟩ := EventData.reinsert_carried hread carried
    obtain ⟨hbefore, hshape⟩ := value_of_read hread
    rw [map_snd_units]
    refine ⟨out, ?_, eventUnits.map (·.2), shape, _, _, rfl, hbefore, hshape, hvalue,
      carried.overwritten shape _⟩
    rw [reinsertTexts, mapM_own .event Address.event? fun _ => rfl]
    exact hout
  | renpy =>
    cases extracted
    rw [map_snd_units]
    refine ⟨_, by rw [reinsertTexts, mapM_own .literal Address.literal? fun _ => rfl], ?_⟩
    rw [LeftAlone, filterMap_line fun _ => rfl]
    exact Renpy.reinsert_linesKept first second edits
  | tyrano =>
    cases extracted
    rw [map_snd_units]
    refine ⟨_, by rw [reinsertTexts, mapM_own .prose Address.prose? fun _ => rfl], ?_⟩
    rw [LeftAlone, filterMap_line fun _ => rfl]
    exact Tyrano.reinsert_linesKept first second edits
  | kag =>
    cases extracted
    rw [map_snd_units]
    refine ⟨_, by rw [reinsertTexts, mapM_own .tagLine Address.tagLine? fun _ => rfl], ?_⟩
    rw [LeftAlone, filterMap_line fun _ => rfl]
    exact Kag.reinsert_linesKept options.macroTexts first second edits

/-- Two labels, taken to event data where the first is a number by now. -/
theorem label_beside_number_written :
    let first := ("[\x7b\"list\":[\x7b\"code\":402,\"parameters\":[0,\"No\"]\x7d," ++
      "\x7b\"code\":402,\"parameters\":[1,\"Yes\"]\x7d]\x7d]").toList
    let second := ("[\x7b\"list\":[\x7b\"code\":402,\"parameters\":[0,7]\x7d," ++
      "\x7b\"code\":402,\"parameters\":[1,\"Maybe\"]\x7d]\x7d]").toList
    let expected := ("[\x7b\"list\":[\x7b\"code\":402,\"parameters\":[0,7]\x7d," ++
      "\x7b\"code\":402,\"parameters\":[1,\"Bob\"]\x7d]\x7d]").toList
    let edits : Edits := [some "Ann".toList, some "Bob".toList]
    ∃ units, eventData.extractUnits { scriptCalls := false } first = .ok units ∧
      units.map (·.1) = ["No".toList, "Yes".toList] ∧ eventData.Accepts second ∧
      eventData.reinsertTexts second (units.map (·.2)) edits = .ok expected ∧
      eventData.LeftAlone second (units.map (·.2)) edits expected := by
  intro first second expected edits
  have htexts : (eventData.extractUnits { scriptCalls := false } first).toOption.map (·.map (·.1)) =
      some ["No".toList, "Yes".toList] := by
    decide +kernel
  have hread : (EventData.read second).toOption.isSome = true := by decide +kernel
  have hwritten : ((eventData.extractUnits { scriptCalls := false } first).toOption.bind fun units =>
      (eventData.reinsertTexts second (units.map (·.2)) edits).toOption) = some expected := by
    decide +kernel
  have haccepts : eventData.Accepts second := by
    cases h : EventData.read second with
    | error cause =>
      rw [h] at hread
      cases hread
    | ok found => exact ⟨found.1, found.2, h⟩
  cases h : eventData.extractUnits { scriptCalls := false } first with
  | error cause =>
    rw [h] at htexts
    cases htexts
  | ok units =>
    obtain ⟨out, hout, halone⟩ := reinsert_elsewhere h haccepts edits
    rw [h] at htexts hwritten
    simp only [Except.toOption, Option.bind_some, hout, Option.some_inj] at hwritten
    rw [hwritten] at hout halone
    exact ⟨units, rfl, Option.some.inj htexts, haccepts, hout, halone⟩

end Format

end GameText
