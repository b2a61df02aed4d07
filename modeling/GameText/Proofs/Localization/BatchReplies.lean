import GameText.Proofs.Localization.EmbeddedObjects
import GameText.Proofs.Text.Trim

/-!
# Batch replies inside other text

The value of a batch reply is looked for in the reply as it is, in the reply without its fences, and
in the first object inside it; the first of these that is JSON counts (`parseBatch_eq_ok_iff_gives`).

An object of strings that is read by itself is read with the same texts inside other text without
braces under conditions on all three (`parseBatch_surrounded_iff`). What is around it decides whether
the reply is JSON as a whole, and whether it is without its fences. The strings in the object decide
the rest: fences are taken out of them too, and their braces count as those of objects.

Not established: which surroundings, fences apart, make JSON of the reply as a whole. An array around
the object is such a one.
-/

namespace GameText

namespace Reply

/-! ## Fences -/

/-- The characters of fences. -/
def fenceMarks : Text := "```json".toList

theorem fence?_cuts : fence?.Cuts := by
  intro before s value rest h
  obtain ⟨rest', hticks, heq⟩ := Option.map_eq_some_iff.mp h
  obtain rfl := Text.after?_eq_some_iff.mp hticks
  obtain ⟨-, rfl⟩ := Prod.mk.inj heq
  cases hlanguage : Text.after? "json" rest' with
  | none => exact ⟨"```".toList, by decide, by rw [Option.getD_none]⟩
  | some rest =>
    obtain rfl := Text.after?_eq_some_iff.mp hlanguage
    exact ⟨"```".toList ++ "json".toList, by decide, by rw [List.append_assoc, Option.getD_some]⟩

theorem fence?_blind : fence?.Blind := fun _ _ _ => rfl

theorem fence?_spares {c : Char} (hc : c ∉ fenceMarks) : fence?.Spares c := by
  intro before s rest
  have hticks : c ∉ "```".toList := fun hmem => hc (List.mem_append_left "json".toList hmem)
  have hlanguage : c ∉ "json".toList := fun hmem => hc (List.mem_append_right "```".toList hmem)
  rw [fence?, Text.after?_append_cons hticks, fence?, Option.map_map, Option.map_map]
  refine Option.map_congr fun behind _ => ?_
  rw [Function.comp_apply, Function.comp_apply, Text.after?_append_cons hlanguage]
  cases Text.after? "json" behind <;> rfl

theorem without_fence_append_cons {c : Char} (hc : c ∉ fenceMarks) (s rest : Text) :
    (s ++ c :: rest).without fence? = s.without fence? ++ c :: rest.without fence? :=
  Text.without_append_cons (fence?_spares hc) fence?_cuts fence?_blind s rest

theorem not_mem_fenceMarks_of_isSpace {c : Char} (h : Json.isSpace c = true) : c ∉ fenceMarks := by
  intro hmem
  have hnone : fenceMarks.any Json.isSpace = false := by decide
  exact List.any_eq_false.mp hnone c hmem h

theorem without_fence_blanks_append {blanks : Text} (h : Json.IsBlank blanks) (s : Text) :
    (blanks ++ s).without fence? = blanks ++ s.without fence? := by
  induction blanks with
  | nil => rfl
  | cons c cs ih =>
    obtain ⟨hc, hcs⟩ := List.forall_mem_cons.mp h
    have hcons := without_fence_append_cons (not_mem_fenceMarks_of_isSpace hc) [] (cs ++ s)
    rw [ih hcs, Text.without_nil] at hcons
    exact hcons

theorem without_fence_append_blanks {blanks : Text} (h : Json.IsBlank blanks) (s : Text) :
    (s ++ blanks).without fence? = s.without fence? ++ blanks := by
  cases blanks with
  | nil => rw [List.append_nil, List.append_nil]
  | cons c cs =>
    obtain ⟨hc, hcs⟩ := List.forall_mem_cons.mp h
    have htail := without_fence_blanks_append hcs []
    rw [List.append_nil, Text.without_nil, List.append_nil] at htail
    rw [without_fence_append_cons (not_mem_fenceMarks_of_isSpace hc), htail]

/-- The text without its fences, where it holds an object between blanks. -/
theorem without_fence_around {front before mid after back : Text} (hbefore : Json.IsBlank before)
    (hafter : Json.IsBlank after) :
    (front ++ (before ++ '\x7b' :: (mid ++ '\x7d' :: after)) ++ back).without fence? =
      (front.without fence? ++ before) ++ '\x7b' :: (mid.without fence? ++
        '\x7d' :: (after ++ back.without fence?)) := by
  have hsplit : front ++ (before ++ '\x7b' :: (mid ++ '\x7d' :: after)) ++ back =
      (front ++ before) ++ '\x7b' :: (mid ++ '\x7d' :: (after ++ back)) := by simp
  rw [hsplit, without_fence_append_cons (by decide), without_fence_append_cons (by decide),
    without_fence_append_blanks hbefore, without_fence_blanks_append hafter]

theorem BraceFree.without {s : Text} (h : BraceFree s) : BraceFree (s.without fence?) :=
  fun c hc => h c (Text.mem_of_mem_without fence?_cuts hc)

/-! ## Fences and blanks -/

/-- A text of fences and blanks. -/
def OnlyFences (s : Text) : Prop := (s.without fence?).allBlank = true

theorem allBlank_of_isBlank {s : Text} (h : Json.IsBlank s) : s.allBlank = true :=
  List.all_eq_true.mpr fun c hc => Json.isBlank_of_isSpace (h c hc)

/-- What is left by trimming is JSON's blanks only if nothing is left. -/
theorem isBlank_trimStart_iff {s : Text} : Json.IsBlank s.trimStart ↔ s.allBlank = true := by
  constructor
  · intro h
    rw [← Text.trimStart_eq_nil_iff]
    cases hs : s.trimStart with
    | nil => rfl
    | cons c cs =>
      rw [hs] at h
      have hstops := Text.stops_dropWhile isBlank s
      rw [← Text.trimStart, hs, Text.stops_cons,
        Json.isBlank_of_isSpace (h c List.mem_cons_self)] at hstops
      cases hstops
  · intro h
    rw [Text.trimStart_eq_nil_iff.mpr h]
    exact Json.isBlank_nil

theorem isBlank_trimEnd_iff {s : Text} : Json.IsBlank s.trimEnd ↔ s.allBlank = true := by
  have hreverse := isBlank_trimStart_iff (s := s.reverse)
  rw [Text.allBlank, List.all_reverse] at hreverse
  rw [Text.allBlank, ← hreverse, Text.trimEnd, Json.IsBlank, Json.IsBlank, Text.trimStart]
  simp only [List.mem_reverse]

/-- **Without its fences a reply is an object** exactly if nothing but fences and blanks is around the
object and that is one without the fences in it. -/
theorem read_without_fences_iff {front before mid after back : Text}
    {members : List (Text × Json)} (hfront : BraceFree front) (hback : BraceFree back)
    (hbefore : Json.IsBlank before) (hafter : Json.IsBlank after) :
    Json.read ((front ++ (before ++ '\x7b' :: (mid ++ '\x7d' :: after)) ++ back).without fence?).trim =
        .ok (.obj members) ↔
      OnlyFences front ∧ OnlyFences back ∧
        Json.read ((before ++ '\x7b' :: (mid ++ '\x7d' :: after)).without fence?) =
          .ok (.obj members) := by
  have hinner : (before ++ '\x7b' :: (mid ++ '\x7d' :: after)).without fence? =
      before ++ '\x7b' :: (mid.without fence? ++ '\x7d' :: after) := by
    simpa [Text.without_nil] using @without_fence_around [] before mid after [] hbefore hafter
  have hleft : BraceFree (front.without fence? ++ before).trimStart := fun c hc =>
    hfront.without.append (braceFree_of_isBlank hbefore) c (List.dropWhile_subset _ hc)
  have hright : BraceFree (after ++ back.without fence?).trimEnd := fun c hc =>
    (braceFree_of_isBlank hafter).append hback.without c
      (List.mem_reverse.mp (List.dropWhile_subset _ (List.mem_reverse.mp hc)))
  rw [without_fence_around hbefore hafter, Text.trim_around rfl rfl,
    Json.read_around_iff hleft.open_not_mem hright.close_not_mem, hinner,
    Json.read_around_iff (braceFree_of_isBlank hbefore).open_not_mem
      (braceFree_of_isBlank hafter).close_not_mem,
    isBlank_trimStart_iff, isBlank_trimEnd_iff, Text.allBlank_append, Text.allBlank_append,
    allBlank_of_isBlank hbefore, allBlank_of_isBlank hafter, Bool.and_true, Bool.true_and,
    OnlyFences, OnlyFences]
  simp only [hbefore, hafter, true_and]

/-- No value begins with a blank. -/
theorem startsNode_of_isBlank {c : Char} (h : isBlank c = true) : Json.startsNode c = false := by
  have hcode : c.toNat ≤ 0x20 ∨ 0x85 ≤ c.toNat := by
    simp only [isBlank, Bool.or_eq_true, Bool.and_eq_true, decide_eq_true_eq, beq_iff_eq] at h
    omega
  have hdigit : c.isDigit = false := by
    have hzero : '0'.toNat = 0x30 := rfl
    have hnine : '9'.toNat = 0x39 := rfl
    rw [← Bool.not_eq_true, Char.isDigit_iff_toNat]
    omega
  have hmark : c ∉ "-ntfNI".toList ++ "\"[\x7b".toList := by
    intro hmem
    have hmarks : ("-ntfNI".toList ++ "\"[\x7b".toList).all
        (fun d => 0x20 < d.toNat && d.toNat < 0x85) = true := by decide
    have hrange := List.all_eq_true.mp hmarks c hmem
    simp only [Bool.and_eq_true, decide_eq_true_eq] at hrange
    omega
  rw [List.mem_append, not_or, ← List.contains_iff_mem, ← List.contains_iff_mem,
    Bool.not_eq_true, Bool.not_eq_true] at hmark
  rw [Json.startsNode, Json.startsScalar, hdigit, Bool.false_or, Bool.or_eq_false_iff]
  exact hmark

/-- Behind blanks of JSON, fences and blanks begin like no value. -/
theorem exists_of_onlyFences {s : Text} (h : OnlyFences s) (hblank : ¬ Json.IsBlank s) :
    ∃ blanks c cs, s = blanks ++ c :: cs ∧ Json.IsBlank blanks ∧ Json.isSpace c = false ∧
      Json.startsNode c = false ∧ c ≠ '\uFEFF' := by
  obtain ⟨blanks, rest, hspaces, hblanks, rfl⟩ := Json.exists_spaces s
  have hstops := Text.stops_dropWhile Json.isSpace (blanks ++ rest)
  rw [(Prod.mk.inj hspaces).2] at hstops
  cases rest with
  | nil => exact absurd (by rwa [List.append_nil]) hblank
  | cons c cs =>
    refine ⟨blanks, c, cs, rfl, hblanks, Text.stops_cons.mp hstops, ?_⟩
    rw [OnlyFences, without_fence_blanks_append hblanks, Text.allBlank_append,
      allBlank_of_isBlank hblanks, Bool.true_and] at h
    -- The first character that is no blank of JSON is a fence's, or a blank that JSON does not know.
    cases hfence : fence? none (c :: cs) with
    | some found =>
      obtain ⟨behind, hticks, -⟩ := Option.map_eq_some_iff.mp hfence
      obtain rfl := (List.cons.inj (Text.after?_eq_some_iff.mp hticks)).1
      decide
    | none =>
      rw [Text.without_cons fence?_blind hfence, Text.allBlank, List.all_cons,
        Bool.and_eq_true] at h
      refine ⟨startsNode_of_isBlank h.1, ?_⟩
      rintro rfl
      exact absurd h.1 (by decide)

/-! ## Where the value is looked for -/

/-- The texts found so far with that of one more key, if it has one. -/
def addText (members : List (Text × Json)) (found : List (Text × Text)) (key : Text) :
    List (Text × Text) :=
  match textOf? members key with
  | some text => assign key text found
  | none => found

/-- The texts of the keys among the members of an object. -/
def textsOf (members : List (Text × Json)) (keys : List Text) : List (Text × Text) :=
  keys.foldl (addText members) []

/-- The text is an object that gives the keys these texts. -/
def Gives (s : Text) (keys : List Text) (found : List (Text × Text)) : Prop :=
  ∃ members, Json.read s = .ok (.obj members) ∧ textsOf members keys = found

/-- The text is no JSON, and not for an integer that is too long. -/
def Unread (s : Text) : Prop :=
  ∃ refusal, Json.read s = .error refusal ∧ refusal.problem.hasPlace = true

instance : DecidablePred Unread := fun s =>
  match h : Json.read s with
  | .error refusal => decidable_of_iff (refusal.problem.hasPlace = true)
      ⟨fun hplace => ⟨refusal, h, hplace⟩, fun ⟨_, hread, hplace⟩ => by
        rw [h] at hread
        cases hread
        exact hplace⟩
  | .ok _ => .isFalse fun ⟨_, hread, _⟩ => by
      rw [h] at hread
      cases hread

theorem firstValue?_cons_eq_ok_iff {s : Text} {texts : List Text} {v : Json} :
    firstValue? (s :: texts) = .ok (some v) ↔
      Json.read s = .ok v ∨ Unread s ∧ firstValue? texts = .ok (some v) := by
  rw [firstValue?, Unread]
  cases hread : Json.read s with
  | ok value => simp
  | error refusal =>
    cases hplace : refusal.problem.hasPlace <;> simp [hplace]

theorem firstValue?_toList_eq_ok_iff {part? : Option Text} {v : Json} :
    firstValue? part?.toList = .ok (some v) ↔ ∃ part, part? = some part ∧ Json.read part = .ok v := by
  cases part? with
  | none => simp [firstValue?]
  | some part =>
    rw [Option.toList_some, firstValue?_cons_eq_ok_iff]
    simp [firstValue?]

theorem parseBatch_eq_ok_iff {raw : Text} {keys : List Text} {found : List (Text × Text)}
    (hfound : found ≠ []) :
    parseBatch raw keys = .ok found ↔
      ∃ members, firstValue? (candidates raw) = .ok (some (.obj members)) ∧
        textsOf members keys = found := by
  have hunfold : ∀ members, firstValue? (candidates raw) = .ok (some (.obj members)) →
      parseBatch raw keys = if (textsOf members keys).isEmpty then
        .error (.noKeys keys (members.map (·.1))) else .ok (textsOf members keys) := by
    intro members h
    rw [parseBatch, h]
    rfl
  constructor
  · intro h
    have hvalue : ∃ members, firstValue? (candidates raw) = .ok (some (.obj members)) := by
      rw [parseBatch] at h
      split at h
      next => cases h
      next members hfirst => exact ⟨members, hfirst⟩
      next => cases h
    obtain ⟨members, hfirst⟩ := hvalue
    rw [hunfold members hfirst] at h
    split at h
    next => cases h
    next => exact ⟨members, hfirst, Except.ok.inj h⟩
  · rintro ⟨members, hfirst, rfl⟩
    rw [hunfold members hfirst, if_neg]
    rwa [List.isEmpty_iff]

/-- **What a batch reply gives**: the reply itself is the object, or it is without its fences, or the
first object inside it. -/
theorem parseBatch_eq_ok_iff_gives {raw : Text} {keys : List Text} {found : List (Text × Text)}
    (hfound : found ≠ []) :
    parseBatch raw keys = .ok found ↔
      Gives raw keys found ∨ Unread raw ∧
        (Gives (raw.without fence?).trim keys found ∨ Unread (raw.without fence?).trim ∧
          ∃ part, embeddedObject? raw = some part ∧ Gives part keys found) := by
  rw [parseBatch_eq_ok_iff hfound]
  simp only [candidates, List.cons_append, List.nil_append, firstValue?_cons_eq_ok_iff,
    firstValue?_toList_eq_ok_iff, Gives]
  constructor
  · rintro ⟨members, hread | ⟨hunread, hread | ⟨hunread', part, hpart, hread⟩⟩, hfound'⟩
    · exact .inl ⟨members, hread, hfound'⟩
    · exact .inr ⟨hunread, .inl ⟨members, hread, hfound'⟩⟩
    · exact .inr ⟨hunread, .inr ⟨hunread', part, hpart, members, hread, hfound'⟩⟩
  · rintro (⟨members, hread, hfound'⟩ | ⟨hunread, ⟨members, hread, hfound'⟩ |
      ⟨hunread', part, hpart, members, hread, hfound'⟩⟩)
    · exact ⟨members, .inl hread, hfound'⟩
    · exact ⟨members, .inr ⟨hunread, .inl hread⟩, hfound'⟩
    · exact ⟨members, .inr ⟨hunread, .inr ⟨hunread', part, hpart, hread⟩⟩, hfound'⟩

theorem addText_eq_nil_iff {members : List (Text × Json)} {found : List (Text × Text)} {key : Text} :
    addText members found key = [] ↔ found = [] ∧ textOf? members key = none := by
  rw [addText]
  cases textOf? members key with
  | none => simp
  | some text =>
    have hne : assign key text found ≠ [] := by
      cases found with
      | nil => exact List.cons_ne_nil _ _
      | cons entry found =>
        rw [assign]
        split <;> exact List.cons_ne_nil _ _
    simp [hne]

theorem foldl_addText_eq_nil_iff {members : List (Text × Json)} {keys : List Text}
    {found : List (Text × Text)} :
    keys.foldl (addText members) found = [] ↔
      found = [] ∧ ∀ key ∈ keys, textOf? members key = none := by
  induction keys generalizing found with
  | nil => simp
  | cons key keys ih =>
    rw [List.foldl_cons, ih, addText_eq_nil_iff, List.forall_mem_cons, and_assoc]

/-- Texts are found if one of the keys has one. -/
theorem textsOf_ne_nil_iff {members : List (Text × Json)} {keys : List Text} :
    textsOf members keys ≠ [] ↔ ∃ key ∈ keys, ∃ text, textOf? members key = some text := by
  rw [Ne, textsOf, foldl_addText_eq_nil_iff]
  simp [Option.eq_none_iff_forall_ne_some]

theorem exists_lookup?_of_textOf? {members : List (Text × Json)} {key text : Text}
    (h : textOf? members key = some text) : ∃ v, lookup? key members = some v := by
  rw [textOf?] at h
  cases hlookup : lookup? key members with
  | none =>
    rw [hlookup] at h
    cases h
  | some v => exact ⟨v, rfl⟩

/-! ## Inside other text -/

section Surrounded

variable {front reply back : Text} {keys : List Text} {members : List (Text × Json)}

/-- With characters around it, none of them braces, an object is read only if they are blanks. -/
theorem gives_surrounded_iff (hfront : BraceFree front) (hback : BraceFree back)
    (hreply : Json.IsFlatObject reply members) :
    Gives (front ++ reply ++ back) keys (textsOf members keys) ↔
      Json.IsBlank front ∧ Json.IsBlank back := by
  constructor
  · rintro ⟨inner, hread, -⟩
    obtain ⟨before, mid, after, hbefore, hafter, rfl⟩ := hreply.exists_braces
    have hsplit : front ++ (before ++ '\x7b' :: (mid ++ '\x7d' :: after)) ++ back =
        (front ++ before) ++ '\x7b' :: (mid ++ '\x7d' :: (after ++ back)) := by simp
    rw [hsplit, Json.read_around_iff
      (hfront.append (braceFree_of_isBlank hbefore)).open_not_mem
      ((braceFree_of_isBlank hafter).append hback).close_not_mem] at hread
    exact ⟨fun c hc => hread.1 c (List.mem_append_left _ hc),
      fun c hc => hread.2.1 c (List.mem_append_right _ hc)⟩
  · rintro ⟨hblank, hblank'⟩
    exact ⟨members, Json.read_between_blanks hblank hblank' hreply.read, rfl⟩

/-- Without its fences a reply gives what the object in it gives without fences, if nothing but
fences and blanks is around that. -/
theorem gives_without_fences_iff (hfront : BraceFree front) (hback : BraceFree back)
    (hreply : Json.IsFlatObject reply members) (found : List (Text × Text)) :
    Gives ((front ++ reply ++ back).without fence?).trim keys found ↔
      OnlyFences front ∧ OnlyFences back ∧ Gives (reply.without fence?) keys found := by
  obtain ⟨before, mid, after, hbefore, hafter, rfl⟩ := hreply.exists_braces
  simp only [Gives, read_without_fences_iff hfront hback hbefore hafter, and_assoc,
    exists_and_left]

/-- The first object inside an object of strings is that object if its braces are in pairs, and else
has no keys but such as are made of separators. -/
theorem gives_embedded_iff (hreply : Json.IsFlatObject reply members)
    (hfound : textsOf members keys ≠ []) :
    (∃ part, embeddedObject? reply = some part ∧ Gives part keys (textsOf members keys)) ↔
      NestsOnce reply ∨ (∃ key ∈ keys, ∀ c ∈ key, Json.isSeparator c = true) ∧
        ∃ part, embeddedObject? reply = some part ∧ Gives part keys (textsOf members keys) := by
  constructor
  · rintro ⟨part, hpart, inner, hread, hinner⟩
    obtain ⟨before, body, after, rfl, hbody, rfl⟩ := exists_of_embeddedObject? hpart
    -- The part is the whole object, or what is read from a brace inside a string on.
    rcases hreply.part hread with ⟨hbefore, hafter⟩ | hseparated
    · left
      rw [nestsOnce_iff (braceFree_of_isBlank hbefore) (braceFree_of_isBlank hafter)]
      exact hbody
    · right
      rw [← hinner] at hfound
      obtain ⟨key, hkey, text, htext⟩ := textsOf_ne_nil_iff.mp hfound
      obtain ⟨v, hlookup⟩ := exists_lookup?_of_textOf? htext
      exact ⟨⟨key, hkey, hseparated key v hlookup⟩, _, hpart, inner, hread, hinner⟩
  · rintro (hnests | ⟨-, hpart⟩)
    · have hread := hreply.read
      obtain ⟨before, mid, after, hbefore, hafter, rfl⟩ := hreply.exists_braces
      have hbefore' := braceFree_of_isBlank hbefore
      have hafter' := braceFree_of_isBlank hafter
      rw [nestsOnce_iff hbefore' hafter'] at hnests
      rw [Json.read_around_iff hbefore'.open_not_mem hafter'.close_not_mem] at hread
      refine ⟨_, ?_, members, hread.2.2, rfl⟩
      rw [embeddedObject?_append_left hbefore', embeddedObject?_object hnests]
    · exact hpart

/-- With fences around it, an object is no JSON as a whole. -/
theorem unread_of_onlyFences (hreply : Json.IsFlatObject reply members) (hfront : OnlyFences front)
    (hblank : ¬ (Json.IsBlank front ∧ Json.IsBlank back)) : Unread (front ++ reply ++ back) := by
  by_cases hfrontBlank : Json.IsBlank front
  · obtain ⟨before, blanks, rows, after, hreadable, -, rfl⟩ := Json.exists_object_of_read hreply.read
    have hbehind : ¬ Json.IsBlank (after ++ back) := fun h =>
      hblank ⟨hfrontBlank, fun c hc => h c (List.mem_append_right after hc)⟩
    have hsplit : front ++ (before ++ '\x7b' :: (blanks ++ rows.text ++ '\x7d' :: after)) ++ back =
        (front ++ before) ++ ((Json.Node.object blanks rows).text ++ (after ++ back)) := by
      simp [Json.Node.text]
    rw [hsplit]
    exact ⟨_, Json.read_object_append (hfrontBlank.append hreadable.before) hreadable.root hbehind,
      rfl⟩
  · obtain ⟨blanks, c, cs, rfl, hblanks, hspace, hstarts, hmark⟩ :=
      exists_of_onlyFences hfront hfrontBlank
    rw [List.append_assoc, List.append_assoc, List.cons_append]
    exact ⟨_, Json.read_of_not_starts hblanks hspace hstarts hmark, rfl⟩

/-- **A batch reply inside other text without braces.** An object of strings that gives some key a
text is read with the same texts inside such a text exactly in three cases. Only blanks are around
it. Or only fences and blanks, and it gives the texts without the fences in it, too. Or the whole is
no JSON, with fences or without, and the braces in the strings are pairs; what else may be read from
a brace inside a string on has keys that are made of blanks, colons and commas. -/
theorem parseBatch_surrounded_iff (hfront : BraceFree front) (hback : BraceFree back)
    (hreply : Json.IsFlatObject reply members)
    (hkeys : ∃ key ∈ keys, ∃ text, textOf? members key = some text) :
    parseBatch reply keys = .ok (textsOf members keys) ∧
      (parseBatch (front ++ reply ++ back) keys = parseBatch reply keys ↔
        Json.IsBlank front ∧ Json.IsBlank back ∨
        OnlyFences front ∧ OnlyFences back ∧
          Gives (reply.without fence?) keys (textsOf members keys) ∨
        Unread (front ++ reply ++ back) ∧ Unread ((front ++ reply ++ back).without fence?).trim ∧
          (NestsOnce reply ∨
            (∃ key ∈ keys, ∀ c ∈ key, Json.isSeparator c = true) ∧
              ∃ part, embeddedObject? reply = some part ∧
                Gives part keys (textsOf members keys))) := by
  have hfound := textsOf_ne_nil_iff.mpr hkeys
  have hbare : parseBatch reply keys = .ok (textsOf members keys) :=
    (parseBatch_eq_ok_iff_gives hfound).mpr (.inl ⟨members, hreply.read, rfl⟩)
  have hembedded : embeddedObject? (front ++ reply ++ back) = embeddedObject? reply := by
    rw [embeddedObject?_append_right hback, embeddedObject?_append_left hfront]
  refine ⟨hbare, ?_⟩
  rw [hbare, parseBatch_eq_ok_iff_gives hfound, gives_surrounded_iff hfront hback hreply,
    gives_without_fences_iff hfront hback hreply, hembedded, ← gives_embedded_iff hreply hfound]
  constructor
  · rintro (hblank | ⟨hunread, hfenced | ⟨hunread', hpart⟩⟩)
    · exact .inl hblank
    · exact .inr (.inl hfenced)
    · exact .inr (.inr ⟨hunread, hunread', hpart⟩)
  · rintro (hblank | hfenced | ⟨hunread, hunread', hpart⟩)
    · exact .inl hblank
    · -- Fences around the object keep the whole from being read, unless there are none.
      by_cases hblank : Json.IsBlank front ∧ Json.IsBlank back
      · exact .inl hblank
      · exact .inr ⟨unread_of_onlyFences hreply hfenced.1 hblank, .inl hfenced⟩
    · exact .inr ⟨hunread, .inr ⟨hunread', hpart⟩⟩

end Surrounded

/-- A batch reply whose text has markup in braces. -/
def markedReply : Text := "\x7b\"1\": \"\x7bi\x7dHi\x7b/i\x7d\"\x7d".toList

/-- Its one member. -/
def markedMembers : List (Text × Json) := [("1".toList, .str "\x7bi\x7dHi\x7b/i\x7d".toList)]

/-- The words and the fence in front of it. -/
def wordsBefore : Text := "Sure:\n```json\n".toList

/-- The fence and the words behind it. -/
def wordsBehind : Text := "\n```\nDone.".toList

/-- Between words and fences, a reply with markup in braces is read as it is by itself. -/
theorem marked_reply_read :
    BraceFree wordsBefore ∧ BraceFree wordsBehind ∧ Json.IsFlatObject markedReply markedMembers ∧
      (∃ key ∈ ["1".toList], ∃ text, textOf? markedMembers key = some text) ∧
      parseBatch (wordsBefore ++ markedReply ++ wordsBehind) ["1".toList] =
        .ok [("1".toList, "\x7bi\x7dHi\x7b/i\x7d".toList)] := by
  have hfront : BraceFree wordsBefore := by decide +kernel
  have hback : BraceFree wordsBehind := by decide +kernel
  have hreply := Json.isFlatObject_pair "1".toList "\x7bi\x7dHi\x7b/i\x7d".toList
  have htext : '\x7b' :: (Json.quote "1".toList ++ ':' :: ' ' ::
      (Json.quote "\x7bi\x7dHi\x7b/i\x7d".toList ++ ['\x7d'])) = markedReply := by decide +kernel
  rw [htext] at hreply
  have hkeys : ∃ key ∈ ["1".toList], ∃ text, textOf? markedMembers key = some text :=
    ⟨_, List.mem_singleton_self _, _, rfl⟩
  obtain ⟨hbare, hsame⟩ := parseBatch_surrounded_iff hfront hback hreply hkeys
  have hwhole : Unread (wordsBefore ++ markedReply ++ wordsBehind) := by decide +kernel
  have hunfenced : Unread ((wordsBefore ++ markedReply ++ wordsBehind).without fence?).trim := by
    decide +kernel
  have hnests : NestsOnce markedReply := ⟨2, by decide +kernel⟩
  refine ⟨hfront, hback, hreply, hkeys, ?_⟩
  rw [hsame.mpr (.inr (.inr ⟨hwhole, hunfenced, .inl hnests⟩)), hbare]
  rfl

/-- A batch reply whose text has a brace alone. -/
def loneBraceReply : Text := "\x7b\"1\": \"a\x7db\"\x7d".toList

/-- A batch reply whose text has the mark of a fence. -/
def fenceMarkReply : Text := "\x7b\"1\": \"use ```\"\x7d".toList

/-- An object whose text has a brace alone is not found behind words, and one whose text has the mark
of a fence loses it in a fence. -/
theorem brace_in_text_lost :
    BraceFree "Here: ".toList ∧ (∃ members, Json.IsFlatObject loneBraceReply members) ∧
      parseBatch loneBraceReply ["1".toList] = .ok [("1".toList, "a\x7db".toList)] ∧
      parseBatch ("Here: ".toList ++ loneBraceReply ++ []) ["1".toList] =
        .error (.noObject ("Here: ".toList ++ loneBraceReply)) ∧
    BraceFree "```json\n".toList ∧ BraceFree "\n```".toList ∧
      (∃ members, Json.IsFlatObject fenceMarkReply members) ∧
      parseBatch fenceMarkReply ["1".toList] = .ok [("1".toList, "use ```".toList)] ∧
      parseBatch ("```json\n".toList ++ fenceMarkReply ++ "\n```".toList) ["1".toList] =
        .ok [("1".toList, "use".toList)] := by
  have hbrace : '\x7b' :: (Json.quote "1".toList ++ ':' :: ' ' ::
      (Json.quote "a\x7db".toList ++ ['\x7d'])) = loneBraceReply := by decide +kernel
  have hfence : '\x7b' :: (Json.quote "1".toList ++ ':' :: ' ' ::
      (Json.quote "use ```".toList ++ ['\x7d'])) = fenceMarkReply := by decide +kernel
  refine ⟨by decide +kernel, ?_, by decide +kernel, by decide +kernel, by decide +kernel,
    by decide +kernel, ?_, by decide +kernel, by decide +kernel⟩
  · exact ⟨_, hbrace ▸ Json.isFlatObject_pair _ _⟩
  · exact ⟨_, hfence ▸ Json.isFlatObject_pair _ _⟩

end Reply

end GameText
