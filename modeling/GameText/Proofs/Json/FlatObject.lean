import GameText.Proofs.Json.Surroundings

/-!
# Objects of strings

An object whose members are all strings consists of strings and of what stands between them: blanks,
colons and commas. A brace inside it stands in a string. From there on the two change places, since
the quotation marks that close its strings open those of whatever is read from the brace, and every
other quotation mark has a backslash before it. So an object that is read from a part of it has no
keys but such as are made of blanks, colons and commas (`IsFlatObject.part`). `Within` says where in
such an object a text begins; the induction is over the tree of what is read from there.
-/

namespace GameText

namespace Json

/-! ## Objects of strings -/

/-- Every member is a string. -/
def Members.Flat : Members → Prop
  | .nil => True
  | .cons _ _ _ _ _ node _ rest => (∃ raw text, node = .string raw text) ∧ rest.Flat

/-- The text is an object whose members are all strings. -/
def IsFlatObject (source : Text) (members : List (Text × Json)) : Prop :=
  ∃ before blanks rows after, Document.read source = .ok ⟨before, .object blanks rows, after⟩ ∧
    rows.Flat ∧ rows.values [] = members

/-- What stands between the strings of such an object. -/
def isSeparator (c : Char) : Bool := isSpace c || c == ',' || c == ':'

theorem IsFlatObject.read {source : Text} {members : List (Text × Json)}
    (h : IsFlatObject source members) : read source = .ok (.obj members) := by
  obtain ⟨before, blanks, rows, after, hread, -, rfl⟩ := h
  rw [Json.read, hread]
  rfl

theorem IsFlatObject.exists_braces {source : Text} {members : List (Text × Json)}
    (h : IsFlatObject source members) : ∃ before mid after, IsBlank before ∧ IsBlank after ∧
      source = before ++ '\x7b' :: (mid ++ '\x7d' :: after) := by
  obtain ⟨before, blanks, rows, after, hreadable, -, hsource⟩ := exists_object_of_read h.read
  exact ⟨before, blanks ++ rows.text, after, hreadable.before, hreadable.after, hsource⟩

/-- An object of one string, as it is written. -/
theorem isFlatObject_pair (key text : Text) :
    IsFlatObject ('\x7b' :: (quote key ++ ':' :: ' ' :: (quote text ++ ['\x7d']))) [(key, .str text)] := by
  let rows : Members := .cons [] (quote key) key [] [' '] (.string (quote text) text) [] .nil
  have hspace : IsBlank [' '] := List.forall_mem_singleton.mpr rfl
  have hrows : rows.Readable :=
    ⟨isBlank_nil, isStringToken_quote key, isBlank_nil, hspace, isStringToken_quote text, isBlank_nil, trivial⟩
  have hread := Document.Readable.read (d := ⟨[], .object [] rows, []⟩)
    ⟨isBlank_nil, ⟨isBlank_nil, .inr rfl, hrows⟩, isBlank_nil⟩
  refine ⟨[], [], rows, [], ?_, ⟨⟨_, _, rfl⟩, trivial⟩, rfl⟩
  rw [← hread]
  simp [Document.text, Node.text, Members.text, Members.textAfter, rows]

/-- The text goes on from inside a string, and behind the string with strings between which only
separators stand. Behind the last one no string begins and no object. -/
inductive Within : Text → Prop
  | last {w t after : Text} (string : Inside w t) (unquoted : '"' ∉ after)
      (closed : '\x7b' ∉ after) : Within (w ++ after)
  | next {w t gap rest : Text} (string : Inside w t) (separated : ∀ c ∈ gap, isSeparator c = true)
      (tail : Within rest) : Within (w ++ (gap ++ '"' :: rest))

theorem isSeparator_of_isBlank {s : Text} (h : IsBlank s) : ∀ c ∈ s, isSeparator c = true := by
  intro c hc
  rw [isSeparator, h c hc, Bool.true_or, Bool.true_or]

/-- After the first quotation mark of an object of strings the text goes on within one. -/
theorem Members.Readable.within {after : Text} (hquote : '"' ∉ after) (hbrace : '\x7b' ∉ after) :
    ∀ {rows : Members}, rows.Readable → rows.Flat → rows ≠ .nil →
      ∃ gap rest, rows.text ++ after = gap ++ '"' :: rest ∧
        (∀ c ∈ gap, isSeparator c = true) ∧ Within rest
  | .cons before rawKey key afterKey beforeValue node behind rows, h, hflat, _ => by
    obtain ⟨hbefore, ⟨writtenKey, rfl, hkey⟩, hafterKey, hbeforeValue, hnode, hbehind, hrows⟩ := h
    obtain ⟨⟨raw, text, rfl⟩, hflat⟩ := hflat
    obtain ⟨written, rfl, hvalue⟩ := hnode
    have hcolon : ∀ c ∈ afterKey ++ ':' :: beforeValue, isSeparator c = true := by
      simp only [List.forall_mem_append, List.forall_mem_cons]
      exact ⟨isSeparator_of_isBlank hafterKey, rfl, isSeparator_of_isBlank hbeforeValue⟩
    have hrest : Within (written ++ (behind ++ (rows.textAfter ++ after))) := by
      cases hrows? : rows with
      | nil =>
        refine .last hvalue ?_ ?_
        · exact List.not_mem_append (not_mem_of_isBlank hbehind rfl) hquote
        · exact List.not_mem_append (not_mem_of_isBlank hbehind rfl) hbrace
      | cons =>
        have hne : rows ≠ .nil := by rw [hrows?]; nofun
        obtain ⟨gap, rest, htext, hgap, hwithin⟩ :=
          Members.Readable.within hquote hbrace hrows hflat hne
        have hgaps : behind ++ (rows.textAfter ++ after) = (behind ++ ',' :: gap) ++ '"' :: rest := by
          rw [Members.textAfter_eq hne, List.cons_append, htext]
          simp
        rw [← hrows?, hgaps]
        refine .next hvalue ?_ hwithin
        simp only [List.forall_mem_append, List.forall_mem_cons]
        exact ⟨isSeparator_of_isBlank hbehind, rfl, hgap⟩
    refine ⟨before, _, ?_, isSeparator_of_isBlank hbefore, .next hkey hcolon hrest⟩
    simp [Members.text, Node.text]

/-! ## Other objects inside the strings -/

theorem brace_not_mem_of_hexCode? {a b c d : Char} {n : Nat} (h : hexCode? a b c d = some n) :
    '\x7b' ∉ ['\\', 'u', a, b, c, d] := by
  intro hmem
  have hdigit := isSome_hexValue?_of_hexCode? h '\x7b'
  simp only [List.mem_cons] at hmem hdigit
  rcases hmem with hslash | hu | hmem
  · exact absurd hslash (by decide)
  · exact absurd hu (by decide)
  · exact absurd (hdigit hmem) (by decide)

/-- A brace stands for itself in a string. -/
theorem Inside.from_brace {w t x y : Text} (h : Inside w t) (hw : w = x ++ '\x7b' :: y) :
    ∃ t', Inside ('\x7b' :: y) t' := by
  induction h generalizing x with
  | close =>
    have hmem : '\x7b' ∈ ['"'] := hw ▸ List.mem_append_right x List.mem_cons_self
    exact absurd hmem (by decide)
  | @plain c w t quote backslash control tail ih =>
    cases x with
    | nil =>
      obtain ⟨rfl, rfl⟩ := List.cons.inj hw
      exact ⟨_, .plain quote backslash control tail⟩
    | cons d x => exact ih (List.cons.inj hw).2
  | @short c value w t code escape tail ih =>
    have hbrace : '\x7b' ∉ ['\\', c] := by
      intro hmem
      simp only [List.mem_cons, List.not_mem_nil, or_false] at hmem
      rcases hmem with hslash | rfl
      · exact absurd hslash (by decide)
      · cases escape
    obtain ⟨x', -, hw'⟩ := Text.exists_of_append_eq_append_cons hbrace hw
    exact ih hw'
  | @code a b c d n w t digits single tail ih =>
    obtain ⟨x', -, hw'⟩ :=
      Text.exists_of_append_eq_append_cons (brace_not_mem_of_hexCode? digits) hw
    exact ih hw'
  | @pair a b c d a' b' c' d' high low w t first isHigh second isLow tail ih =>
    have hbrace := List.not_mem_append (brace_not_mem_of_hexCode? first)
      (brace_not_mem_of_hexCode? second)
    obtain ⟨x', -, hw'⟩ := Text.exists_of_append_eq_append_cons hbrace hw
    exact ih hw'

theorem brace_not_mem_of_separated {gap : Text} (h : ∀ c ∈ gap, isSeparator c = true) :
    '\x7b' ∉ gap ++ ['"'] := by
  refine List.not_mem_append (fun hmem => ?_) (by decide)
  exact absurd (h _ hmem) (by decide)

/-- A brace inside an object of strings stands within one. -/
theorem Within.from_brace {s x y : Text} (h : Within s) (hs : s = x ++ '\x7b' :: y) :
    Within ('\x7b' :: y) := by
  induction h generalizing x with
  | last string unquoted closed =>
    rcases Text.append_eq_append_cons hs with ⟨y', hw, rfl⟩ | ⟨x', -, rfl⟩
    · obtain ⟨t', hinside⟩ := string.from_brace hw
      exact .last hinside unquoted closed
    · exact absurd (List.mem_append_right x' List.mem_cons_self) closed
  | @next w t gap rest string separated tail ih =>
    rcases Text.append_eq_append_cons hs with ⟨y', hw, rfl⟩ | ⟨x', -, hgap⟩
    · obtain ⟨t', hinside⟩ := string.from_brace hw
      exact .next hinside separated tail
    · rw [← List.singleton_append, ← List.append_assoc] at hgap
      obtain ⟨x'', -, hrest⟩ :=
        Text.exists_of_append_eq_append_cons (brace_not_mem_of_separated separated) hgap
      exact ih hrest

/-- A character that is neither a quotation mark nor a backslash leaves the string open. -/
theorem Within.skip {c : Char} {s : Text} (h : Within (c :: s)) (hquote : c ≠ '"')
    (hslash : c ≠ '\\') : Within s := by
  generalize hcs : c :: s = cs at h
  have htail : ∀ {w t after : Text}, Inside w t → c :: s = w ++ after →
      ∃ w' t', Inside w' t' ∧ s = w' ++ after := by
    intro w t after string heq
    cases string with
    | close => exact absurd (List.cons.inj heq).1 hquote
    | plain _ _ _ tail => exact ⟨_, _, tail, (List.cons.inj heq).2⟩
    | short | code | pair => exact absurd (List.cons.inj heq).1 hslash
  cases h with
  | last string unquoted closed =>
    obtain ⟨w', t', string', rfl⟩ := htail string hcs
    exact .last string' unquoted closed
  | next string separated tail =>
    obtain ⟨w', t', string', rfl⟩ := htail string hcs
    exact .next string' separated tail

theorem Within.skip_append {x s : Text} (hplain : ∀ c ∈ x, c ≠ '"' ∧ c ≠ '\\')
    (h : Within (x ++ s)) : Within s := by
  induction x with
  | nil => exact h
  | cons c x ih =>
    obtain ⟨hc, hx⟩ := List.forall_mem_cons.mp hplain
    exact ih hx (h.skip hc.1 hc.2)

/-- A string that begins where only separators stand before the next quotation mark ends with it. -/
theorem Inside.eq_of_separated {w t gap s rest : Text} (h : Inside w t)
    (separated : ∀ c ∈ gap, isSeparator c = true) (heq : w ++ s = gap ++ '"' :: rest) :
    t = gap ∧ s = rest := by
  induction h generalizing gap with
  | close =>
    cases gap with
    | nil => exact ⟨rfl, (List.cons.inj heq).2⟩
    | cons d gap =>
      have hd := separated d List.mem_cons_self
      rw [← (List.cons.inj heq).1] at hd
      cases hd
  | plain quote _ _ _ ih =>
    cases gap with
    | nil => exact absurd (List.cons.inj heq).1 quote
    | cons d gap =>
      obtain ⟨rfl, htail⟩ := List.cons.inj heq
      obtain ⟨rfl, hrest⟩ := ih (List.forall_mem_cons.mp separated).2 htail
      exact ⟨rfl, hrest⟩
  | short | code | pair =>
    cases gap with
    | nil => exact absurd (List.cons.inj heq).1 (by decide)
    | cons d gap =>
      have hd := separated d List.mem_cons_self
      rw [← (List.cons.inj heq).1] at hd
      cases hd

theorem Inside.quote_mem {w t : Text} (h : Inside w t) : '"' ∈ w := by
  induction h with
  | close => exact List.mem_cons_self
  | plain _ _ _ _ ih => exact List.mem_cons_of_mem _ ih
  | short _ _ _ ih => exact List.mem_append_right ['\\', _] ih
  | code _ _ _ ih => exact List.mem_append_right ['\\', 'u', _, _, _, _] ih
  | pair _ _ _ _ _ ih =>
    exact List.mem_append_right ['\\', 'u', _, _, _, _, '\\', 'u', _, _, _, _] ih

/-- **A string that begins within another** is what stands between that and the next one. -/
theorem Within.token {raw text s : Text} (htoken : IsStringToken raw text)
    (h : Within (raw ++ s)) : Within s ∧ ∀ c ∈ text, isSeparator c = true := by
  obtain ⟨written, rfl, hinside⟩ := htoken
  generalize hcs : '"' :: written ++ s = cs at h
  have hopen : ∀ {w t after : Text}, Inside w t → '"' :: written ++ s = w ++ after →
      written ++ s = after := by
    intro w t after string heq
    cases string with
    | close => exact (List.cons.inj heq).2
    | plain quote => exact absurd (List.cons.inj heq).1.symm quote
    | short | code | pair => exact absurd (List.cons.inj heq).1 (by decide)
  cases h with
  | last string unquoted closed =>
    rw [← hopen string hcs] at unquoted
    exact absurd (List.mem_append_left s hinside.quote_mem) unquoted
  | next string separated tail =>
    obtain ⟨rfl, rfl⟩ := hinside.eq_of_separated separated (hopen string hcs)
    exact ⟨tail, separated⟩

theorem plain_of_isBlank {s : Text} (h : IsBlank s) : ∀ c ∈ s, c ≠ '"' ∧ c ≠ '\\' := by
  intro c hc
  constructor
  · rintro rfl
    exact not_mem_of_isBlank h rfl hc
  · rintro rfl
    exact not_mem_of_isBlank h rfl hc

theorem plain_of_isScalarChar {s : Text} (h : ∀ c ∈ s, isScalarChar c = true) :
    ∀ c ∈ s, c ≠ '"' ∧ c ≠ '\\' := by
  intro c hc
  constructor
  · rintro rfl
    cases h _ hc
  · rintro rfl
    cases h _ hc

theorem Elements.plain_comma (items : Elements) : ∀ c ∈ items.comma, c ≠ '"' ∧ c ≠ '\\' := by
  cases items <;> simp [Elements.comma]

theorem Members.plain_comma (members : Members) : ∀ c ∈ members.comma, c ≠ '"' ∧ c ≠ '\\' := by
  cases members <;> simp [Members.comma]

/-- The keys of members. -/
def Members.keys : Members → List Text
  | .nil => []
  | .cons _ _ key _ _ _ _ rest => key :: rest.keys

mutual

/-- A value that begins within a string ends within one. -/
theorem Node.Readable.within_of_within : ∀ {node : Node} {s : Text}, node.Readable →
    Within (node.text ++ s) → Within s
  | .scalar _ _, _, h, hwithin => hwithin.skip_append (plain_of_isScalarChar (Scalar.isScalarChar h))
  | .string _ _, _, h, hwithin => (Within.token h hwithin).1
  | .array blanks items, s, ⟨hblanks, _, hitems⟩, hwithin => by
    have hinside : Within (blanks ++ (items.text ++ ']' :: s)) := by
      refine Within.skip (c := '[') ?_ (by decide) (by decide)
      simpa [Node.text] using hwithin
    exact (Elements.Readable.within_of_within hitems
      (hinside.skip_append (plain_of_isBlank hblanks))).skip (by decide) (by decide)
  | .object blanks members, s, ⟨hblanks, _, hmembers⟩, hwithin => by
    have hinside : Within (blanks ++ (members.text ++ '\x7d' :: s)) := by
      refine Within.skip (c := '\x7b') ?_ (by decide) (by decide)
      simpa [Node.text] using hwithin
    exact (Members.Readable.within_of_within hmembers
      (hinside.skip_append (plain_of_isBlank hblanks))).1.skip (by decide) (by decide)

theorem Elements.Readable.within_of_within : ∀ {items : Elements} {s : Text}, items.Readable →
    Within (items.text ++ s) → Within s
  | .nil, _, _, hwithin => hwithin
  | .cons before node after rest, s, ⟨hbefore, hnode, hafter, hrest⟩, hwithin => by
    have hbehind : Within (after ++ (rest.textAfter ++ s)) := by
      refine Node.Readable.within_of_within hnode
        (Within.skip_append (plain_of_isBlank hbefore) ?_)
      simpa [Elements.text] using hwithin
    rw [Elements.textAfter_eq_comma, List.append_assoc] at hbehind
    exact Elements.Readable.within_of_within hrest
      ((hbehind.skip_append (plain_of_isBlank hafter)).skip_append (Elements.plain_comma rest))

/-- The keys of an object that begins within a string are what stands between strings. -/
theorem Members.Readable.within_of_within : ∀ {members : Members} {s : Text}, members.Readable →
    Within (members.text ++ s) →
      Within s ∧ ∀ key ∈ members.keys, ∀ c ∈ key, isSeparator c = true
  | .nil, _, _, hwithin => ⟨hwithin, nofun⟩
  | .cons before rawKey key afterKey beforeValue node after rest, s,
      ⟨hbefore, hkey, hafterKey, hbeforeValue, hnode, hafter, hrest⟩, hwithin => by
    have hstart : Within (rawKey ++
        (afterKey ++ ':' :: (beforeValue ++ (node.text ++ (after ++ (rest.textAfter ++ s)))))) := by
      refine Within.skip_append (plain_of_isBlank hbefore) ?_
      simpa [Members.text] using hwithin
    obtain ⟨hcolon, hseparated⟩ := Within.token hkey hstart
    have hvalue := (hcolon.skip_append (plain_of_isBlank hafterKey)).skip (by decide) (by decide)
    have hbehind := Node.Readable.within_of_within hnode
      (hvalue.skip_append (plain_of_isBlank hbeforeValue))
    rw [Members.textAfter_eq_comma, List.append_assoc] at hbehind
    obtain ⟨hend, hkeys⟩ := Members.Readable.within_of_within hrest
      ((hbehind.skip_append (plain_of_isBlank hafter)).skip_append (Members.plain_comma rest))
    exact ⟨hend, List.forall_mem_cons.mpr ⟨hseparated, hkeys⟩⟩

end

theorem Members.mem_keys_of_lookup? {key : Text} {v : Json} : ∀ {rows : Members}
    {soFar : List (Text × Json)}, lookup? key (rows.values soFar) = some v →
      key ∈ rows.keys ∨ lookup? key soFar = some v
  | .nil, _, h => .inr h
  | .cons _ _ k _ _ node _ rest, soFar, h => by
    rw [Members.values] at h
    rcases Members.mem_keys_of_lookup? h with hrest | hsoFar
    · exact .inl (List.mem_cons_of_mem _ hrest)
    · rw [lookup?_assign] at hsoFar
      split at hsoFar
      next hkey => exact .inl (hkey ▸ List.mem_cons_self)
      next => exact .inr hsoFar

/-- Behind the first brace of an object of strings every brace stands within a string. -/
theorem Members.Readable.within_from_brace {rows : Members} (h : rows.Readable)
    (hflat : rows.Flat) {blanks after x y : Text} (hblanks : IsBlank blanks)
    (hafter : IsBlank after) (heq : blanks ++ (rows.text ++ '\x7d' :: after) = x ++ '\x7b' :: y) :
    Within ('\x7b' :: y) := by
  have hclosed : '\x7b' ∉ '\x7d' :: after :=
    List.not_mem_cons_of_ne_of_not_mem (by decide) (not_mem_of_isBlank hafter rfl)
  have hunquoted : '"' ∉ '\x7d' :: after :=
    List.not_mem_cons_of_ne_of_not_mem (by decide) (not_mem_of_isBlank hafter rfl)
  obtain ⟨x', -, hrows⟩ :=
    Text.exists_of_append_eq_append_cons (not_mem_of_isBlank hblanks rfl) heq
  by_cases hnil : rows = .nil
  · rw [hnil, Members.text, List.nil_append] at hrows
    exact absurd (hrows ▸ List.mem_append_right x' List.mem_cons_self) hclosed
  · obtain ⟨gap, rest, htext, hgap, hwithin⟩ :=
      Members.Readable.within hunquoted hclosed h hflat hnil
    rw [htext, ← List.singleton_append, ← List.append_assoc] at hrows
    obtain ⟨x'', -, hrest⟩ :=
      Text.exists_of_append_eq_append_cons (brace_not_mem_of_separated hgap) hrows
    exact hwithin.from_brace hrest

/-- **A part of an object of strings** that is read as an object itself is the whole, or has no keys
but such as are made of separators. -/
theorem IsFlatObject.part {front part back : Text} {members inner : List (Text × Json)}
    (h : IsFlatObject (front ++ '\x7b' :: (part ++ '\x7d' :: back)) members)
    (hpart : Json.read ('\x7b' :: (part ++ ['\x7d'])) = .ok (.obj inner)) :
    IsBlank front ∧ IsBlank back ∨
      ∀ key v, lookup? key inner = some v → ∀ c ∈ key, isSeparator c = true := by
  obtain ⟨before, blanks, rows, after, hread, hflat, -⟩ := h
  obtain ⟨hreadable, htext⟩ := Document.readable_of_read hread
  obtain ⟨blanks', rows', hreadable', rfl, rfl⟩ := exists_object_of_read_brace hpart
  have hsource : before ++ '\x7b' :: (blanks ++ (rows.text ++ '\x7d' :: after)) =
      front ++ '\x7b' :: (blanks' ++ rows'.text ++ '\x7d' :: back) := by
    rw [← htext]
    simp [Document.text, Node.text]
  obtain ⟨x, rfl, hbrace⟩ := Text.exists_of_append_eq_append_cons
    (not_mem_of_isBlank hreadable.before rfl) hsource
  cases x with
  | nil =>
    -- The part begins where the object begins.
    left
    have hback : after = back := hreadable.root.object_unique hreadable'
      (by simpa [Node.text] using (List.cons.inj hbrace).2)
    rw [List.append_nil]
    exact ⟨hreadable.before, hback ▸ hreadable.after⟩
  | cons c x =>
    -- Its brace is one inside a string, so what is read from there on is read within strings.
    right
    obtain ⟨hblanks, -, hrows⟩ := hreadable.root
    have hwithin : Within ('\x7b' :: (blanks' ++ rows'.text ++ '\x7d' :: back)) :=
      Members.Readable.within_from_brace hrows hflat hblanks hreadable.after (List.cons.inj hbrace).2
    obtain ⟨hblanks', -, hrows'⟩ := hreadable'
    have hinside := hwithin.skip (by decide) (by decide)
    rw [List.append_assoc] at hinside
    have hkeys := (Members.Readable.within_of_within hrows'
      (hinside.skip_append (plain_of_isBlank hblanks'))).2
    intro key v hlookup
    rcases Members.mem_keys_of_lookup? hlookup with hkey | hnone
    · exact hkeys key hkey
    · cases hnone

end Json

end GameText
