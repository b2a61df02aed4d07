import GameText.Proofs.Json.Entries

/-!
# The strings of a value

A leaf is a string at the end of a path, where indices count from zero and no step leads into a
string. `mapStrings f` is the value with every leaf replaced by what `f` makes of its path and its
text, and nothing else: `valueAt?_mapStrings` gives the value at every path. Two functions that
agree on the leaves give the same value (`mapStrings_congr`), and putting a text at the path of one
leaf is mapping with a function that was changed there (`modifyAt_mapStrings`). The last two need
that no object has a key twice, `WellKeyed`, which every value that was read has.
-/

namespace GameText

namespace Json

/-! ## Values at the end of a path -/

/-- The value that one step leads to, with indices from zero and none into a string. -/
def child? (v : Json) : Step → Option Json
  | .index i =>
    match v with
    | .arr items => if i < 0 then none else items[i.toNat]?
    | _ => none
  | .key k => v.get? k

/-- The value at the end of a path of such steps. -/
def valueAt? (v : Json) : Path → Option Json
  | [] => some v
  | s :: path => (v.child? s).bind (valueAt? · path)

/-- The leaf at the end of a path. -/
def stringAt? (v : Json) (path : Path) : Option Text := (v.valueAt? path).bind text?

theorem valueAt?_append (v : Json) (p q : Path) :
    v.valueAt? (p ++ q) = (v.valueAt? p).bind (valueAt? · q) := by
  induction p generalizing v with
  | nil => rfl
  | cons s p ih => simp [valueAt?, ih, Option.bind_assoc]

theorem stringAt?_cons (v : Json) (s : Step) (path : Path) :
    v.stringAt? (s :: path) = (v.child? s).bind (stringAt? · path) := by
  simp [stringAt?, valueAt?, Option.bind_assoc]

theorem stringAt?_eq_some_iff {v : Json} {path : Path} {text : Text} :
    v.stringAt? path = some text ↔ v.valueAt? path = some (.str text) := by
  rw [stringAt?, Option.bind_eq_some_iff]
  constructor
  · rintro ⟨w, hw, htext⟩
    cases w <;> cases htext
    exact hw
  · intro h
    exact ⟨_, h, rfl⟩

theorem index?_natCast {length k : Nat} (h : k < length) : index? length (k : Int) = some k := by
  simp [index?, h]

theorem step?_of_child? {v w : Json} {s : Step} (h : v.child? s = some w) : v.step? s = some w := by
  cases s with
  | key k => exact h
  | index i =>
    cases v with
    | arr items =>
      simp only [child?] at h
      split at h
      next => cases h
      next hi =>
        obtain ⟨k, rfl⟩ := Int.eq_ofNat_of_zero_le (Int.not_lt.mp hi)
        obtain ⟨hk, -⟩ := List.getElem?_eq_some_iff.mp h
        rw [Int.toNat_natCast] at hk h
        simp [step?, index?_natCast hk, h]
    | _ => cases h

/-- What a path of such steps leads to, it leads to. -/
theorem at?_of_valueAt? {v w : Json} {path : Path} (h : v.valueAt? path = some w) :
    v.at? path = some w := by
  induction path generalizing v with
  | nil => exact h
  | cons s path ih =>
    obtain ⟨u, hu, hw⟩ := Option.bind_eq_some_iff.mp h
    rw [at?, step?_of_child? hu]
    exact ih hw

/-! ## Mapping the strings -/

mutual

/-- The value with every leaf replaced by what `f` makes of its path and its text. -/
def mapStrings (f : Path → Text → Text) : Json → Json
  | .str s => .str (f [] s)
  | .arr items => .arr (mapItems f 0 items)
  | .obj members => .obj (mapMembers f members)
  | .null => .null
  | .bool b => .bool b
  | .num n => .num n

/-- The elements from the index `i` on with every leaf replaced. -/
def mapItems (f : Path → Text → Text) (i : Nat) : List Json → List Json
  | [] => []
  | v :: vs => v.mapStrings (fun path => f (.index i :: path)) :: mapItems f (i + 1) vs

/-- The members with every leaf replaced. -/
def mapMembers (f : Path → Text → Text) : List (Text × Json) → List (Text × Json)
  | [] => []
  | (k, v) :: rest => (k, v.mapStrings fun path => f (.key k :: path)) :: mapMembers f rest

end

variable (f : Path → Text → Text)

theorem length_mapItems (i : Nat) (items : List Json) :
    (mapItems f i items).length = items.length := by
  induction items generalizing i with
  | nil => rfl
  | cons v vs ih => simp [mapItems, ih]

theorem getElem?_mapItems (i k : Nat) (items : List Json) :
    (mapItems f i items)[k]? =
      (items[k]?).map (mapStrings fun path => f (.index ((i + k : Nat) : Int) :: path)) := by
  induction items generalizing i k with
  | nil => rfl
  | cons v vs ih =>
    cases k with
    | zero => rfl
    | succ k =>
      simp only [mapItems, List.getElem?_cons_succ, ih]
      rw [show i + 1 + k = i + (k + 1) by omega]

theorem lookup?_mapMembers (key : Text) (members : List (Text × Json)) :
    lookup? key (mapMembers f members) =
      (lookup? key members).map (mapStrings fun path => f (.key key :: path)) := by
  induction members with
  | nil => rfl
  | cons m rest ih =>
    obtain ⟨k, v⟩ := m
    simp only [mapMembers, lookup?]
    split
    next h => rw [h]; rfl
    next => exact ih

theorem child?_mapStrings (v : Json) (s : Step) :
    (v.mapStrings f).child? s = (v.child? s).map (mapStrings fun path => f (s :: path)) := by
  cases s with
  | key k =>
    cases v with
    | obj members => exact lookup?_mapMembers f k members
    | _ => rfl
  | index i =>
    cases v with
    | arr items =>
      simp only [mapStrings, child?]
      split
      next => rfl
      next hi =>
        obtain ⟨k, rfl⟩ := Int.eq_ofNat_of_zero_le (Int.not_lt.mp hi)
        rw [Int.toNat_natCast, getElem?_mapItems, Nat.zero_add]
    | _ => rfl

/-- **The value at every path of a value with mapped strings.** -/
theorem valueAt?_mapStrings (v : Json) (path : Path) :
    (v.mapStrings f).valueAt? path =
      (v.valueAt? path).map (mapStrings fun below => f (path ++ below)) := by
  induction path generalizing v f with
  | nil => rfl
  | cons s path ih =>
    simp only [valueAt?, child?_mapStrings]
    cases v.child? s with
    | none => rfl
    | some w => exact ih _ w

theorem stringAt?_mapStrings (v : Json) (path : Path) :
    (v.mapStrings f).stringAt? path = (v.stringAt? path).map (f path) := by
  rw [stringAt?, stringAt?, valueAt?_mapStrings]
  cases v.valueAt? path with
  | none => rfl
  | some w =>
    cases w with
    | str s => simp [mapStrings, text?]
    | _ => rfl

/-! ## Objects without a repeated key -/

/-- No object of the value has a key twice. -/
inductive WellKeyed : Json → Prop
  | null : WellKeyed .null
  | bool (b : Bool) : WellKeyed (.bool b)
  | num (n : Number) : WellKeyed (.num n)
  | str (s : Text) : WellKeyed (.str s)
  | arr {items : List Json} (below : ∀ v ∈ items, WellKeyed v) : WellKeyed (.arr items)
  | obj {members : List (Text × Json)} (keys : (members.map (·.1)).Nodup)
      (below : ∀ m ∈ members, WellKeyed m.2) : WellKeyed (.obj members)

theorem mapItems_congr {f g : Path → Text → Text} {i : Nat} {items : List Json}
    (h : ∀ (k : Nat) (v : Json), items[k]? = some v →
      v.mapStrings (fun path => f (.index ((i + k : Nat) : Int) :: path)) =
        v.mapStrings fun path => g (.index ((i + k : Nat) : Int) :: path)) :
    mapItems f i items = mapItems g i items := by
  refine List.ext_getElem? ?_
  intro k
  rw [getElem?_mapItems, getElem?_mapItems]
  cases hk : items[k]? with
  | none => rfl
  | some v => rw [Option.map_some, Option.map_some, h k v hk]

theorem mapMembers_congr {f g : Path → Text → Text} {members : List (Text × Json)}
    (h : ∀ m ∈ members, m.2.mapStrings (fun path => f (.key m.1 :: path)) =
      m.2.mapStrings fun path => g (.key m.1 :: path)) :
    mapMembers f members = mapMembers g members := by
  induction members with
  | nil => rfl
  | cons m rest ih =>
    obtain ⟨k, v⟩ := m
    rw [mapMembers, mapMembers, h (k, v) List.mem_cons_self,
      ih fun m hm => h m (List.mem_cons_of_mem _ hm)]

theorem WellKeyed.child {v w : Json} (keyed : v.WellKeyed) {s : Step} (h : v.child? s = some w) :
    w.WellKeyed := by
  cases keyed with
  | arr below =>
    cases s with
    | key k => cases h
    | index i =>
      simp only [child?] at h
      split at h
      next => cases h
      next => exact below w (List.mem_of_getElem? h)
  | obj _ below =>
    cases s with
    | index i => cases h
    | key k => exact below (k, w) (mem_of_lookup? h)
  | _ => cases s <;> cases h

/-- **Only what is done to the leaves counts.** -/
theorem mapStrings_congr {v : Json} (keyed : v.WellKeyed) {f g : Path → Text → Text}
    (h : ∀ path text, v.stringAt? path = some text → f path text = g path text) :
    v.mapStrings f = v.mapStrings g := by
  induction keyed generalizing f g with
  | null => rfl
  | bool b => rfl
  | num n => rfl
  | str s => rw [mapStrings, mapStrings, h [] s rfl]
  | @arr items below ih =>
    rw [mapStrings, mapStrings]
    refine congrArg Json.arr (mapItems_congr ?_)
    intro k v hk
    refine ih v (List.mem_of_getElem? hk) fun path text htext => h _ _ ?_
    have hpos : ¬ (k : Int) < 0 := by omega
    rw [stringAt?_cons, Nat.zero_add]
    simp [child?, hpos, hk, htext]
  | @obj members keys below ih =>
    rw [mapStrings, mapStrings]
    refine congrArg Json.obj (mapMembers_congr ?_)
    intro m hm
    refine ih m hm fun path text htext => h _ _ ?_
    rw [stringAt?_cons]
    simp [child?, get?, lookup?_of_mem keys hm, htext]

theorem mapStrings_self {v : Json} (keyed : v.WellKeyed) : v.mapStrings (fun _ text => text) = v := by
  induction keyed with
  | null => rfl
  | bool b => rfl
  | num n => rfl
  | str s => rfl
  | @arr items below ih =>
    refine congrArg Json.arr (List.ext_getElem? ?_)
    intro k
    rw [getElem?_mapItems]
    cases hk : items[k]? with
    | none => rfl
    | some v => exact congrArg some (ih v (List.mem_of_getElem? hk))
  | @obj members keys below ih =>
    refine congrArg Json.obj ?_
    clear keys below
    induction members with
    | nil => rfl
    | cons m rest ihRest =>
      obtain ⟨k, v⟩ := m
      rw [mapMembers, ih (k, v) List.mem_cons_self,
        ihRest fun m hm => ih m (List.mem_cons_of_mem _ hm)]

/-! ## Putting a text at a path -/

/-- The function with another outcome at one path. -/
def putText (f : Path → Text → Text) (path : Path) (text : Text) : Path → Text → Text :=
  fun p s => if p = path then text else f p s

theorem putText_cons (f : Path → Text → Text) (s : Step) (path : Path) (text : Text) :
    (fun p => putText f (s :: path) text (s :: p)) = putText (fun p => f (s :: p)) path text := by
  funext p old
  simp [putText]

theorem putText_cons_of_ne (f : Path → Text → Text) {s s' : Step} (h : s' ≠ s) (path : Path)
    (text : Text) : (fun p => putText f (s :: path) text (s' :: p)) = fun p => f (s' :: p) := by
  funext p old
  simp [putText, h]

theorem getElem?_modifyNth {α : Type} (g : α → α) (k j : Nat) (xs : List α) :
    (modifyNth g k xs)[j]? = if j = k then (xs[j]?).map g else xs[j]? := by
  induction xs generalizing k j with
  | nil => cases k <;> simp [modifyNth]
  | cons x xs ih =>
    cases k <;> cases j <;> simp [modifyNth, ih]

theorem modifyNth_mapItems {items : List Json} {k : Nat} {w : Json} (hk : items[k]? = some w)
    {path : Path} {f : Path → Text → Text} {text : Text} {g : Json → Json}
    (hg : g (w.mapStrings fun p => f (.index k :: p)) =
      w.mapStrings (putText (fun p => f (.index k :: p)) path text)) :
    modifyNth g k (mapItems f 0 items) = mapItems (putText f (.index k :: path) text) 0 items := by
  refine List.ext_getElem? ?_
  intro j
  rw [getElem?_modifyNth, getElem?_mapItems, getElem?_mapItems, Nat.zero_add]
  split
  next h =>
    rw [h, hk, putText_cons]
    exact congrArg some hg
  next h =>
    have hne : Step.index (j : Int) ≠ .index (k : Int) := by
      intro heq
      exact h (Int.ofNat.inj (Step.index.inj heq))
    rw [putText_cons_of_ne f hne]

theorem modifyKey_mapMembers {members : List (Text × Json)} (keys : (members.map (·.1)).Nodup)
    {key : Text} {w : Json} (hw : lookup? key members = some w) {path : Path}
    {f : Path → Text → Text} {text : Text} {g : Json → Json}
    (hg : g (w.mapStrings fun p => f (.key key :: p)) =
      w.mapStrings (putText (fun p => f (.key key :: p)) path text)) :
    modifyKey g key (mapMembers f members) = mapMembers (putText f (.key key :: path) text) members := by
  induction members with
  | nil => cases hw
  | cons m rest ih =>
    obtain ⟨k, v⟩ := m
    obtain ⟨hnew, hkeys⟩ := List.nodup_cons.mp keys
    have hother : ∀ {k' : Text}, k' ≠ key →
        (fun p => putText f (.key key :: path) text (.key k' :: p)) = fun p => f (.key k' :: p) :=
      fun hne => putText_cons_of_ne f (fun heq => hne (Step.key.inj heq)) path text
    simp only [mapMembers, modifyKey, lookup?] at hw ⊢
    split at hw
    next h =>
      cases hw
      subst h
      have hrest : mapMembers f rest = mapMembers (putText f (.key k :: path) text) rest :=
        mapMembers_congr fun m hm => by
          rw [hother fun heq => hnew (List.mem_map.mpr ⟨m, hm, heq⟩)]
      rw [if_pos rfl, hg, putText_cons, hrest]
    next h => rw [if_neg h, hother h, ih hkeys hw]

/-- **Putting a text at the path of a leaf** is mapping with the function changed there. -/
theorem modifyAt_mapStrings {v : Json} (keyed : v.WellKeyed) {path : Path} {old : Text}
    (h : v.stringAt? path = some old) (f : Path → Text → Text) (text : Text) :
    (v.mapStrings f).modifyAt (fun _ => .str text) path = v.mapStrings (putText f path text) := by
  induction path generalizing v f with
  | nil =>
    cases v <;> cases h
    rfl
  | cons s path ih =>
    rw [stringAt?_cons] at h
    obtain ⟨w, hw, hold⟩ := Option.bind_eq_some_iff.mp h
    have hbelow := ih (keyed.child hw) hold fun p => f (s :: p)
    cases keyed with
    | @arr items =>
      cases s with
      | key k => cases hw
      | index i =>
        simp only [child?] at hw
        split at hw
        next => cases hw
        next hi =>
          obtain ⟨k, rfl⟩ := Int.eq_ofNat_of_zero_le (Int.not_lt.mp hi)
          rw [Int.toNat_natCast] at hw
          obtain ⟨hk, -⟩ := List.getElem?_eq_some_iff.mp hw
          have hindex : index? (mapItems f 0 items).length (k : Int) = some k := by
            rw [length_mapItems]
            exact index?_natCast hk
          simp only [mapStrings, modifyAt, modifyStep, hindex]
          exact congrArg Json.arr (modifyNth_mapItems hw hbelow)
    | @obj members keys =>
      cases s with
      | index i => cases hw
      | key k => exact congrArg Json.obj (modifyKey_mapMembers keys hw hbelow)
    | _ => cases s <;> cases hw

end Json

end GameText
