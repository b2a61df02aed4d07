import GameText.Number.Basic

/-!
# JSON values

A value of a JSON document. The members of an object keep their order, and each key stands once.
Places inside a document are paths of keys and indices.
-/

namespace GameText

/-- A JSON value. -/
inductive Json where
  | null
  | bool (b : Bool)
  | num (n : Number)
  | str (s : Text)
  | arr (items : List Json)
  | obj (members : List (Text × Json))

namespace Json

/-- An integer as a value. -/
def int (n : Int) : Json := .num (.int n)

/-- A natural number as a value. -/
def nat (n : Nat) : Json := .num (.int n)

/-- One step of a path: an index into an array, or a key of an object. -/
inductive Step where
  | index (i : Int)
  | key (k : Text)
deriving DecidableEq, Repr

/-- A place inside a document. -/
abbrev Path := List Step

end Json

/-- The value of a key in a row of entries with distinct keys. -/
def lookup? {α β : Type} [DecidableEq α] (key : α) : List (α × β) → Option β
  | [] => none
  | (k, v) :: rest => if k = key then some v else lookup? key rest

/-- Sets the value of a key: in its place if it is there, else at the end. -/
def assign {α β : Type} [DecidableEq α] (key : α) (value : β) : List (α × β) → List (α × β)
  | [] => [(key, value)]
  | (k, v) :: rest => if k = key then (k, value) :: rest else (k, v) :: assign key value rest

namespace Json

/-- The member of an object with a key. -/
def get? (key : Text) : Json → Option Json
  | .obj members => lookup? key members
  | _ => none

/-- What counts as present: everything but null, false, zero, and empty strings, arrays and
objects. -/
def truthy : Json → Bool
  | .null => false
  | .bool b => b
  | .num n => !n.isZero
  | .str s => !s.isEmpty
  | .arr items => !items.isEmpty
  | .obj members => !members.isEmpty

/-- The text of a string value. -/
def text? : Json → Option Text
  | .str s => some s
  | _ => none

/-- The value that one step leads to. An index counts from the end if negative, and leads to the
single character at its place in a string. -/
def step? (v : Json) : Step → Option Json
  | .index i =>
    match v with
    | .arr items => (index? items.length i).bind (items[·]?)
    | .str s => (index? s.length i).bind fun k => (s[k]?).map fun c => .str [c]
    | _ => none
  | .key k => v.get? k

/-- The value at the end of a path. -/
def at? (v : Json) : Path → Option Json
  | [] => some v
  | s :: path => (v.step? s).bind (at? · path)

/-- Changes the element of a list at a place. -/
def modifyNth {α : Type} (f : α → α) : Nat → List α → List α
  | _, [] => []
  | 0, x :: xs => f x :: xs
  | n + 1, x :: xs => x :: modifyNth f n xs

/-- Changes the value of a key in a row of entries. -/
def modifyKey (f : Json → Json) (key : Text) : List (Text × Json) → List (Text × Json)
  | [] => []
  | (k, v) :: rest => if k = key then (k, f v) :: rest else (k, v) :: modifyKey f key rest

/-- Changes the value that one step leads to; a step that leads nowhere changes nothing. -/
def modifyStep (f : Json → Json) (v : Json) : Step → Json
  | .index i =>
    match v with
    | .arr items =>
      match index? items.length i with
      | some k => .arr (modifyNth f k items)
      | none => v
    | _ => v
  | .key k =>
    match v with
    | .obj members => .obj (modifyKey f k members)
    | _ => v

/-- Changes the value at the end of a path; a path that leads nowhere changes nothing. -/
def modifyAt (f : Json → Json) : Path → Json → Json
  | [], v => f v
  | s :: path, v => v.modifyStep (modifyAt f path) s

end Json

end GameText
