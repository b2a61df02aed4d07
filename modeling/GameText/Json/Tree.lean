import GameText.Json.Writer

/-!
# Documents as they are written

A JSON text is read into a tree that keeps every character: blanks, the spelling of numbers, the
escapes inside strings, and members whose key comes again. Its text is the text that was read; its
value forgets all that is only spelling. Because the tree keeps both, putting a new value in the
place of a string changes nothing else of the text.

A path may lead to several strings of one document when a key is repeated. The one that counts is
the last: later members hide earlier ones.
-/

namespace GameText

namespace Json

mutual

/-- A value as it is written. -/
inductive Node where
  /-- A number or one of the words that stand for themselves. -/
  | scalar (raw : Text) (value : Json)
  /-- A string token and the text it stands for. -/
  | string (raw : Text) (text : Text)
  /-- An array; the blanks are those of an empty one. -/
  | array (blanks : Text) (items : Elements)
  /-- An object; the blanks are those of an empty one. -/
  | object (blanks : Text) (members : Members)

/-- The elements of an array, each with the blanks on both sides. -/
inductive Elements where
  | nil
  | cons (before : Text) (node : Node) (after : Text) (rest : Elements)

/-- The members of an object, each with the blanks around its key and its value. -/
inductive Members where
  | nil
  | cons (before : Text) (rawKey : Text) (key : Text) (afterKey : Text) (beforeValue : Text)
      (node : Node) (after : Text) (rest : Members)

end

mutual

/-- The characters of a value. -/
def Node.text : Node → Text
  | .scalar raw _ => raw
  | .string raw _ => raw
  | .array blanks items => '[' :: blanks ++ items.text ++ [']']
  | .object blanks members => '\x7b' :: blanks ++ members.text ++ ['\x7d']

/-- The characters between the brackets of an array. -/
def Elements.text : Elements → Text
  | .nil => []
  | .cons before node after rest => before ++ node.text ++ after ++ rest.textAfter

/-- The characters of further elements, each after a comma. -/
def Elements.textAfter : Elements → Text
  | .nil => []
  | .cons before node after rest => ',' :: before ++ node.text ++ after ++ rest.textAfter

/-- The characters between the braces of an object. -/
def Members.text : Members → Text
  | .nil => []
  | .cons before rawKey _ afterKey beforeValue node after rest =>
    before ++ rawKey ++ afterKey ++ ':' :: beforeValue ++ node.text ++ after ++ rest.textAfter

/-- The characters of further members, each after a comma. -/
def Members.textAfter : Members → Text
  | .nil => []
  | .cons before rawKey _ afterKey beforeValue node after rest =>
    ',' :: before ++ rawKey ++ afterKey ++ ':' :: beforeValue ++ node.text ++ after ++
      rest.textAfter

end

mutual

/-- The value that is written. -/
def Node.value : Node → Json
  | .scalar _ value => value
  | .string _ text => .str text
  | .array _ items => .arr items.values
  | .object _ members => .obj (members.values [])

/-- The elements of an array. -/
def Elements.values : Elements → List Json
  | .nil => []
  | .cons _ node _ rest => node.value :: rest.values

/-- The members of an object after those so far; a repeated key keeps its first place and takes
the later value. -/
def Members.values (soFar : List (Text × Json)) : Members → List (Text × Json)
  | .nil => soFar
  | .cons _ _ key _ _ node _ rest => rest.values (assign key node.value soFar)

end

mutual

/-- Where the string at the end of a path stands, as offsets from the beginning of the value. Of
several strings at one path the last counts. -/
def Node.locate (path : Path) : Node → Option (Nat × Nat)
  | .scalar _ _ => none
  | .string raw _ => if path.isEmpty then some (0, raw.length) else none
  | .array blanks items =>
    match path with
    | .index i :: path => if i < 0 then none else items.locate path i.toNat (1 + blanks.length)
    | _ => none
  | .object blanks members =>
    match path with
    | .key k :: path => members.locate k path (1 + blanks.length)
    | _ => none

/-- Where the string at a path below the element `index` stands, for elements that begin at
`offset`. -/
def Elements.locate (path : Path) (index offset : Nat) : Elements → Option (Nat × Nat)
  | .nil => none
  | .cons before node after rest =>
    let start := offset + before.length
    match index with
    | 0 => (node.locate path).map fun (a, b) => (start + a, start + b)
    | n + 1 => rest.locate path n (start + node.text.length + after.length + 1)

/-- Where the string at a path below the members with the key `key` stands, for members that begin
at `offset`. -/
def Members.locate (key : Text) (path : Path) (offset : Nat) : Members → Option (Nat × Nat)
  | .nil => none
  | .cons before rawKey k afterKey beforeValue node after rest =>
    let start :=
      offset + before.length + rawKey.length + afterKey.length + 1 + beforeValue.length
    match rest.locate key path (start + node.text.length + after.length + 1) with
    | some span => some span
    | none =>
      if k = key then (node.locate path).map fun (a, b) => (start + a, start + b) else none

end

/-- New values for the strings at some of the paths of a document. -/
abbrev Changes := Path → Option Json

/-- A value in the form in which it is written anew. -/
def Node.ofValue : Json → Node
  | .str text => .string (quote text) text
  | v => .scalar v.compact v

/-- The changes below one step of a path. -/
def Changes.below (changes : Changes) (s : Step) : Changes := fun path => changes (s :: path)

/-- The changes below a key, less those that a later member with the same key hides. -/
def Changes.notHidden (changes : Changes) (key : Text) (later : Members) : Changes := fun path =>
  if (later.locate key path 0).isSome then none else changes (.key key :: path)

mutual

/-- Puts new values in the place of strings. -/
def Node.splice (changes : Changes) : Node → Node
  | .scalar raw value => .scalar raw value
  | .string raw text =>
    match changes [] with
    | some new => .ofValue new
    | none => .string raw text
  | .array blanks items => .array blanks (items.splice changes 0)
  | .object blanks members => .object blanks (members.splice changes)

/-- Puts new values into the elements from `index` on. -/
def Elements.splice (changes : Changes) (index : Nat) : Elements → Elements
  | .nil => .nil
  | .cons before node after rest =>
    .cons before (node.splice (changes.below (.index index))) after
      (rest.splice changes (index + 1))

/-- Puts new values into the members. -/
def Members.splice (changes : Changes) : Members → Members
  | .nil => .nil
  | .cons before rawKey key afterKey beforeValue node after rest =>
    .cons before rawKey key afterKey beforeValue (node.splice (changes.notHidden key rest)) after
      (rest.splice changes)

end

/-- A whole JSON text: its value and the blanks on both sides. -/
structure Document where
  before : Text
  root : Node
  after : Text

namespace Document

/-- The characters of a document. -/
def text (d : Document) : Text := d.before ++ d.root.text ++ d.after

/-- The value of a document. -/
def value (d : Document) : Json := d.root.value

/-- Where the string at the end of a path stands, as offsets in the text. -/
def locate (d : Document) (path : Path) : Option (Nat × Nat) :=
  (d.root.locate path).map fun (a, b) => (d.before.length + a, d.before.length + b)

/-- Puts new values in the place of strings. -/
def splice (d : Document) (changes : Changes) : Document :=
  { d with root := d.root.splice changes }

end Document

end Json

end GameText
