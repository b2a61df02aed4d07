import GameText.ScriptCall.Literal
import GameText.Classify.Garbage
import GameText.Json.Reader

/-!
# Translatable values of a script call

Five detectors look at the literals of a call in a fixed precedence: backquoted templates, the
arguments of a plugin call, chains of literals joined by a plus sign, literals after a key, and
plain literals. What one detector has claimed, later ones leave alone. A value that comes again in
the same written form is one unit with several spans; in another form it is dropped.
-/

namespace GameText

namespace ScriptCall

/-- How a value is written in a call. -/
inductive Kind where
  | quoted
  | template
  | keyValue
  | concatenation
  | pluginArgument
  /-- A kind by a name that no detector gives. -/
  | other (name : Text)
deriving DecidableEq, Repr

namespace Kind

/-- The name of a kind. -/
def name : Kind → Text
  | .quoted => "quoted-string"
  | .template => "template-literal"
  | .keyValue => "key-value"
  | .concatenation => "concatenation"
  | .pluginArgument => "plugin-argument"
  | .other name => name

/-- The kind with a name. -/
def ofName (name : Text) : Kind :=
  if name = "quoted-string".toList then .quoted
  else if name = "template-literal".toList then .template
  else if name = "key-value".toList then .keyValue
  else if name = "concatenation".toList then .concatenation
  else if name = "plugin-argument".toList then .pluginArgument
  else .other name

end Kind

/-- A row of characters of a call, from one offset up to another. -/
structure Span where
  start : Nat
  stop : Nat
deriving DecidableEq, Repr

/-- Two spans have a character in common. -/
def Span.overlaps (a b : Span) : Bool := a.start < b.stop && b.start < a.stop

/-- A translatable value: the text offered to the translator, the written form that each of its
spans holds, its kind and its quote. -/
structure CallUnit where
  text : Text
  written : Text
  kind : Kind
  quote : Char
  spans : List Span
deriving DecidableEq, Repr

/-- The characters of a span. -/
def Span.of (span : Span) (source : Text) : Text :=
  (source.take span.stop).drop span.start

/-- A unit with one span. -/
def CallUnit.single (source text : Text) (kind : Kind) (quote : Char) (span : Span) : CallUnit :=
  ⟨text, span.of source, kind, quote, [span]⟩

/-! ## Plugin calls -/

/-- A plugin call: the name with its blanks, and the block of arguments. -/
structure PluginCall where
  beforeBlock : Nat
  block : Text

/-- A character of a plugin's name after its first. -/
def isPluginNameChar (c : Char) : Bool := isWordChar c || c == '.'

/-- A call of the form `Name`, blanks, a block in braces, blanks. -/
def PluginCall.ofText? (source : Text) : Option PluginCall :=
  let named := source.trimStart
  let afterName : Text := (named.drop 1).dropWhile isPluginNameChar
  let block := afterName.trimStart.trimEnd
  if named.head?.any isNameStart && afterName.head?.any isBlank && 2 ≤ block.length &&
      block.head? == some '\x7b' && block.getLast? == some '\x7d' then
    some ⟨source.length - afterName.trimStart.length, block⟩
  else none

/-- The span of the block of a plugin call. -/
def PluginCall.span (call : PluginCall) : Span :=
  ⟨call.beforeBlock, call.beforeBlock + call.block.length⟩

/-- The strings among the direct values of an object. -/
def directStrings (members : List (Text × Json)) : List Text := members.filterMap (·.2.text?)

/-- The text that a double-quoted literal stands for as a JSON string. -/
def decoded? (l : Literal) : Option Text := (Json.read? l.raw).bind Json.text?

/-- The arguments of a plugin call that are translatable, with the span of the block. A literal in
the place of a key is none, nor is one that is no direct value of the object. -/
def pluginArguments (source : Text) (ls : List Literal) : List CallUnit × Option Span :=
  match PluginCall.ofText? source with
  | none => ([], none)
  | some call =>
    match Json.read? call.block with
    | some (.obj members) =>
      let block := call.span
      let values := directStrings members
      let found := ls.filterMap fun l =>
        if l.quote != '"' || l.start < block.start || block.stop < l.stop then none
        else
          match decoded? l with
          | none => none
          | some value =>
            let following := Text.trimStart ((source.take block.stop).drop l.stop)
            if values.contains value && following.head? != some ':' then
              some (CallUnit.single source value .pluginArgument '"' ⟨l.start, l.stop⟩)
            else none
      (found, some block)
    | _ => ([], none)

/-! ## Chains, keys and plain literals -/

/-- What stands between two literals is a plus sign among blanks. -/
def isPlusGap (gap : Text) : Bool := gap.trim == ['+']

/-- Groups literals into runs joined by plus signs. `run` is the current run in reverse. -/
def chainsFrom (source : Text) (run : List Literal) : List Literal → List (List Literal)
  | [] => [run.reverse]
  | l :: ls =>
    if l.quote == '`' then run.reverse :: chainsFrom source [] ls
    else
      match run with
      | last :: _ =>
        if isPlusGap (Span.of ⟨last.stop, l.start⟩ source) then chainsFrom source (l :: run) ls
        else run.reverse :: chainsFrom source [l] ls
      | [] => chainsFrom source [l] ls

/-- The runs of two or more literals joined by plus signs. Templates join nothing. -/
def chains (source : Text) (ls : List Literal) : List (List Literal) :=
  (chainsFrom source [] ls).filter (2 ≤ ·.length)

/-- The unit of a chain: the insides joined, from the first literal to the last. -/
def chainUnit? (source : Text) (chain : List Literal) : Option CallUnit :=
  match chain.head?, chain.getLast? with
  | some first, some last =>
    some (CallUnit.single source (chain.flatMap Literal.inner) .concatenation first.quote
      ⟨first.start, last.stop⟩)
  | _, _ => none

/-- The length of a key with its colon and blanks at the end of a text given in reverse order, if
there is one. The key is the leftmost identifier that reaches the colon. -/
def keyLength? (reversed : Text) : Option Nat :=
  let blanksAfter := reversed.takeWhile isBlank
  match reversed.dropWhile isBlank with
  | ':' :: rest =>
    let blanksBefore := rest.takeWhile isBlank
    let word := ((rest.dropWhile isBlank).takeWhile isWordChar).reverse
    let key := word.dropWhile fun c => !isNameStart c
    if key.isEmpty then none
    else some (key.length + blanksBefore.length + 1 + blanksAfter.length)
  | _ => none

/-- The literal stands in the place of a key of an object. -/
def isObjectKey (source : Text) (l : Literal) : Bool :=
  (Text.trimStart (source.drop l.stop)).head? == some ':' &&
    (((source.take l.start).reverse.dropWhile isBlank).head?).all fun c => c == '\x7b' || c == ','

/-- A character of an asset's file name. -/
def isAssetNameChar (c : Char) : Bool := isWordChar c || "-./\\ ".toList.contains c

/-- Endings of asset files. -/
def assetEndings : List Text := Text.wordList
  [".png", ".jpg", ".jpeg", ".gif", ".webp", ".bmp", ".ogg", ".m4a", ".mp3", ".wav", ".mid",
   ".mp4", ".webm", ".json", ".js", ".rpgmvp", ".rpgmvo", ".ttf", ".otf", ".woff", ".woff2"]

/-- The name of an asset file. -/
def isAssetFile (t : Text) : Bool :=
  assetEndings.any fun ending =>
    let name := t.take (t.length - ending.length)
    Text.endsWith ending t.fold && !name.isEmpty && name.all isAssetNameChar

/-- The unit of a literal that no chain has claimed: with its key, or by itself. Asset names and
keys of objects are none. -/
def plainUnit? (source : Text) (l : Literal) : Option CallUnit :=
  if l.quote == '`' || isAssetFile l.inner.trim then none
  else
    match keyLength? (source.take l.start).reverse with
    | some n => some (CallUnit.single source l.inner .keyValue l.quote ⟨l.start - n, l.stop⟩)
    | none =>
      if isObjectKey source l then none
      else some (CallUnit.single source l.inner .quoted l.quote ⟨l.start, l.stop⟩)

/-! ## Precedence and repetition -/

/-- The units claimed so far, and the spans that are taken. -/
structure Claims where
  units : List CallUnit
  taken : List Span

/-- The first span of a unit. -/
def CallUnit.firstSpan (u : CallUnit) : Span := u.spans.headD ⟨0, 0⟩

/-- Claims a unit if nothing has taken a part of its span. -/
def Claims.claim (claims : Claims) (u : CallUnit) : Claims :=
  if claims.taken.any u.firstSpan.overlaps then claims
  else ⟨claims.units ++ [u], claims.taken ++ [u.firstSpan]⟩

/-- All claimed units, in order of precedence. -/
def claimed (source : Text) : List CallUnit :=
  let ls := literals source
  let templates := (ls.filter (·.quote == '`')).map fun l =>
    CallUnit.single source l.inner .template '`' ⟨l.start, l.stop⟩
  let (arguments, block) := pluginArguments source ls
  let first := (templates ++ arguments).foldl Claims.claim ⟨[], []⟩
  let blocked := { first with taken := first.taken ++ block.toList }
  let later := (chains source ls).filterMap (chainUnit? source) ++ ls.filterMap (plainUnit? source)
  (later.foldl Claims.claim blocked).units

/-- Adds a unit to those accepted: a value that is there already gives its span to the first unit if
it is written the same way, and is dropped otherwise. -/
def accept (accepted : List CallUnit) (u : CallUnit) : List CallUnit :=
  if Classify.isGarbage u.text then accepted
  else if accepted.any (·.text == u.text) then
    accepted.map fun first =>
      if first.text == u.text && first.written == u.written then
        { first with spans := first.spans ++ u.spans }
      else first
  else accepted ++ [u]

/-- The translatable values of a script call, in the order in which they first stand there. -/
def units (source : Text) : List CallUnit :=
  ((claimed source).mergeSort fun a b => a.firstSpan.start ≤ b.firstSpan.start).foldl accept []

/-- The translatable values of a parameter; only a string holds any. -/
def unitsOfValue : Json → List CallUnit
  | .str s => units s
  | _ => []

end ScriptCall

end GameText
