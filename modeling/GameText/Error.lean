import GameText.Bytes.Base64
import GameText.Json.Reader

/-!
# What can go wrong

Every failure is a cause. The words for it come from one function, `Error.message`; causes that
come from a value of an unexpected kind have no words of their own.
-/

namespace GameText

/-- A value is not of the kind that an operation needs. -/
inductive Misfit where
  /-- The operation is not defined for values of the kind. -/
  | wrongKind
  /-- An object has no such key. -/
  | noSuchKey
  /-- A value has no such part. -/
  | noSuchPart
  /-- An index lies outside. -/
  | outside
deriving DecidableEq, Repr

/-- A source that cannot be decoded or parsed. -/
inductive SourceError where
  | notUtf8 (refusal : Utf8.Refusal)
  | notJson (refusal : Json.Refusal) (source : Text)
  | unknownShape
deriving DecidableEq, Repr

/-- The words for a source that cannot be read. -/
def SourceError.message : SourceError → Text
  | .notUtf8 refusal => "Not UTF-8 text: " ++ refusal.message
  | .notJson refusal source => "Invalid JSON: " ++ refusal.message source
  | .unknownShape => "Unsupported JSON format"

/-- A cause of failure. -/
inductive Error where
  | source (cause : SourceError)
  /-- Nothing can be written back into documents of the format. -/
  | unsupportedFormat (tag : Text)
  /-- No document with the identifier is stored, or it is stored no longer. -/
  | documentNotFound (id : Text)
  /-- A number of texts and another number of addresses. -/
  | unitCount (texts records : Nat)
  /-- An address of two parts has another number of parts. -/
  | addressParts (found : Nat)
  | notJson (refusal : Json.Refusal) (source : Text)
  | notUtf8 (refusal : Utf8.Refusal)
  | notBase64 (refusal : Base64.Refusal)
  | misfit (cause : Misfit)
deriving DecidableEq, Repr

/-- The words for a failure, if it has any. -/
def Error.message? : Error → Option Text
  | .source cause => some cause.message
  | .unsupportedFormat tag => some ("Saving not supported for " ++ tag)
  | .documentNotFound id => some (Json.displayString id)
  | .unitCount texts records =>
    some (Text.ofNat texts ++ " text units but " ++ Text.ofNat records ++ " mapping records")
  | .addressParts found =>
    some (if found < 2 then
        "not enough values to unpack (expected 2, got " ++ Text.ofNat found ++ ")"
      else "too many values to unpack (expected 2)")
  | .notJson refusal text => some (refusal.message text)
  | .notUtf8 refusal => some refusal.message
  | .notBase64 refusal => some refusal.message
  | .misfit _ => none

end GameText
