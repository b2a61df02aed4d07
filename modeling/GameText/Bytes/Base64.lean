import GameText.Bytes.Utf8

/-!
# Base64

Bytes are written in groups of four characters, the last group filled up with `=`. Reading is
lenient: characters outside the alphabet are passed over, and a fill that completes a group ends
the data, whatever follows.
-/

namespace GameText

namespace Base64

/-- The sixty-four characters. -/
def alphabet : Text := "ABCDEFGHIJKLMNOPQRSTUVWXYZabcdefghijklmnopqrstuvwxyz0123456789+/"

/-- The character for six bits. -/
def digit (n : Nat) : Char := alphabet.getD n 'A'

/-- The six bits that a character stands for. -/
def value? (c : Char) : Option Nat :=
  if c.isUpper then some (c.toNat - 'A'.toNat)
  else if c.isLower then some (c.toNat - 'a'.toNat + 26)
  else if c.isDigit then some (c.toNat - '0'.toNat + 52)
  else if c = '+' then some 62
  else if c = '/' then some 63
  else none

/-- Writes bytes. -/
def encode : Bytes → Text
  | [] => []
  | [a] => [digit (a.toNat / 4), digit (a.toNat % 4 * 16), '=', '=']
  | [a, b] =>
    [digit (a.toNat / 4), digit (a.toNat % 4 * 16 + b.toNat / 16), digit (b.toNat % 16 * 4), '=']
  | a :: b :: c :: rest =>
    digit (a.toNat / 4) :: digit (a.toNat % 4 * 16 + b.toNat / 16) ::
      digit (b.toNat % 16 * 4 + c.toNat / 64) :: digit (c.toNat % 64) :: encode rest

/-- Why a text is not read. -/
inductive Refusal where
  /-- A character outside ASCII. -/
  | notAscii
  /-- This many data characters leave one by itself. -/
  | loneDigit (count : Nat)
  /-- The last group is not filled up. -/
  | padding
deriving DecidableEq, Repr

/-- The words for a refusal. -/
def Refusal.message : Refusal → Text
  | .notAscii => "string argument should contain only ASCII characters"
  | .loneDigit n =>
    "Invalid base64-encoded string: number of data characters (" ++ Text.ofNat n ++
      ") cannot be 1 more than a multiple of 4"
  | .padding => "Incorrect padding"

/-- What is known in the middle of reading: complete groups so far, the place in the current group,
its bits that belong to no byte yet, and the fills since the last data character. -/
structure State where
  groups : Nat
  place : Nat
  bits : Nat
  fills : Nat

/-- Reads characters after a state. -/
def decodeFrom (s : State) : Text → Except Refusal Bytes
  | [] =>
    if s.place = 0 then .ok []
    else if s.place = 1 then .error (.loneDigit (s.groups * 4 + 1))
    else .error .padding
  | c :: cs =>
    if c = '=' then
      if s.place < 2 then decodeFrom s cs
      else if 4 ≤ s.place + (s.fills + 1) then .ok []
      else decodeFrom { s with fills := s.fills + 1 } cs
    else
      match value? c with
      | none => decodeFrom s cs
      | some v =>
        match s.place with
        | 0 => decodeFrom ⟨s.groups, 1, v, 0⟩ cs
        | 1 => (decodeFrom ⟨s.groups, 2, v % 16, 0⟩ cs).map (UInt8.ofNat (s.bits * 4 + v / 16) :: ·)
        | 2 => (decodeFrom ⟨s.groups, 3, v % 4, 0⟩ cs).map (UInt8.ofNat (s.bits * 16 + v / 4) :: ·)
        | _ => (decodeFrom ⟨s.groups + 1, 0, 0, 0⟩ cs).map (UInt8.ofNat (s.bits * 64 + v) :: ·)

/-- The bytes that a text stands for. -/
def decode (s : Text) : Except Refusal Bytes :=
  if s.any (128 ≤ ·.toNat) then .error .notAscii else decodeFrom ⟨0, 0, 0, 0⟩ s

end Base64

end GameText
