import GameText.Json.Display

/-!
# UTF-8

Bytes are read as UTF-8 one character at a time. A sequence that is no character is refused with
the offset where it begins, how many of its bytes were good, and why the next one is not. The
lenient reading puts the replacement character in the place of each bad sequence and goes on after
its good bytes.
-/

namespace GameText

/-- The content of a file. -/
abbrev Bytes := List UInt8

namespace Utf8

/-- Why a sequence of bytes is no character. -/
inductive Reason where
  | start
  | tooShort
  | continuation
deriving DecidableEq, Repr

/-- The words for a reason. -/
def Reason.message : Reason → Text
  | .start => "invalid start byte"
  | .tooShort => "unexpected end of data"
  | .continuation => "invalid continuation byte"

/-- Where the first bad sequence begins, its first byte, how many bytes were good, and the
reason. -/
structure Refusal where
  offset : Nat
  first : UInt8
  good : Nat
  reason : Reason
deriving DecidableEq, Repr

/-- The message of a refusal. -/
def Refusal.message (r : Refusal) : Text :=
  "'utf-8' codec can't decode byte" ++
    (if r.good ≤ 1 then " 0x" ++ Json.hexDigits 2 r.first.toNat ++ " in position " ++
        Text.ofNat r.offset
      else "s in position " ++ Text.ofNat r.offset ++ "-" ++ Text.ofNat (r.offset + r.good - 1)) ++
    ": " ++ r.reason.message

/-- A sequence that is no character: its good bytes and the reason. -/
structure Bad where
  good : Nat
  reason : Reason
deriving DecidableEq, Repr

/-- A byte that continues any character. -/
def isContinuation (b : UInt8) : Bool := 0x80 ≤ b.toNat && b.toNat ≤ 0xBF

/-- The bytes that may follow the first byte of a longer character. -/
def secondFits (first second : UInt8) : Bool :=
  isContinuation second &&
    (if first == 0xE0 then 0xA0 ≤ second.toNat
     else if first == 0xED then second.toNat ≤ 0x9F
     else if first == 0xF0 then 0x90 ≤ second.toNat
     else if first == 0xF4 then second.toNat ≤ 0x8F
     else true)

/-- The six bits of a continuation byte. -/
def low6 (b : UInt8) : Nat := b.toNat % 64

/-- The first character of a row of bytes, and how many bytes after the first it takes. -/
def decodeOne (first : UInt8) (rest : Bytes) : Except Bad (Char × Nat) :=
  let n := first.toNat
  if n < 0x80 then .ok (Char.ofNat n, 0)
  else if 0xC2 ≤ n ∧ n ≤ 0xDF then
    match rest with
    | [] => .error ⟨1, .tooShort⟩
    | b :: _ =>
      if isContinuation b then .ok (Char.ofNat (n % 32 * 64 + low6 b), 1)
      else .error ⟨1, .continuation⟩
  else if 0xE0 ≤ n ∧ n ≤ 0xEF then
    match rest with
    | [] => .error ⟨1, .tooShort⟩
    | b :: bs =>
      if !secondFits first b then .error ⟨1, .continuation⟩
      else
        match bs with
        | [] => .error ⟨2, .tooShort⟩
        | c :: _ =>
          if isContinuation c then .ok (Char.ofNat ((n % 16 * 64 + low6 b) * 64 + low6 c), 2)
          else .error ⟨2, .continuation⟩
  else if 0xF0 ≤ n ∧ n ≤ 0xF4 then
    match rest with
    | [] => .error ⟨1, .tooShort⟩
    | b :: bs =>
      if !secondFits first b then .error ⟨1, .continuation⟩
      else
        match bs with
        | [] => .error ⟨2, .tooShort⟩
        | c :: cs =>
          if !isContinuation c then .error ⟨2, .continuation⟩
          else
            match cs with
            | [] => .error ⟨3, .tooShort⟩
            | d :: _ =>
              if isContinuation d then
                .ok (Char.ofNat (((n % 8 * 64 + low6 b) * 64 + low6 c) * 64 + low6 d), 3)
              else .error ⟨3, .continuation⟩
  else .error ⟨0, .start⟩

/-- Reads bytes that begin at an offset. `skip` bytes belong to a character already read. -/
def decodeFrom (offset : Nat) (skip : Nat) : Bytes → Except Refusal Text
  | [] => .ok []
  | b :: bs =>
    match skip with
    | k + 1 => decodeFrom (offset + 1) k bs
    | 0 =>
      match decodeOne b bs with
      | .ok (c, more) => (decodeFrom (offset + 1) more bs).map fun cs => c :: cs
      | .error bad => .error ⟨offset, b, bad.good, bad.reason⟩

/-- The text that bytes stand for. -/
def decode (bs : Bytes) : Except Refusal Text := decodeFrom 0 0 bs

/-- Reads bytes leniently. `skip` bytes belong to a sequence already read. -/
def decodeLenientFrom (skip : Nat) : Bytes → Text
  | [] => []
  | b :: bs =>
    match skip with
    | k + 1 => decodeLenientFrom k bs
    | 0 =>
      match decodeOne b bs with
      | .ok (c, more) => c :: decodeLenientFrom more bs
      | .error bad => '\uFFFD' :: decodeLenientFrom (bad.good - 1) bs

/-- The text of bytes, with the replacement character for each bad sequence. -/
def decodeLenient (bs : Bytes) : Text := decodeLenientFrom 0 bs

/-- The bytes of a character. -/
def encodeChar (c : Char) : Bytes :=
  let n := c.toNat
  if n < 0x80 then [UInt8.ofNat n]
  else if n < 0x800 then [UInt8.ofNat (0xC0 + n / 64), UInt8.ofNat (0x80 + n % 64)]
  else if n < 0x10000 then
    [UInt8.ofNat (0xE0 + n / 4096), UInt8.ofNat (0x80 + n / 64 % 64), UInt8.ofNat (0x80 + n % 64)]
  else
    [UInt8.ofNat (0xF0 + n / 262144), UInt8.ofNat (0x80 + n / 4096 % 64),
     UInt8.ofNat (0x80 + n / 64 % 64), UInt8.ofNat (0x80 + n % 64)]

/-- The bytes of a text. -/
def encode (s : Text) : Bytes := s.flatMap encodeChar

end Utf8

end GameText
