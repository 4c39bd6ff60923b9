/-!
UTF-8 read byte by byte. The bytes fall into pieces, each a character or a longest prefix of one
that is not continued; strict reading stops at the first piece of the second kind and says where it
is, lossy reading replaces each by U+FFFD.
-/
namespace RuleBuild

/-- The content of a file or of a program's stream. -/
abbrev Bytes := List UInt8

/-- The bytes that encode a text. -/
def bytesOf (s : String) : Bytes := s.toUTF8.toList

namespace Utf8

/-- A stretch of the input: one character, or bytes that begin a character and cannot go on. -/
inductive Piece
  | scalar (c : Char)
  | malformed (index width : Nat)
  | truncated (index : Nat)
  deriving Repr, DecidableEq

/-- A character whose first bytes have been read. The next byte has to lie in `low..high`. -/
structure Opened where
  value : Nat
  width : Nat
  missing : Nat
  low : UInt8
  high : UInt8

/-- What a byte says when it stands where a character begins. -/
inductive Lead
  | scalar (c : Char)
  | opened (o : Opened)
  | stray

/-- The lead bytes, with the ranges of the second byte that keep out overlong forms, surrogates and
values above U+10FFFF. -/
def lead (b : UInt8) : Lead :=
  let n := b.toNat
  if n < 0x80 then .scalar (Char.ofNat n)
  else if n < 0xC2 then .stray
  else if n < 0xE0 then .opened ⟨n - 0xC0, 1, 1, 0x80, 0xBF⟩
  else if n = 0xE0 then .opened ⟨0, 1, 2, 0xA0, 0xBF⟩
  else if n = 0xED then .opened ⟨0xD, 1, 2, 0x80, 0x9F⟩
  else if n < 0xF0 then .opened ⟨n - 0xE0, 1, 2, 0x80, 0xBF⟩
  else if n = 0xF0 then .opened ⟨0, 1, 3, 0x90, 0xBF⟩
  else if n < 0xF4 then .opened ⟨n - 0xF0, 1, 3, 0x80, 0xBF⟩
  else if n = 0xF4 then .opened ⟨4, 1, 3, 0x80, 0x8F⟩
  else .stray

/-- A scan in progress: where the next character begins, what of it has been read, and the pieces
found so far, the latest first. -/
structure Scan where
  index : Nat
  current : Option Opened
  found : List Piece

/-- A byte where a character begins. -/
def Scan.start (s : Scan) (b : UInt8) : Scan :=
  match lead b with
  | .scalar c => ⟨s.index + 1, none, .scalar c :: s.found⟩
  | .opened o => ⟨s.index, some o, s.found⟩
  | .stray => ⟨s.index + 1, none, .malformed s.index 1 :: s.found⟩

/-- A byte that does not continue the character at hand ends a malformed piece and begins anew. -/
def Scan.step (s : Scan) (b : UInt8) : Scan :=
  match s.current with
  | none => s.start b
  | some o =>
    if o.low ≤ b ∧ b ≤ o.high then
      let value := o.value * 64 + b.toNat % 64
      if o.missing ≤ 1 then ⟨s.index + o.width + 1, none, .scalar (Char.ofNat value) :: s.found⟩
      else ⟨s.index, some ⟨value, o.width + 1, o.missing - 1, 0x80, 0xBF⟩, s.found⟩
    else Scan.start ⟨s.index + o.width, none, .malformed s.index o.width :: s.found⟩ b

/-- A character that the end of the input cuts off is a piece of its own. -/
def Scan.finish (s : Scan) : List Piece :=
  match s.current with
  | none => s.found.reverse
  | some _ => (.truncated s.index :: s.found).reverse

/-- The pieces of `bytes`, in order. -/
def pieces (bytes : Bytes) : List Piece :=
  (bytes.foldl Scan.step ⟨0, none, []⟩).finish

/-- Why bytes are no text. -/
inductive DecodeError
  | malformed (index width : Nat)
  | truncated (index : Nat)
  deriving Repr, DecidableEq

/-- The wording of a decoding failure. -/
def DecodeError.message : DecodeError → String
  | .malformed index width =>
    "invalid utf-8 sequence of " ++ toString width ++ " bytes from index " ++ toString index
  | .truncated index => "incomplete utf-8 byte sequence from index " ++ toString index

/-- The failure that a piece stands for. -/
def Piece.error? : Piece → Option DecodeError
  | .scalar _ => none
  | .malformed index width => some (.malformed index width)
  | .truncated index => some (.truncated index)

/-- The character of a piece. -/
def Piece.char? : Piece → Option Char
  | .scalar c => some c
  | _ => none

/-- Each piece as its character, or as nothing where the bytes encode none. -/
def chars (bytes : Bytes) : List (Option Char) :=
  (pieces bytes).map Piece.char?

/-- The text that `bytes` encode, or the first fault in them. -/
def decode (bytes : Bytes) : Except DecodeError String :=
  match (pieces bytes).findSome? Piece.error? with
  | some e => .error e
  | none => .ok (String.ofList ((pieces bytes).filterMap Piece.char?))

/-- The text of `bytes`, with U+FFFD for every piece that encodes no character. -/
def decodeLossy (bytes : Bytes) : String :=
  String.ofList ((chars bytes).map (·.getD '\uFFFD'))

end Utf8
end RuleBuild
