/-!
# UTF-8

Texts as bytes and bytes as texts. Decoding stops at the first byte sequence that is not
well-formed and says where it is and how long it is; the lenient form puts one replacement
character in its place. A sequence that the end of the bytes cuts short counts as
incomplete.
-/

namespace Coordination

/-- A byte string. -/
abbrev Bytes := List UInt8

namespace Text.Utf8

/-- The bytes of a text. -/
def encode (s : String) : Bytes := s.toList.flatMap String.utf8EncodeChar

/-- Why bytes are not a text. -/
inductive DecodeError where
  /-- The `length` bytes at `index` are no part of a well-formed text. -/
  | malformed (index length : Nat)
  /-- The sequence at `index` lacks its last bytes. -/
  | incomplete (index : Nat)
  deriving DecidableEq, Repr, Inhabited

namespace DecodeError

/-- The wording of the error. -/
def message : DecodeError → String
  | .malformed index length =>
    s!"invalid utf-8 sequence of {length} bytes from index {index}"
  | .incomplete index => s!"incomplete utf-8 byte sequence from index {index}"

end DecodeError

/-- What bytes start with. -/
inductive Lead where
  /-- A character of `width` bytes. -/
  | scalar (c : Char) (width : Nat)
  /-- A sequence of `length` bytes that starts no character. -/
  | malformed (length : Nat)
  /-- The start of a character whose other bytes are missing. -/
  | incomplete
  deriving DecidableEq, Repr

/-- Whether the byte continues a character. -/
def isContinuation (b : UInt8) : Bool := 0x80 ≤ b && b ≤ 0xBF

/-- The bytes that may follow `b` in a character of three or four bytes. -/
def secondRange (b : UInt8) : UInt8 × UInt8 :=
  if b = 0xE0 then (0xA0, 0xBF)
  else if b = 0xED then (0x80, 0x9F)
  else if b = 0xF0 then (0x90, 0xBF)
  else if b = 0xF4 then (0x80, 0x8F)
  else (0x80, 0xBF)

/-- The low six bits of a continuation byte. -/
def payload (b : UInt8) : Nat := b.toNat % 64

/-- A character whose lead byte announces two bytes. -/
def lead2 (b : UInt8) : Bytes → Lead
  | [] => .incomplete
  | b1 :: _ =>
    if isContinuation b1 then .scalar (Char.ofNat (b.toNat % 32 * 64 + payload b1)) 2
    else .malformed 1

/-- A character whose lead byte announces three bytes. -/
def lead3 (b : UInt8) : Bytes → Lead
  | [] => .incomplete
  | b1 :: rest =>
    if (secondRange b).1 ≤ b1 ∧ b1 ≤ (secondRange b).2 then
      match rest with
      | [] => .incomplete
      | b2 :: _ =>
        if isContinuation b2 then
          .scalar (Char.ofNat ((b.toNat % 16 * 64 + payload b1) * 64 + payload b2)) 3
        else .malformed 2
    else .malformed 1

/-- A character whose lead byte announces four bytes. -/
def lead4 (b : UInt8) : Bytes → Lead
  | [] => .incomplete
  | b1 :: rest =>
    if (secondRange b).1 ≤ b1 ∧ b1 ≤ (secondRange b).2 then
      match rest with
      | [] => .incomplete
      | b2 :: rest =>
        if isContinuation b2 then
          match rest with
          | [] => .incomplete
          | b3 :: _ =>
            if isContinuation b3 then
              .scalar (Char.ofNat
                (((b.toNat % 8 * 64 + payload b1) * 64 + payload b2) * 64 + payload b3)) 4
            else .malformed 3
        else .malformed 2
    else .malformed 1

/-- What the bytes `b :: rest` start with. -/
def lead (b : UInt8) (rest : Bytes) : Lead :=
  if b < 0x80 then .scalar (Char.ofNat b.toNat) 1
  else if 0xC2 ≤ b ∧ b ≤ 0xDF then lead2 b rest
  else if 0xE0 ≤ b ∧ b ≤ 0xEF then lead3 b rest
  else if 0xF0 ≤ b ∧ b ≤ 0xF4 then lead4 b rest
  else .malformed 1

/-- Decode the bytes that start at `index`. -/
def decodeFrom (index : Nat) : Bytes → Except DecodeError (List Char)
  | [] => .ok []
  | b :: rest =>
    match lead b rest with
    | .scalar c width => (decodeFrom (index + width) (rest.drop (width - 1))).map (c :: ·)
    | .malformed length => .error (.malformed index length)
    | .incomplete => .error (.incomplete index)
termination_by bytes => bytes.length
decreasing_by simp only [List.length_drop, List.length_cons]; omega

/-- The text of well-formed bytes. -/
def decode (bytes : Bytes) : Except DecodeError String :=
  (decodeFrom 0 bytes).map String.ofList

/-- The characters of the bytes, with U+FFFD for each ill-formed sequence. -/
def lenientChars : Bytes → List Char
  | [] => []
  | b :: rest =>
    match lead b rest with
    | .scalar c width => c :: lenientChars (rest.drop (width - 1))
    | .malformed length => '\ufffd' :: lenientChars (rest.drop (length - 1))
    | .incomplete => ['\ufffd']
termination_by bytes => bytes.length
decreasing_by all_goals simp only [List.length_drop, List.length_cons]; omega

/-- The text of any bytes, with U+FFFD for each ill-formed sequence. -/
def decodeLenient (bytes : Bytes) : String := String.ofList (lenientChars bytes)

end Text.Utf8

end Coordination
