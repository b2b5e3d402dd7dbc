/-
  CompilerRemarks.Text.Utf8

  Characters and their UTF-8 bytes. Strict decoding refuses malformed input;
  lossy decoding writes U+FFFD for each maximal malformed part.
-/

namespace CompilerRemarks.Text.Utf8

/-! ## Encoding -/

/-- The UTF-8 bytes of one character. -/
def encodeChar (c : Char) : List UInt8 :=
  let n := c.toNat
  if n < 0x80 then [n.toUInt8]
  else if n < 0x800 then [(0xC0 + n / 0x40).toUInt8, (0x80 + n % 0x40).toUInt8]
  else if n < 0x10000 then
    [(0xE0 + n / 0x1000).toUInt8, (0x80 + n / 0x40 % 0x40).toUInt8, (0x80 + n % 0x40).toUInt8]
  else
    [(0xF0 + n / 0x40000).toUInt8, (0x80 + n / 0x1000 % 0x40).toUInt8,
      (0x80 + n / 0x40 % 0x40).toUInt8, (0x80 + n % 0x40).toUInt8]

/-- The UTF-8 bytes of a text. -/
def encode (s : List Char) : List UInt8 :=
  s.flatMap encodeChar

/-- The number of UTF-8 bytes of a text. -/
def size : List Char → Nat
  | [] => 0
  | c :: rest => (encodeChar c).length + size rest

/-! ## Decoding -/

/-- Whether a byte continues a character. -/
def isTail (b : UInt8) : Bool :=
  0x80 ≤ b && b ≤ 0xBF

/-- The low six bits that a continuation byte carries. -/
def tailBits (b : UInt8) : Nat :=
  b.toNat % 0x40

/-- The range of the second byte after a leading byte of a longer character;
    it shuts out overlong forms, surrogates and values above U+10FFFF. -/
def secondRange (lead : UInt8) : UInt8 × UInt8 :=
  if lead == 0xE0 then (0xA0, 0xBF)
  else if lead == 0xED then (0x80, 0x9F)
  else if lead == 0xF0 then (0x90, 0xBF)
  else if lead == 0xF4 then (0x80, 0x8F)
  else (0x80, 0xBF)

/-- What the head of a byte sequence holds. -/
inductive Head where
  /-- A character and the number of its bytes. -/
  | char (c : Char) (width : Nat)
  /-- A malformed part of this many bytes. -/
  | malformed (width : Nat)

/-- Reads the first character of `lead :: rest`. -/
def head (lead : UInt8) (rest : List UInt8) : Head :=
  if lead < 0x80 then .char (Char.ofNat lead.toNat) 1
  else if 0xC2 ≤ lead && lead ≤ 0xDF then
    match rest with
    | b :: _ =>
      if isTail b then .char (Char.ofNat (lead.toNat % 0x20 * 0x40 + tailBits b)) 2
      else .malformed 1
    | [] => .malformed 1
  else if 0xE0 ≤ lead && lead ≤ 0xEF then
    let (lo, hi) := secondRange lead
    match rest with
    | b :: tail =>
      if lo ≤ b && b ≤ hi then
        match tail with
        | c :: _ =>
          if isTail c then
            .char (Char.ofNat (lead.toNat % 0x10 * 0x1000 + tailBits b * 0x40 + tailBits c)) 3
          else .malformed 2
        | [] => .malformed 2
      else .malformed 1
    | [] => .malformed 1
  else if 0xF0 ≤ lead && lead ≤ 0xF4 then
    let (lo, hi) := secondRange lead
    match rest with
    | b :: tail =>
      if lo ≤ b && b ≤ hi then
        match tail with
        | c :: tail' =>
          if isTail c then
            match tail' with
            | d :: _ =>
              if isTail d then
                .char (Char.ofNat (lead.toNat % 0x08 * 0x40000 + tailBits b * 0x1000 +
                  tailBits c * 0x40 + tailBits d)) 4
              else .malformed 3
            | [] => .malformed 3
          else .malformed 2
        | [] => .malformed 2
      else .malformed 1
    | [] => .malformed 1
  else .malformed 1

/-- Strict decoding; `skip` bytes belong to a character already read. -/
def decodeFrom? : Nat → List UInt8 → Option (List Char)
  | _, [] => some []
  | skip + 1, _ :: rest => decodeFrom? skip rest
  | 0, b :: rest =>
    match head b rest with
    | .char c width => (decodeFrom? (width - 1) rest).map (c :: ·)
    | .malformed _ => none

/-- The text with these UTF-8 bytes, if they are well formed. -/
def decode? (bytes : List UInt8) : Option (List Char) :=
  decodeFrom? 0 bytes

/-- Lossy decoding; `skip` bytes belong to a part already read. -/
def decodeLossyFrom : Nat → List UInt8 → List Char
  | _, [] => []
  | skip + 1, _ :: rest => decodeLossyFrom skip rest
  | 0, b :: rest =>
    match head b rest with
    | .char c width => c :: decodeLossyFrom (width - 1) rest
    | .malformed width => '\uFFFD' :: decodeLossyFrom (width - 1) rest

/-- The text with each malformed part replaced by U+FFFD. -/
def decodeLossy (bytes : List UInt8) : List Char :=
  decodeLossyFrom 0 bytes

end CompilerRemarks.Text.Utf8
