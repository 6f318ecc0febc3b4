import GuestBridge.Scalar.Body

/-!
# UTF-8

Text as bytes and back. Every text has an encoding; reading bytes back replaces each longest run
of bytes that could still begin a character, but does not, by one U+FFFD.

Both directions are written with natural-number arithmetic on the code point: six bits for each
byte that continues a character, the rest in the byte that leads it.
-/

namespace GuestBridge.Utf8

/-! ## Encoding -/

/-- The bytes of one character. -/
def encodeChar (c : Char) : Bytes :=
  let n := c.toNat
  if n < 0x80 then [UInt8.ofNat n]
  else if n < 0x800 then [UInt8.ofNat (0xC0 + n / 64), UInt8.ofNat (0x80 + n % 64)]
  else if n < 0x10000 then
    [UInt8.ofNat (0xE0 + n / 4096), UInt8.ofNat (0x80 + n / 64 % 64), UInt8.ofNat (0x80 + n % 64)]
  else
    [UInt8.ofNat (0xF0 + n / 262144), UInt8.ofNat (0x80 + n / 4096 % 64),
      UInt8.ofNat (0x80 + n / 64 % 64), UInt8.ofNat (0x80 + n % 64)]

/-- The bytes of a text. -/
def encode (s : String) : Bytes := s.toList.flatMap encodeChar

/-! ## Decoding -/

/-- Stands for bytes that encode no character. -/
def replacement : Char := '\uFFFD'

/-- May the byte continue a character? -/
def continues (b : UInt8) : Bool := 0x80 ≤ b.toNat ∧ b.toNat < 0xC0

/-- May the byte follow `lead` in a character of three bytes? The shortest form is required, and
the surrogates are left out. -/
def followsOfThree (lead : Nat) (b : UInt8) : Bool :=
  continues b ∧ (lead = 0xE0 → 0xA0 ≤ b.toNat) ∧ (lead = 0xED → b.toNat < 0xA0)

/-- May the byte follow `lead` in a character of four bytes? The shortest form is required, and
nothing beyond U+10FFFF. -/
def followsOfFour (lead : Nat) (b : UInt8) : Bool :=
  continues b ∧ (lead = 0xF0 → 0x90 ≤ b.toNat) ∧ (lead = 0xF4 → b.toNat < 0x90)

/-- The character that a leading byte begins, and how many of the bytes after it belong to it. -/
def next (b : UInt8) (rest : Bytes) : Char × Nat :=
  let lead := b.toNat
  if lead < 0x80 then (Char.ofNat lead, 0)
  else if 0xC2 ≤ lead ∧ lead < 0xE0 then
    match rest with
    | x :: _ =>
      if continues x then (Char.ofNat ((lead - 0xC0) * 64 + (x.toNat - 0x80)), 1)
      else (replacement, 0)
    | [] => (replacement, 0)
  else if 0xE0 ≤ lead ∧ lead < 0xF0 then
    match rest with
    | x :: y :: _ =>
      if followsOfThree lead x then
        if continues y then
          (Char.ofNat ((lead - 0xE0) * 4096 + (x.toNat - 0x80) * 64 + (y.toNat - 0x80)), 2)
        else (replacement, 1)
      else (replacement, 0)
    | [x] => (replacement, if followsOfThree lead x then 1 else 0)
    | [] => (replacement, 0)
  else if 0xF0 ≤ lead ∧ lead < 0xF5 then
    match rest with
    | x :: y :: z :: _ =>
      if followsOfFour lead x then
        if continues y then
          if continues z then
            (Char.ofNat ((lead - 0xF0) * 262144 + (x.toNat - 0x80) * 4096
              + (y.toNat - 0x80) * 64 + (z.toNat - 0x80)), 3)
          else (replacement, 2)
        else (replacement, 1)
      else (replacement, 0)
    | [x, y] =>
      (replacement, if followsOfFour lead x then if continues y then 2 else 1 else 0)
    | [x] => (replacement, if followsOfFour lead x then 1 else 0)
    | [] => (replacement, 0)
  else (replacement, 0)

/-- The characters of a byte string, with U+FFFD for what encodes none. -/
def decodeChars : Bytes → List Char
  | [] => []
  | b :: rest => (next b rest).1 :: decodeChars (rest.drop (next b rest).2)
termination_by bytes => bytes.length
decreasing_by simp only [List.length_drop, List.length_cons]; omega

/-- The text of a byte string, with U+FFFD for what encodes no character. -/
def decodeLossy (bytes : Bytes) : String := String.ofList (decodeChars bytes)

/-- Is the byte string the encoding of a text? -/
def isValid (bytes : Bytes) : Bool := encode (decodeLossy bytes) == bytes

@[simp] theorem decodeChars_nil : decodeChars [] = [] := by rw [decodeChars]

theorem decodeChars_cons (b : UInt8) (rest : Bytes) :
    decodeChars (b :: rest) = (next b rest).1 :: decodeChars (rest.drop (next b rest).2) := by
  rw [decodeChars]

end GuestBridge.Utf8
