import DecisionService.Bytes
/-!
# UTF-8

A character takes one to four bytes. Decoding stops at the first place where no character can be
read and says where that is and how many bytes were already impossible there.
-/
namespace DecisionService.Utf8

structure Flaw where
  /-- The number of bytes before the flaw, all of them well formed. -/
  index : Nat
  /-- The bytes that no continuation can repair; none when the input ends inside a character. -/
  badLength : Option Nat
deriving DecidableEq, Repr

def Flaw.message (flaw : Flaw) : String :=
  match flaw.badLength with
  | some n => s!"invalid utf-8 sequence of {n} bytes from index {flaw.index}"
  | none => s!"incomplete utf-8 byte sequence from index {flaw.index}"

def encodeChar (c : Char) : Bytes :=
  let n := c.toNat
  if n < 0x80 then [UInt8.ofNat n]
  else if n < 0x800 then [UInt8.ofNat (0xC0 + n / 64), UInt8.ofNat (0x80 + n % 64)]
  else if n < 0x10000 then
    [UInt8.ofNat (0xE0 + n / 4096), UInt8.ofNat (0x80 + n / 64 % 64), UInt8.ofNat (0x80 + n % 64)]
  else
    [UInt8.ofNat (0xF0 + n / 262144), UInt8.ofNat (0x80 + n / 4096 % 64),
      UInt8.ofNat (0x80 + n / 64 % 64), UInt8.ofNat (0x80 + n % 64)]

def encodeChars (text : List Char) : Bytes :=
  text.flatMap encodeChar

def encode (text : String) : Bytes :=
  encodeChars text.toList

def isTail (b : UInt8) : Bool :=
  0x80 ≤ b && b ≤ 0xBF

/-- The second byte of a three-byte character: no overlong form and no surrogate. -/
def isSecondOfThree (first second : UInt8) : Bool :=
  isTail second && (first != 0xE0 || 0xA0 ≤ second) && (first != 0xED || second ≤ 0x9F)

/-- The second byte of a four-byte character: no overlong form and nothing past U+10FFFF. -/
def isSecondOfFour (first second : UInt8) : Bool :=
  isTail second && (first != 0xF0 || 0x90 ≤ second) && (first != 0xF4 || second ≤ 0x8F)

def payload (b : UInt8) : Nat :=
  b.toNat - 0x80

def decodeFrom (index : Nat) : Bytes → Except Flaw (List Char)
  | [] => .ok []
  | a :: rest =>
    if a < 0x80 then do
      return Char.ofNat a.toNat :: (← decodeFrom (index + 1) rest)
    else if 0xC2 ≤ a && a ≤ 0xDF then
      match rest with
      | [] => .error ⟨index, none⟩
      | b :: rest =>
        if isTail b then do
          return Char.ofNat ((a.toNat - 0xC0) * 64 + payload b) :: (← decodeFrom (index + 2) rest)
        else .error ⟨index, some 1⟩
    else if 0xE0 ≤ a && a ≤ 0xEF then
      match rest with
      | [] => .error ⟨index, none⟩
      | b :: rest =>
        if isSecondOfThree a b then
          match rest with
          | [] => .error ⟨index, none⟩
          | c :: rest =>
            if isTail c then do
              return Char.ofNat ((a.toNat - 0xE0) * 4096 + payload b * 64 + payload c)
                :: (← decodeFrom (index + 3) rest)
            else .error ⟨index, some 2⟩
        else .error ⟨index, some 1⟩
    else if 0xF0 ≤ a && a ≤ 0xF4 then
      match rest with
      | [] => .error ⟨index, none⟩
      | b :: rest =>
        if isSecondOfFour a b then
          match rest with
          | [] => .error ⟨index, none⟩
          | c :: rest =>
            if isTail c then
              match rest with
              | [] => .error ⟨index, none⟩
              | d :: rest =>
                if isTail d then do
                  return Char.ofNat ((a.toNat - 0xF0) * 262144 + payload b * 4096
                      + payload c * 64 + payload d)
                    :: (← decodeFrom (index + 4) rest)
                else .error ⟨index, some 3⟩
            else .error ⟨index, some 2⟩
        else .error ⟨index, some 1⟩
    else .error ⟨index, some 1⟩

def decode (bytes : Bytes) : Except Flaw String :=
  (decodeFrom 0 bytes).map String.ofList

end DecisionService.Utf8
