import DecisionService.Bytes
import DecisionService.Json.Flaw
import DecisionService.Text.Utf8
/-!
# Quoted text of JSON

A text is written between quotes with seven short escapes and a numbered escape for the other
control characters. It can be read for its text or passed over; passing over it does not look at
surrogates and at what its bytes mean.
-/
namespace DecisionService.Json.Quoted

def shortEscapes : List (UInt8 × UInt8) :=
  [(0x22, 0x22), (0x5C, 0x5C), (0x2F, 0x2F), (0x62, 0x08), (0x66, 0x0C), (0x6E, 0x0A),
    (0x72, 0x0D), (0x74, 0x09)]

def ofShortEscape (letter : UInt8) : Option UInt8 :=
  (shortEscapes.find? fun e => e.1 == letter).map Prod.snd

def hexDigit (n : Nat) : UInt8 :=
  UInt8.ofNat (if n < 10 then 0x30 + n else 0x57 + n)

def encodeByte (b : UInt8) : Bytes :=
  if b = 0x22 then [0x5C, 0x22]
  else if b = 0x5C then [0x5C, 0x5C]
  else if b = 0x08 then [0x5C, 0x62]
  else if b = 0x09 then [0x5C, 0x74]
  else if b = 0x0A then [0x5C, 0x6E]
  else if b = 0x0C then [0x5C, 0x66]
  else if b = 0x0D then [0x5C, 0x72]
  else if b < 0x20 then
    [0x5C, 0x75, 0x30, 0x30, hexDigit (b.toNat / 16), hexDigit (b.toNat % 16)]
  else [b]

def encode (text : String) : Bytes :=
  0x22 :: (Utf8.encode text).flatMap encodeByte ++ [0x22]

def hexValue (b : UInt8) : Option Nat :=
  if 0x30 ≤ b && b ≤ 0x39 then some (b.toNat - 0x30)
  else if 0x41 ≤ b && b ≤ 0x46 then some (b.toNat - 0x37)
  else if 0x61 ≤ b && b ≤ 0x66 then some (b.toNat - 0x57)
  else none

def hexNumber (a b c d : UInt8) : Option Nat := do
  return (← hexValue a) * 4096 + (← hexValue b) * 256 + (← hexValue c) * 16 + (← hexValue d)

def isLeadingSurrogate (n : Nat) : Bool :=
  0xD800 ≤ n && n ≤ 0xDBFF

def isTrailingSurrogate (n : Nat) : Bool :=
  0xDC00 ≤ n && n ≤ 0xDFFF

def joinSurrogates (lead trail : Nat) : Char :=
  Char.ofNat (0x10000 + (lead - 0xD800) * 0x400 + (trail - 0xDC00))

def decodeBytes : Bytes → Except Flaw Bytes
  | [] => .error .endInString
  | b :: rest =>
    if b = 0x22 then .ok []
    else if b = 0x5C then
      match rest with
      | [] => .error .endInString
      | letter :: rest =>
        if letter = 0x75 then
          match rest with
          | a :: b :: c :: d :: rest =>
            match hexNumber a b c d with
            | none => .error .badEscape
            | some n =>
              if isTrailingSurrogate n then .error .loneSurrogate
              else if isLeadingSurrogate n then
                match rest with
                | [] => .error .endInString
                | slash :: rest =>
                  if slash ≠ 0x5C then .error .endOfHexEscape
                  else
                    match rest with
                    | [] => .error .endInString
                    | u :: rest =>
                      if u ≠ 0x75 then .error .endOfHexEscape
                      else
                        match rest with
                        | a :: b :: c :: d :: rest =>
                          match hexNumber a b c d with
                          | none => .error .badEscape
                          | some m =>
                            if isTrailingSurrogate m then
                              (decodeBytes rest).map (Utf8.encodeChar (joinSurrogates n m) ++ ·)
                            else .error .loneSurrogate
                        | _ => .error .endInString
              else (decodeBytes rest).map (Utf8.encodeChar (Char.ofNat n) ++ ·)
          | _ => .error .endInString
        else
          match ofShortEscape letter with
          | some b => (decodeBytes rest).map (b :: ·)
          | none => .error .badEscape
    else if b < 0x20 then .error .controlCharacter
    else (decodeBytes rest).map (b :: ·)

def decode (bytes : Bytes) : Except Flaw String := do
  match Utf8.decode (← decodeBytes bytes) with
  | .ok text => return text
  | .error _ => throw .badCodePoint

def skip : Bytes → Except Flaw Bytes
  | [] => .error .endInString
  | b :: rest =>
    if b = 0x22 then .ok rest
    else if b = 0x5C then
      match rest with
      | [] => .error .endInString
      | letter :: rest =>
        if letter = 0x75 then
          match rest with
          | a :: b :: c :: d :: rest =>
            match hexNumber a b c d with
            | none => .error .badEscape
            | some _ => skip rest
          | _ => .error .endInString
        else
          match ofShortEscape letter with
          | some _ => skip rest
          | none => .error .badEscape
    else if b < 0x20 then .error .controlCharacter
    else skip rest

end DecisionService.Json.Quoted
