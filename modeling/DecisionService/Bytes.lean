/-!
# Byte strings

A payload is a list of bytes. Unsigned numbers are laid out most significant byte first.
-/
namespace DecisionService

-- A power is the core library's, also where a library that is imported has one of its own.
attribute [instance (high), default_instance (high + 1)] instPowNat

abbrev Bytes := List UInt8

namespace Bytes

def bigEndian : Nat → Nat → Bytes
  | 0, _ => []
  | width + 1, n => UInt8.ofNat (n / 256 ^ width) :: bigEndian width n

def toNat (bytes : Bytes) : Nat :=
  bytes.foldl (fun n b => n * 256 + b.toNat) 0

def ofAscii (text : List Char) : Bytes :=
  text.map fun c => UInt8.ofNat c.toNat

@[simp] theorem length_bigEndian (width n : Nat) : (bigEndian width n).length = width := by
  induction width with
  | zero => rfl
  | succ width ih => simp [bigEndian, ih]

end Bytes

end DecisionService
