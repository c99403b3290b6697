/-!
# Punycode

Letters beyond ASCII written with ASCII letters and digits. The ASCII characters come first; then
every other character, from the smallest up, as the number of steps from the one before it, counting
all places where it could have stood. The digits of a step have the lowest first and end with one
below a threshold, which follows the size of the steps before.
-/
namespace DecisionService.Text.Punycode

def digit (n : Nat) : Char :=
  if n < 26 then Char.ofNat (0x61 + n) else Char.ofNat (0x30 + (n - 26))

def threshold (position bias : Nat) : Nat :=
  if position ≤ bias then 1 else if bias + 26 ≤ position then 26 else position - bias

def reduce (step position : Nat) : Nat × Nat :=
  if 455 < step then reduce (step / 35) (position + 36) else (step, position)
termination_by step
decreasing_by omega

def adapt (step count : Nat) (first : Bool) : Nat :=
  let scaled := if first then step / 700 else step / 2
  let (rest, position) := reduce (scaled + scaled / count) 0
  position + 36 * rest / (rest + 38)

/-- The digits of a step. `fuel` beyond the step makes no difference. -/
def stepDigits (bias : Nat) : Nat → Nat → Nat → List Char
  | 0, _, _ => []
  | fuel + 1, position, step =>
    let t := threshold position bias
    if step < t then [digit step]
    else digit (t + (step - t) % (36 - t))
      :: stepDigits bias fuel (position + 36) ((step - t) / (36 - t))

structure Progress where
  digits : List Char
  step : Nat
  bias : Nat
  count : Nat

def Progress.pass (n basicCount : Nat) (p : Progress) (c : Char) : Progress :=
  if c.toNat < n then { p with step := p.step + 1 }
  else if c.toNat = n then
    ⟨p.digits ++ stepDigits p.bias (p.step + 1) 36 p.step, 0,
      adapt p.step (p.count + 1) (p.count == basicCount), p.count + 1⟩
  else p

def encodeFrom (text : List Char) (basicCount : Nat) : List Nat → Nat → Progress → Progress
  | [], _, p => p
  | n :: later, next, p =>
    let p := { p with step := p.step + (n - next) * (p.count + 1) }
    let p := text.foldl (Progress.pass n basicCount) p
    encodeFrom text basicCount later (n + 1) { p with step := p.step + 1 }

def isAscii (c : Char) : Bool :=
  c.toNat < 0x80

def encode (text : List Char) : List Char :=
  let basic := text.filter isAscii
  let others := ((text.filter fun c => !isAscii c).map Char.toNat).mergeSort.eraseDups
  let p := encodeFrom text basic.length others 0x80 ⟨[], 0, 72, basic.length⟩
  basic ++ (if basic.isEmpty then [] else ['-']) ++ p.digits

end DecisionService.Text.Punycode
