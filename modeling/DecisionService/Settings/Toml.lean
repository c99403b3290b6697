import DecisionService.Http.Percent
import DecisionService.Settings.Basic
import DecisionService.Text.Split
/-!
# Settings in TOML

Lines of a key and a value, gathered in tables by headers and by keys with dots. A table is defined
in one place: what a header or a value has defined cannot be extended from elsewhere.
-/
namespace DecisionService.Toml

def isSpace (c : Char) : Bool :=
  c = ' ' || c = '\t'

def skipSpace (text : List Char) : List Char :=
  text.dropWhile isSpace

def isVisible (c : Char) : Bool :=
  c = '\t' || (0x20 ≤ c.toNat && c.toNat ≠ 0x7F)

def newline? : List Char → Option (List Char)
  | '\n' :: rest => some rest
  | '\r' :: '\n' :: rest => some rest
  | _ => none

def skipComment : List Char → List Char
  | '#' :: rest => rest.dropWhile isVisible
  | text => text

def lineEnd? (text : List Char) : Option (List Char) :=
  match skipComment (skipSpace text) with
  | [] => some []
  | text => newline? text

def skipLines : Nat → List Char → List Char
  | 0, text => text
  | fuel + 1, text =>
    let text := skipComment (skipSpace text)
    match newline? text with
    | some rest => skipLines fuel rest
    | none => text

/-! ## Texts -/

def numbered? (digits : List Char) (rest : List Char) : Option (Char × List Char) := do
  let n ← digits.foldlM (fun n c => do return n * 16 + (← Http.Percent.digitValue c)) 0
  if n.isValidChar then some (Char.ofNat n, rest) else none

def escape? : List Char → Option (Char × List Char)
  | 'b' :: rest => some ('\x08', rest)
  | 't' :: rest => some ('\t', rest)
  | 'n' :: rest => some ('\n', rest)
  | 'f' :: rest => some ('\x0c', rest)
  | 'r' :: rest => some ('\r', rest)
  | '"' :: rest => some ('"', rest)
  | '\\' :: rest => some ('\\', rest)
  | 'u' :: rest => if rest.length < 4 then none else numbered? (rest.take 4) (rest.drop 4)
  | 'U' :: rest => if rest.length < 8 then none else numbered? (rest.take 8) (rest.drop 8)
  | _ => none

def quoted? : Nat → List Char → Option (List Char × List Char)
  | _ + 1, '"' :: rest => some ([], rest)
  | fuel + 1, '\\' :: rest => do
    let (c, rest) ← escape? rest
    let (text, rest) ← quoted? fuel rest
    return (c :: text, rest)
  | fuel + 1, c :: rest => do
    if isVisible c then
      let (text, rest) ← quoted? fuel rest
      return (c :: text, rest)
    else none
  | _, _ => none

def literal? (rest : List Char) : Option (List Char × List Char) :=
  let text := rest.takeWhile fun c => isVisible c && c ≠ '\''
  match rest.drop text.length with
  | '\'' :: rest => some (text, rest)
  | _ => none

def hidden? (rest : List Char) : Option (List Char) :=
  (newline? (skipSpace rest)).map fun rest =>
    rest.dropWhile fun c => isSpace c || c = '\n' || c = '\r'

/-- A text of several lines behind its three opening quotes. Of up to five quotes the last three
close it. -/
def longText? (quote : Char) (escapes : Bool) : Nat → List Char → Option (List Char × List Char)
  | 0, _ => none
  | fuel + 1, text =>
    let quotes := text.takeWhile (· = quote)
    if 3 ≤ quotes.length then
      if 5 < quotes.length then none
      else some (quotes.drop 3, text.drop quotes.length)
    else
      match text, newline? text with
      | _, some rest => do
        let (text, rest) ← longText? quote escapes fuel rest
        return ('\n' :: text, rest)
      | [], none => none
      | c :: rest, none =>
        if escapes && c = '\\' then
          match hidden? rest with
          | some rest => longText? quote escapes fuel rest
          | none => do
            let (c, rest) ← escape? rest
            let (text, rest) ← longText? quote escapes fuel rest
            return (c :: text, rest)
        else if isVisible c then do
          let (text, rest) ← longText? quote escapes fuel rest
          return (c :: text, rest)
        else none

def openLong (rest : List Char) : List Char :=
  (newline? rest).getD rest

/-! ## Keys -/

def isBare (c : Char) : Bool :=
  c.isAlphanum || c = '_' || c = '-'

def name? (text : List Char) : Option (String × List Char) :=
  match text with
  | '"' :: rest => (quoted? text.length rest).map fun (t, rest) => (String.ofList t, rest)
  | '\'' :: rest => (literal? rest).map fun (t, rest) => (String.ofList t, rest)
  | _ =>
    let name := text.takeWhile isBare
    if name.isEmpty then none else some (String.ofList name, text.drop name.length)

def key? : Nat → List Char → Option (List String × List Char)
  | 0, _ => none
  | fuel + 1, text => do
    let (name, rest) ← name? (skipSpace text)
    match skipSpace rest with
    | '.' :: rest =>
      let (names, rest) ← key? fuel rest
      return (name :: names, rest)
    | rest => return ([name], rest)

/-! ## Numbers and times -/

def digits? (isDigit : Char → Bool) (text : List Char) : Option (List Char) :=
  let groups := Text.split (· = '_') text
  if groups.all fun group => !group.isEmpty && group.all isDigit then some groups.flatten else none

def whole? (text : List Char) : Option (List Char) :=
  match digits? Char.isDigit text with
  | some ('0' :: _ :: _) => none
  | digits => digits

def integer (n : Int) : Option Setting :=
  if -(2 ^ 63) ≤ n ∧ n < 2 ^ 63 then some (.integer n) else none

def based? (base : Nat) (text : List Char) : Option Setting := do
  let isDigit (c : Char) : Bool := (Http.Percent.digitValue c).any (· < base)
  let digits ← digits? isDigit text
  integer (digits.foldl (fun n c => n * base + (Http.Percent.digitValue c).getD 0) 0 : Nat)

def cutSign (text : List Char) : Bool × List Char :=
  match text with
  | '-' :: rest => (true, rest)
  | '+' :: rest => (false, rest)
  | _ => (false, text)

def exponent? (text : List Char) : Option Int := do
  let (negative, text) := cutSign text
  let digits ← digits? Char.isDigit text
  let n : Int := Integer.ofDigits digits
  return if negative then -n else n

def real? (negative : Bool) (text : List Char) : Option Setting := do
  let isMark (c : Char) : Bool := c = 'e' || c = 'E'
  let base := text.takeWhile fun c => !isMark c
  let exponent ← match text.drop base.length with
    | [] => some 0
    | _ :: exponent => exponent? exponent
  let whole ← whole? (base.takeWhile (· ≠ '.'))
  let fraction ← match base.dropWhile (· ≠ '.') with
    | [] => some []
    | _ :: fraction => digits? Char.isDigit fraction
  let x := Binary64.ofDecimalDigits negative (Integer.ofDigits (whole ++ fraction))
    (exponent - fraction.length)
  if x.isInfinite then none else return .real x

def decimal? (text : List Char) : Option Setting :=
  let (negative, body) := cutSign text
  if body = "inf".toList then some (.real (.infinity negative))
  else if body = "nan".toList then
    some (.real (if negative then Binary64.nan.neg else Binary64.nan))
  else
    match whole? body with
    | some digits =>
      let n : Int := Integer.ofDigits digits
      integer (if negative then -n else n)
    | none => if body.any fun c => c = '.' || c = 'e' || c = 'E' then real? negative body else none

def isPair (most : Nat) : List Char → Bool
  | [a, b] => a.isDigit && b.isDigit && Integer.ofDigits [a, b] ≤ most
  | _ => false

def daysOf (year month : Nat) : Nat :=
  if month = 2 then
    if year % 4 = 0 && (year % 100 ≠ 0 || year % 400 = 0) then 29 else 28
  else if month = 4 || month = 6 || month = 9 || month = 11 then 30
  else 31

def isDate (text : List Char) : Bool :=
  match Text.split (· = '-') text with
  | [year, month, day] =>
    let m := Integer.ofDigits month
    year.length = 4 && year.all Char.isDigit && isPair 12 month && 1 ≤ m
      && isPair (daysOf (Integer.ofDigits year) m) day && 1 ≤ Integer.ofDigits day
  | _ => false

/-- A fraction of a second: nine digits at most count, and no zeros at their end. -/
def fractionText (digits : List Char) : List Char :=
  let digits := ((digits.take 9).reverse.dropWhile (· = '0')).reverse
  if digits.isEmpty then [] else '.' :: digits

def time? (text : List Char) : Option (List Char) :=
  let clock := text.takeWhile (· ≠ '.')
  match Text.split (· = ':') clock with
  | [hour, minute, second] =>
    if isPair 23 hour && isPair 59 minute && isPair 60 second then
      match text.drop clock.length with
      | [] => some clock
      | _ :: fraction =>
        if fraction.isEmpty || !fraction.all Char.isDigit then none
        else some (clock ++ fractionText fraction)
    else none
  | _ => none

def zonedTime? (text : List Char) : Option (List Char) :=
  let time := text.takeWhile fun c => c.isDigit || c = ':' || c = '.'
  match text.drop time.length with
  | [] => time? time
  | ['Z'] => (time? time).map (· ++ ['Z'])
  | ['z'] => (time? time).map (· ++ ['Z'])
  | sign :: distance =>
    match Text.split (· = ':') distance with
    | [hour, minute] =>
      if (sign = '+' || sign = '-') && isPair 23 hour && isPair 59 minute then
        (time? time).map (· ++ sign :: distance)
      else none
    | _ => none

def moment? (text : List Char) : Option Setting :=
  let date := text.take 10
  let found :=
    if isDate date then
      match text.drop 10 with
      | [] => some date
      | separator :: time =>
        if separator = 'T' || separator = 't' || separator = ' ' then
          (zonedTime? time).map fun time => date ++ 'T' :: time
        else none
    else time? text
  found.map fun t => .text (String.ofList t)

def isPlain (c : Char) : Bool :=
  c.isAlphanum || c = '+' || c = '-' || c = '_' || c = '.' || c = ':'

def plain? (text : List Char) : Option Setting :=
  match text with
  | '0' :: 'x' :: digits => based? 16 digits
  | '0' :: 'o' :: digits => based? 8 digits
  | '0' :: 'b' :: digits => based? 2 digits
  | _ =>
    if text = "true".toList then some (.bool true)
    else if text = "false".toList then some (.bool false)
    else if text.contains ':' || isDate text then moment? text
    else decimal? text

/-- A plain text. Between a date and a time there may be one space. -/
def cutPlain (text : List Char) : List Char × List Char :=
  let first := text.takeWhile isPlain
  match text.drop first.length with
  | ' ' :: c :: rest =>
    if isDate first && c.isDigit then
      let second := (c :: rest).takeWhile isPlain
      (first ++ ' ' :: second, (c :: rest).drop second.length)
    else (first, ' ' :: c :: rest)
  | rest => (first, rest)

/-! ## Tables -/

inductive Node
  | value (s : Setting)
  /-- A table that a header has not yet defined may be extended; so far it may be known through
  keys with dots. -/
  | table (extensible dotted : Bool) (entries : List (String × Node))
  /-- A list of tables of which the last is being filled. -/
  | tables (earlier : List (List (String × Node))) (last : List (String × Node))

mutual

def Node.setting : Node → Setting
  | .value s => s
  | .table _ _ entries => .table (settings entries)
  | .tables earlier last => .list (tables earlier ++ [.table (settings last)])

def settings : List (String × Node) → Settings
  | [] => []
  | (name, node) :: rest => (name, node.setting) :: settings rest

def tables : List (List (String × Node)) → List Setting
  | [] => []
  | entries :: rest => .table (settings entries) :: tables rest

end

/-- The entries with the table at the end of a path changed. Tables on the way are made where there
are none. Keys with dots do not enter tables that a header has defined. -/
def change (dotted : Bool) (f : Bool → Entries Node → Option (Entries Node)) :
    List String → Bool → Entries Node → Option (Entries Node)
  | [], here, entries => f here entries
  | name :: path, _, entries =>
    match entries.get? name with
    | none => do
      return entries.put name (.table true dotted (← change dotted f path dotted []))
    | some (.value _) => none
    | some (.table extensible isDotted inner) => do
      if dotted && !extensible then none
      else
        let changed ← change dotted f path isDotted inner
        return entries.put name (.table extensible isDotted changed)
    | some (.tables earlier last) => do
      return entries.put name (.tables earlier (← change dotted f path false last))

def assign (key : List String) (s : Setting) (entries : Entries Node) : Option (Entries Node) :=
  match key.reverse with
  | [] => none
  | name :: front =>
    change true (fun isDotted inner =>
      if !front.isEmpty && !isDotted then none
      else if inner.contains name then none
      else some (inner.put name (.value s))) front.reverse false entries

def openTable (path : List String) (root : Entries Node) : Option (Entries Node) :=
  match path.reverse with
  | [] => none
  | name :: front =>
    change false (fun _ inner =>
      match inner.get? name with
      | none => some (inner.put name (.table false false []))
      | some (.table true false entries) => some (inner.put name (.table false false entries))
      | _ => none) front.reverse false root

def openNext (path : List String) (root : Entries Node) : Option (Entries Node) :=
  match path.reverse with
  | [] => none
  | name :: front =>
    change false (fun _ inner =>
      match inner.get? name with
      | none => some (inner.put name (.tables [] []))
      | some (.tables earlier last) => some (inner.put name (.tables (earlier ++ [last]) []))
      | _ => none) front.reverse false root

/-! ## Values -/

mutual

def value? : Nat → List Char → Option (Setting × List Char)
  | 0, _ => none
  | fuel + 1, text =>
    let asText (read : Option (List Char × List Char)) : Option (Setting × List Char) :=
      read.map fun (t, rest) => (.text (String.ofList t), rest)
    match text with
    | '"' :: '"' :: '"' :: rest => asText (longText? '"' true text.length (openLong rest))
    | '"' :: rest => asText (quoted? text.length rest)
    | '\'' :: '\'' :: '\'' :: rest => asText (longText? '\'' false text.length (openLong rest))
    | '\'' :: rest => asText (literal? rest)
    | '[' :: rest => (items? fuel rest).map fun (items, rest) => (.list items, rest)
    | '\x7b' :: rest =>
      match skipSpace rest with
      | '\x7d' :: rest => some (.table [], rest)
      | rest => (members? fuel rest []).map fun (entries, rest) => (.table (settings entries), rest)
    | _ =>
      let (plain, rest) := cutPlain text
      (plain? plain).map fun s => (s, rest)

def items? : Nat → List Char → Option (List Setting × List Char)
  | 0, _ => none
  | fuel + 1, text =>
    match skipLines text.length text with
    | ']' :: rest => some ([], rest)
    | text => do
      let (s, rest) ← value? fuel text
      match skipLines rest.length rest with
      | ']' :: rest => return ([s], rest)
      | ',' :: rest =>
        let (items, rest) ← items? fuel rest
        return (s :: items, rest)
      | _ => none

def members? : Nat → List Char → Entries Node → Option (Entries Node × List Char)
  | 0, _, _ => none
  | fuel + 1, text, entries => do
    let (key, rest) ← key? (text.length + 1) text
    match rest with
    | '=' :: rest =>
      let (s, rest) ← value? fuel (skipSpace rest)
      let entries ← assign key s entries
      match skipSpace rest with
      | '\x7d' :: rest => return (entries, rest)
      | ',' :: rest => members? fuel rest entries
      | _ => none
    | _ => none

end

/-! ## Documents -/

structure Draft where
  root : Entries Node
  path : List String

def header? (closing : List Char) (text : List Char) : Option (List String × List Char) := do
  let (path, rest) ← key? (text.length + 1) text
  if rest.take closing.length = closing then
    let rest ← lineEnd? (rest.drop closing.length)
    return (path, rest)
  else none

def assignLine (d : Draft) (text : List Char) : Option (Draft × List Char) := do
  let (key, rest) ← key? (text.length + 1) text
  match rest with
  | '=' :: rest =>
    let (s, rest) ← value? (text.length + 1) (skipSpace rest)
    let root ← change false (fun _ entries => assign key s entries) d.path false d.root
    return ({ d with root := root }, ← lineEnd? rest)
  | _ => none

def line? (d : Draft) (text : List Char) : Option (Draft × List Char) :=
  match skipSpace text with
  | '[' :: '[' :: rest => do
    let (path, rest) ← header? [']', ']'] rest
    return (⟨← openNext path d.root, path⟩, rest)
  | '[' :: rest => do
    let (path, rest) ← header? [']'] rest
    return (⟨← openTable path d.root, path⟩, rest)
  | text =>
    match lineEnd? text with
    | some rest => some (d, rest)
    | none => assignLine d text

def lines? : Nat → Draft → List Char → Option Draft
  | _, d, [] => some d
  | 0, _, _ => none
  | fuel + 1, d, text => do
    let (d, rest) ← line? d text
    lines? fuel d rest

def read? (text : String) : Option Settings :=
  let text := match text.toList with
    | '\uFEFF' :: rest => rest
    | text => text
  (lines? (text.length + 1) ⟨[], []⟩ text).map fun d => settings d.root

end DecisionService.Toml
