import DecisionService.Http.Percent
import DecisionService.Settings.Basic
import DecisionService.Text.Split
/-!
# Settings in YAML

Keys and values by indentation, lists by dashes, collections between brackets, and texts with and
without quotes. Anchors, tags and texts that keep their line breaks are not understood.
-/
namespace DecisionService.Yaml

/-! ## Lines -/

structure Line where
  indent : Nat
  text : List Char
deriving DecidableEq, Repr

def isSpace (c : Char) : Bool :=
  c = ' ' || c = '\t'

def trimEnd (text : List Char) : List Char :=
  (text.reverse.dropWhile isSpace).reverse

def trim (text : List Char) : List Char :=
  trimEnd (text.dropWhile isSpace)

inductive Mode
  | plain (mayComment mayQuote : Bool)
  | quoted
  | escaped
  | single
deriving DecidableEq, Repr

/-- A line without the comment at its end. A quote that opens a text hides what looks like one. -/
def cutComment : Mode → List Char → List Char
  | _, [] => []
  | .plain mayComment mayQuote, c :: rest =>
    if mayComment && c = '#' then []
    else if mayQuote && c = '"' then c :: cutComment .quoted rest
    else if mayQuote && c = '\'' then c :: cutComment .single rest
    else
      let opens := isSpace c || c = '[' || c = '\x7b' || c = ','
      c :: cutComment (.plain (isSpace c) opens) rest
  | .quoted, c :: rest =>
    let next := if c = '"' then Mode.plain false false else if c = '\\' then .escaped else .quoted
    c :: cutComment next rest
  | .escaped, c :: rest => c :: cutComment .quoted rest
  | .single, c :: rest => c :: cutComment (if c = '\'' then .plain false true else .single) rest

def line? (text : List Char) : Option (Option Line) :=
  let body := text.dropWhile (· = ' ')
  let said := trimEnd (cutComment (.plain true true) body)
  if said.isEmpty then some none
  else if said.head? = some '\t' then none
  else some (some ⟨text.length - body.length, said⟩)

def lines? (text : List Char) : Option (List Line) := do
  let text := text.filter (· ≠ '\r')
  return (← (Text.split (· = '\n') text).mapM line?).filterMap id

/-! ## Scalars -/

def scalar (text : List Char) : Setting :=
  let integer? (text : List Char) : Option Int :=
    (Integer.readBetween (-(2 ^ 63)) (2 ^ 63 - 1) text).toOption
  let based? (base : Nat) (digits : List Char) : Option Int :=
    if digits.isEmpty then none
    else
      let n? := digits.foldlM (fun n c => do
        let d ← Http.Percent.digitValue c
        if d < base then some (n * base + d) else none) 0
      n?.bind fun (n : Nat) => if n < 2 ^ 63 then some (n : Int) else none
  let other : Setting :=
    match integer? text with
    | some n => .integer n
    | none =>
      match Binary64.read text with
      | some x => .real x
      | none => .text (String.ofList text)
  match String.ofList text with
  | "~" => .nothing
  | "null" => .nothing
  | "true" => .bool true
  | "false" => .bool false
  | ".inf" => .real (.infinity false)
  | ".Inf" => .real (.infinity false)
  | ".INF" => .real (.infinity false)
  | "+.inf" => .real (.infinity false)
  | "+.Inf" => .real (.infinity false)
  | "+.INF" => .real (.infinity false)
  | "-.inf" => .real (.infinity true)
  | "-.Inf" => .real (.infinity true)
  | "-.INF" => .real (.infinity true)
  | ".nan" => .real Binary64.nan
  | ".NaN" => .real Binary64.nan
  | _ =>
    match text with
    | '0' :: 'x' :: digits => ((based? 16 digits).map Setting.integer).getD other
    | '0' :: 'o' :: digits => ((based? 8 digits).map Setting.integer).getD other
    | _ => other

def letterEscape? : Char → Option Char
  | '0' => some '\x00'
  | 'a' => some '\x07'
  | 'b' => some '\x08'
  | 't' => some '\t'
  | '\t' => some '\t'
  | 'n' => some '\n'
  | 'v' => some '\x0b'
  | 'f' => some '\x0c'
  | 'r' => some '\r'
  | 'e' => some '\x1b'
  | ' ' => some ' '
  | '"' => some '"'
  | '\'' => some '\''
  | '\\' => some '\\'
  | '/' => some '/'
  | 'N' => some '\u0085'
  | '_' => some '\u00a0'
  | 'L' => some '\u2028'
  | 'P' => some '\u2029'
  | _ => none

def escapeWidth? : Char → Option Nat
  | 'x' => some 2
  | 'u' => some 4
  | 'U' => some 8
  | _ => none

def escape? : List Char → Option (Char × List Char)
  | [] => none
  | c :: rest =>
    match letterEscape? c, escapeWidth? c with
    | some c, _ => some (c, rest)
    | none, some width => do
      if rest.length < width then none
      else
        let n ← (rest.take width).foldlM (fun n c => do
          return n * 16 + (← Http.Percent.digitValue c)) 0
        if n.isValidChar then some (Char.ofNat n, rest.drop width) else none
    | none, none => none

def quoted? : Nat → List Char → Option (List Char × List Char)
  | _ + 1, '"' :: rest => some ([], rest)
  | fuel + 1, '\\' :: rest => do
    let (c, rest) ← escape? rest
    let (text, rest) ← quoted? fuel rest
    return (c :: text, rest)
  | fuel + 1, c :: rest => do
    let (text, rest) ← quoted? fuel rest
    return (c :: text, rest)
  | _, _ => none

def single? : List Char → Option (List Char × List Char)
  | '\'' :: '\'' :: rest => do
    let (text, rest) ← single? rest
    return ('\'' :: text, rest)
  | '\'' :: rest => some ([], rest)
  | c :: rest => do
    let (text, rest) ← single? rest
    return (c :: text, rest)
  | [] => none

/-! ## Values on one line -/

def isIndicator (c : Char) : Bool :=
  "&*!|>%@\x60[]\x7b\x7d,#\"'".contains c

def keyName? : Setting → Option String
  | .text t => some t
  | .integer n => some (String.ofList (Integer.text n))
  | _ => none

def flowPlain : List Char → List Char
  | [] => []
  | ':' :: rest =>
    match rest with
    | [] => []
    | c :: _ => if isSpace c || "[]\x7b\x7d,".contains c then [] else ':' :: flowPlain rest
  | c :: rest => if "[]\x7b\x7d,".contains c then [] else c :: flowPlain rest

mutual

def flow? : Nat → List Char → Option (Setting × List Char)
  | 0, _ => none
  | fuel + 1, text =>
    match text.dropWhile isSpace with
    | [] => none
    | '[' :: rest => (flowItems? fuel rest).map fun (items, rest) => (.list items, rest)
    | '\x7b' :: rest =>
      (flowMembers? fuel rest).map fun (entries, rest) => (.table (Entries.ofPairs entries), rest)
    | '"' :: rest =>
      (quoted? (rest.length + 1) rest).map fun (t, rest) => (.text (String.ofList t), rest)
    | '\'' :: rest => (single? rest).map fun (t, rest) => (.text (String.ofList t), rest)
    | c :: rest =>
      let plain := flowPlain (c :: rest)
      if isIndicator c || plain.isEmpty then none
      else some (scalar (trimEnd plain), (c :: rest).drop plain.length)

def flowItems? : Nat → List Char → Option (List Setting × List Char)
  | 0, _ => none
  | fuel + 1, text =>
    match text.dropWhile isSpace with
    | ']' :: rest => some ([], rest)
    | text => do
      let (item, rest) ← flow? fuel text
      match rest.dropWhile isSpace with
      | ']' :: rest => return ([item], rest)
      | ',' :: rest =>
        let (items, rest) ← flowItems? fuel rest
        return (item :: items, rest)
      | _ => none

def flowMembers? : Nat → List Char → Option (List (String × Setting) × List Char)
  | 0, _ => none
  | fuel + 1, text =>
    match text.dropWhile isSpace with
    | '\x7d' :: rest => some ([], rest)
    | text => do
      let (key, rest) ← flow? fuel text
      let name ← keyName? key
      let (s, rest) ← match rest.dropWhile isSpace with
        | ':' :: rest =>
          match rest.dropWhile isSpace with
          | ',' :: rest => some (Setting.nothing, ',' :: rest)
          | '\x7d' :: rest => some (Setting.nothing, '\x7d' :: rest)
          | rest => flow? fuel rest
        | rest => some (Setting.nothing, rest)
      match rest.dropWhile isSpace with
      | '\x7d' :: rest => return ([(name, s)], rest)
      | ',' :: rest =>
        let (entries, rest) ← flowMembers? fuel rest
        return ((name, s) :: entries, rest)
      | _ => none

end

def splitKey? : List Char → Option (List Char × List Char)
  | [] => none
  | [':'] => some ([], [])
  | ':' :: c :: rest => if isSpace c then some ([], trim rest) else do
    let (key, rest) ← splitKey? (c :: rest)
    return (':' :: key, rest)
  | c :: rest => do
    let (key, rest) ← splitKey? rest
    return (c :: key, rest)

def afterColon? (text : List Char) : Option (List Char) :=
  match text.dropWhile isSpace with
  | [':'] => some []
  | ':' :: c :: rest => if isSpace c then some (trim rest) else none
  | _ => none

def member? (text : List Char) : Option (String × List Char) := do
  match text with
  | '"' :: rest =>
    let (key, rest) ← quoted? (rest.length + 1) rest
    return (String.ofList key, ← afterColon? rest)
  | '\'' :: rest =>
    let (key, rest) ← single? rest
    return (String.ofList key, ← afterColon? rest)
  | c :: _ =>
    if isIndicator c then none
    else
      let (key, rest) ← splitKey? text
      return (← keyName? (scalar (trimEnd key)), rest)
  | [] => none

def item? (l : Line) : Option Line :=
  match l.text with
  | ['-'] => some ⟨l.indent + 1, []⟩
  | '-' :: c :: rest =>
    if isSpace c then
      let text := rest.dropWhile isSpace
      some ⟨l.indent + 2 + (rest.length - text.length), text⟩
    else none
  | _ => none

def value? (text : List Char) : Option Setting :=
  match text with
  | [] => some .nothing
  | c :: _ =>
    if c = '"' || c = '\'' || c = '[' || c = '\x7b' then
      match flow? (text.length + 1) text with
      | some (s, rest) => if (trim rest).isEmpty then some s else none
      | none => none
    else if isIndicator c || (item? ⟨0, text⟩).isSome || (splitKey? text).isSome then none
    else some (scalar text)

/-! ## Blocks -/

def deeper (indent : Nat) (lines : List Line) : List Line × List Line :=
  lines.span fun l => indent < l.indent

def joined (text : List Char) (lines : List Line) : List Char :=
  lines.foldl (fun text l => text ++ ' ' :: l.text) text

mutual

def block? : Nat → List Line → Option Setting
  | 0, _ => none
  | _, [] => some .nothing
  | fuel + 1, l :: rest =>
    if (item? l).isSome then (blockItems? fuel l.indent (l :: rest)).map .list
    else if (member? l.text).isSome then
      (blockMembers? fuel l.indent (l :: rest)).map fun entries => .table (Entries.ofPairs entries)
    else value? (joined l.text rest)

def blockItems? : Nat → Nat → List Line → Option (List Setting)
  | _, _, [] => some []
  | 0, _, _ => none
  | fuel + 1, indent, l :: rest => do
    if l.indent ≠ indent then none
    else
      let first ← item? l
      let (inner, rest) := deeper indent rest
      let s ← block? fuel (if first.text.isEmpty then inner else first :: inner)
      return s :: (← blockItems? fuel indent rest)

/-- The members of a table by indentation. A list may stand as far out as its key. -/
def blockMembers? : Nat → Nat → List Line → Option (List (String × Setting))
  | _, _, [] => some []
  | 0, _, _ => none
  | fuel + 1, indent, l :: rest => do
    if l.indent ≠ indent then none
    else
      let (name, text) ← member? l.text
      let (inner, rest) := deeper indent rest
      if !text.isEmpty then
        return (name, ← value? (joined text inner)) :: (← blockMembers? fuel indent rest)
      else if inner.isEmpty then
        let (inner, rest) := rest.span fun l => l.indent = indent && (item? l).isSome
        return (name, ← block? fuel inner) :: (← blockMembers? fuel indent rest)
      else return (name, ← block? fuel inner) :: (← blockMembers? fuel indent rest)

end

/-! ## Documents -/

/-- The lines of the only document: those behind its opening mark and before its closing one. -/
def document? (lines : List Line) : Option (List Line) :=
  let opens (l : Line) : Bool := l.indent = 0 && l.text = ['-', '-', '-']
  let closes (l : Line) : Bool := l.indent = 0 && l.text = ['.', '.', '.']
  let lines := lines.takeWhile fun l => !closes l
  let lines := match lines with
    | l :: rest => if opens l then rest else l :: rest
    | [] => []
  if lines.any opens then none else some lines

/-- The settings of a text, if the text is a table. A text that says nothing has none. -/
def read? (text : String) : Option Settings := do
  let lines ← lines? text.toList
  if lines.isEmpty then some []
  else
    let lines ← document? lines
    match ← block? (2 * text.length + 2) lines with
    | .table entries => some entries
    | _ => none

end DecisionService.Yaml
