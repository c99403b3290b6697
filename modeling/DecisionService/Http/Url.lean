import DecisionService.Http.Host
/-!
# URLs

A URL is read leniently and written in one form. Its path is a list of segments, or a text without
segments in a URL that names no place. Segments can be put behind a path that has them.
-/
namespace DecisionService.Http

inductive Path
  | segments (list : List String)
  /-- The path of a URL that cannot have segments. -/
  | flat (text : String)
deriving DecidableEq, Repr

structure Url where
  scheme : String
  username : String
  password? : Option String
  host? : Option Host
  /-- The port, if it is not the one of the scheme. -/
  port? : Option Nat
  path : Path
  query? : Option String
  fragment? : Option String
deriving DecidableEq, Repr

/-! ## Schemes -/

namespace Scheme

/-- The schemes of the web: their URLs have a host and take a backslash for a slash. -/
def isWeb (scheme : String) : Bool :=
  ["http", "https", "ws", "wss", "ftp"].contains scheme

def isFile (scheme : String) : Bool :=
  scheme == "file"

def port? (scheme : String) : Option Nat :=
  match scheme with
  | "http" => some 80
  | "ws" => some 80
  | "https" => some 443
  | "wss" => some 443
  | "ftp" => some 21
  | _ => none

def isSchemeChar (c : Char) : Bool :=
  c.isAlphanum || c = '+' || c = '-' || c = '.'

def split (text : List Char) : Except UrlError (String × List Char) :=
  let scheme := text.takeWhile isSchemeChar
  match scheme.head?, text.dropWhile isSchemeChar with
  | some first, ':' :: rest =>
    if first.isAlpha then .ok (String.ofList (scheme.map Char.toLower), rest) else .error .noScheme
  | _, _ => .error .noScheme

end Scheme

/-! ## Segments -/

namespace Path

def undotted (segment : List Char) : List Char :=
  match segment with
  | '%' :: '2' :: 'e' :: rest => '.' :: undotted rest
  | '%' :: '2' :: 'E' :: rest => '.' :: undotted rest
  | c :: rest => c :: undotted rest
  | [] => []

def isHere (segment : List Char) : Bool :=
  undotted segment == ['.']

def isAbove (segment : List Char) : Bool :=
  undotted segment == ['.', '.']

/-- The segments of a path one after the other. One that leads nowhere new leaves an empty segment
where it stands last. -/
def resolve (path : List String) : List (List Char) → List String
  | [] => path
  | segment :: rest =>
    let opened := if rest.isEmpty then [""] else []
    if isAbove segment then resolve (path.dropLast ++ opened) rest
    else if isHere segment then resolve (path ++ opened) rest
    else resolve (path ++ [String.ofList segment]) rest

def ofText (separates : Char → Bool) (text : List Char) : List String :=
  resolve [] ((Text.split separates text).map (Percent.encode Percent.barredInPath))

def closed (path : List String) : List String :=
  if path.getLast? = some "" ∧ path ≠ [""] then path.dropLast else path

/-- The path with a segment put behind it. The path of nothing but an empty segment gives it its
place; two dots, which can only come from a text with line breaks or tabs in it, take one away. -/
def push (barred : Char → Bool) (text : List Char) (path : List String) : List String :=
  if text = ['.'] ∨ text = ['.', '.'] then path
  else
    let base := if path = [""] then [] else path
    let visible := text.filter fun c => c ≠ '\t' && c ≠ '\n' && c ≠ '\r'
    resolve base [Percent.encode barred visible]

def renderSegments (path : List String) : String :=
  String.join (path.map fun segment => "/" ++ segment)

end Path

/-! ## URLs -/

namespace Url

/-- The URL starts a path. Otherwise it names no place, and segments cannot be put behind it. -/
def hasSegments (u : Url) : Bool :=
  match u.path with
  | .segments (_ :: _) => true
  | .segments [] => u.host?.isSome
  | .flat _ => false

def cutTail (text : List Char) : List Char × Option (List Char) × Option (List Char) :=
  let front := text.takeWhile (· ≠ '#')
  let fragment? := match text.dropWhile (· ≠ '#') with
    | [] => none
    | _ :: fragment => some fragment
  match front.dropWhile (· ≠ '?') with
  | [] => (front, none, fragment?)
  | _ :: query => (front.takeWhile (· ≠ '?'), some query, fragment?)

def cutCredentials (text : List Char) : Option (List Char × List Char) × List Char :=
  if text.contains '@' then
    let back := (text.reverse.takeWhile (· ≠ '@')).reverse
    let front := text.take (text.length - back.length - 1)
    (some (front.takeWhile (· ≠ ':'), (front.dropWhile (· ≠ ':')).drop 1), back)
  else (none, text)

def cutPort : Bool → List Char → List Char × Option (List Char)
  | _, [] => ([], none)
  | bracketed, c :: rest =>
    if c = ':' ∧ ¬ bracketed then ([], some rest)
    else
      let bracketed := if c = '[' then true else if c = ']' then false else bracketed
      let (host, port?) := cutPort bracketed rest
      (c :: host, port?)

/-- A port of decimal digits; none of them is as good as no port. -/
def parsePort (scheme : String) (digits : List Char) : Except UrlError (Option Nat) :=
  if digits.isEmpty then .ok none
  else match Host.number? 10 digits with
    | some n =>
      if 2 ^ 16 ≤ n then .error .badPort
      else .ok (if Scheme.port? scheme = some n then none else some n)
    | none => .error .badPort

structure Authority where
  username : String
  password? : Option String
  host : Host
  port? : Option Nat

def encodeCredential (text : List Char) : String :=
  String.ofList (Percent.encode Percent.barredInCredentials text)

def parseHost (scheme : String) (needed : Bool) (text : List Char) : Except UrlError Host :=
  if text.isEmpty && (needed || Scheme.isWeb scheme) then .error .emptyHost
  else if Scheme.isWeb scheme then Host.parse text
  else Host.parseOther text

def parseAuthority (scheme : String) (text : List Char) : Except UrlError Authority := do
  let (credentials?, place) := cutCredentials text
  let (hostText, portText?) := cutPort false place
  let host ← parseHost scheme (credentials?.isSome || portText?.isSome) hostText
  let port? ← parsePort scheme (portText?.getD [])
  match credentials? with
  | none => return ⟨"", none, host, port?⟩
  | some (user, password) =>
    let password? := if password.isEmpty then none else some (encodeCredential password)
    return ⟨encodeCredential user, password?, host, port?⟩

def separatesWeb (c : Char) : Bool :=
  c = '/' || c = '\\'

def parseWeb (scheme : String) (text : List Char) : Except UrlError Url := do
  let text := text.dropWhile separatesWeb
  let authority ← parseAuthority scheme (text.takeWhile fun c => !separatesWeb c)
  let path := (text.dropWhile fun c => !separatesWeb c).drop 1
  return ⟨scheme, authority.username, authority.password?, some authority.host, authority.port?,
    .segments (Path.ofText separatesWeb path), none, none⟩

/-- The path of a file: the empty segments at its start do not count. -/
def filePath (text : List Char) : Path :=
  let segments := (Path.ofText separatesWeb text).dropWhile (· = "")
  .segments (if segments.isEmpty then [""] else segments)

def fileHost (text : List Char) : Except UrlError Host := do
  if text.isEmpty then return .name ""
  let host ← Host.parse text
  return if host = .name "localhost" then .name "" else host

def parseFile (scheme : String) (text : List Char) : Except UrlError Url := do
  match text with
  | a :: b :: rest =>
    if separatesWeb a && separatesWeb b then
      let host ← fileHost (rest.takeWhile fun c => !separatesWeb c)
      let path := (rest.dropWhile fun c => !separatesWeb c).drop 1
      return ⟨scheme, "", none, some host, none, filePath path, none, none⟩
    else
      let path := if separatesWeb a then b :: rest else text
      return ⟨scheme, "", none, some (.name ""), none, filePath path, none, none⟩
  | path =>
    return ⟨scheme, "", none, some (.name ""), none, filePath path, none, none⟩

def parseOther (scheme : String) (text : List Char) : Except UrlError Url := do
  match text with
  | '/' :: '/' :: rest =>
    let authority ← parseAuthority scheme (rest.takeWhile (· ≠ '/'))
    let path := match rest.dropWhile (· ≠ '/') with
      | [] => []
      | _ :: path => Path.ofText (· = '/') path
    return ⟨scheme, authority.username, authority.password?, some authority.host, authority.port?,
      .segments path, none, none⟩
  | '/' :: rest =>
    return ⟨scheme, "", none, none, none, .segments (Path.ofText (· = '/') rest), none, none⟩
  | text =>
    return ⟨scheme, "", none, none, none,
      .flat (String.ofList (Percent.encode Percent.isControl text)), none, none⟩

/-- The text that counts: nothing at the ends that cannot be seen, and no tabs or line breaks. -/
def visible (text : List Char) : List Char :=
  let isEdge (c : Char) : Bool := c.toNat ≤ 0x20
  let text := ((text.dropWhile isEdge).reverse.dropWhile isEdge).reverse
  text.filter fun c => c ≠ '\t' && c ≠ '\n' && c ≠ '\r'

def parse (text : String) : Except UrlError Url := do
  let (scheme, rest) ← Scheme.split (visible text.toList)
  let (front, query?, fragment?) := cutTail rest
  let url ←
    if Scheme.isFile scheme then parseFile scheme front
    else if Scheme.isWeb scheme then parseWeb scheme front
    else parseOther scheme front
  let barredInQuery :=
    if Scheme.isWeb scheme || Scheme.isFile scheme then Percent.barredInWebQuery
    else Percent.barredInQuery
  let encoded (barred : Char → Bool) (text : List Char) : String :=
    String.ofList (Percent.encode barred text)
  return { url with
    query? := query?.map (encoded barredInQuery),
    fragment? := fragment?.map (encoded Percent.barredInFragment) }

def renderCredentials (u : Url) : String :=
  match u.password? with
  | some password => s!"{u.username}:{password}@"
  | none => if u.username.isEmpty then "" else u.username ++ "@"

def renderHost (u : Url) : String :=
  match u.host? with
  | none => ""
  | some host =>
    "//" ++ u.renderCredentials ++ host.render
      ++ (match u.port? with
        | some port => s!":{port}"
        | none => "")

/-- A path of two slashes would read as a host, so something comes before it. -/
def renderPath (u : Url) : String :=
  match u.path with
  | .flat text => text
  | .segments ("" :: next :: rest) =>
    (if u.host?.isNone then "/." else "") ++ Path.renderSegments ("" :: next :: rest)
  | .segments path => Path.renderSegments path

def renderQuery (u : Url) : String :=
  match u.query? with
  | some query => "?" ++ query
  | none => ""

def renderFragment (u : Url) : String :=
  match u.fragment? with
  | some fragment => "#" ++ fragment
  | none => ""

def render (u : Url) : String :=
  u.scheme ++ ":" ++ u.renderHost ++ u.renderPath ++ u.renderQuery ++ u.renderFragment

def target (u : Url) : String :=
  u.renderPath ++ u.renderQuery

def withoutCredentials (u : Url) : Url :=
  { u with username := "", password? := none }

def push (texts : List String) (u : Url) : Url :=
  match u.path with
  | .flat _ => u
  | .segments path =>
    let barred :=
      if Scheme.isWeb u.scheme || Scheme.isFile u.scheme then Percent.barredInWebSegment
      else Percent.barredInSegment
    let pushed :=
      texts.foldl (fun path text => Path.push barred text.toList path) (Path.closed path)
    { u with path := .segments pushed }

end Url

end DecisionService.Http
