import LintDesk.Path
import LintDesk.Url.Host

/-!
URLs in normal form: scheme and host in lower case, dot segments resolved, unsafe characters
percent-encoded. Two URLs are the same if their texts are.
-/

namespace LintDesk

structure Url where
  scheme : String
  /-- User, host and port as written after `//`; nothing if there is no `//`. -/
  authority : Option String := none
  host : String := ""
  path : String := ""
  /-- Whether the path is made of segments. -/
  hierarchical : Bool := true
  query : Option String := none
  fragment : Option String := none
  deriving DecidableEq, Repr, Inhabited

namespace Url

def text (u : Url) : String :=
  let authority := match u.authority with
    | some a => "//" ++ a
    | none => if u.hierarchical && u.path.startsWith "//" then "/." else ""
  u.scheme ++ ":" ++ authority ++ u.path ++ (u.query.elim "" ("?" ++ ·)) ++
    (u.fragment.elim "" ("#" ++ ·))

/-- The schemes with hosts and default ports, apart from files. -/
def defaultPort? (scheme : String) : Option Nat :=
  match scheme with
  | "http" => some 80
  | "https" => some 443
  | "ws" => some 80
  | "wss" => some 443
  | "ftp" => some 21
  | _ => none

def isSpecial (scheme : String) : Bool :=
  scheme == "file" || (defaultPort? scheme).isSome

def scheme? (s : List Char) : Option (String × List Char) :=
  match s with
  | c :: _ =>
    if c.isAlpha then
      let name := s.takeWhile fun c => c.isAlphanum || c == '+' || c == '-' || c == '.'
      match s.drop name.length with
      | ':' :: rest => some (String.ofList (name.map Char.toLower), rest)
      | _ => none
    else none
  | [] => none

def isSlash (special : Bool) (c : Char) : Bool :=
  c == '/' || (special && c == '\\')

/-- Whether a segment is a drive letter with a colon or a bar. -/
def isDriveLetter : List Char → Bool
  | [a, b] => a.isAlpha && (b == ':' || b == '|')
  | _ => false

/-- Whether a segment stands for the directory itself. -/
def isSingleDot (s : List Char) : Bool :=
  let t := s.map Char.toLower
  t == ['.'] || t == "%2e".toList

/-- Whether a segment stands for the parent directory. -/
def isDoubleDot (s : List Char) : Bool :=
  let t := s.map Char.toLower
  t == "..".toList || t == ".%2e".toList || t == "%2e.".toList || t == "%2e%2e".toList

/-- Removes the last segment; a drive letter at the start of a file path stays. -/
def shorten (file : Bool) (segments : List (List Char)) : List (List Char) :=
  match segments with
  | [s] => if file && isDriveLetter s then segments else []
  | _ => segments.dropLast

/-- Adds one segment to those before it. `last` says that no separator follows. -/
def addSegment (file : Bool) (done : List (List Char)) (segment : List Char) (last : Bool) :
    List (List Char) :=
  if isDoubleDot segment then
    let done := shorten file done
    if last then done ++ [[]] else done
  else if isSingleDot segment then
    if last then done ++ [[]] else done
  else
    let segment :=
      match segment with
      | [a, b] => if file && done.isEmpty && isDriveLetter segment then [a, ':'] else [a, b]
      | _ => segment
    done ++ [percentEncode inPath segment]

def splitSegments (special : Bool) : List Char → List (List Char)
  | [] => [[]]
  | c :: rest =>
    if isSlash special c then [] :: splitSegments special rest
    else match splitSegments special rest with
      | [] => [[c]]
      | part :: more => (c :: part) :: more

/-- The path of raw segments, dot segments resolved. -/
def resolvePath (file : Bool) : (done : List (List Char)) → List (List Char) → List (List Char)
  | done, [] => done
  | done, [s] => addSegment file done s true
  | done, s :: rest => resolvePath file (addSegment file done s false) rest

/-- The text of a path whose leading separator has been read. -/
def pathText (scheme : String) (s : List Char) : String :=
  let segments := resolvePath (scheme == "file") [] (splitSegments (isSpecial scheme) s)
  String.ofList ('/' :: List.intercalate ['/'] segments)

/-- Cuts the fragment and the query off. -/
def cutTail (scheme : String) (s : List Char) : List Char × Option String × Option String :=
  let front := s.takeWhile (· ≠ '#')
  let fragment := match s.drop front.length with
    | _ :: rest => some (String.ofList (percentEncode inFragment rest))
    | [] => none
  let body := front.takeWhile (· ≠ '?')
  let query := match front.drop body.length with
    | _ :: rest => some (String.ofList (percentEncode (inQuery (isSpecial scheme)) rest))
    | [] => none
  (body, query, fragment)

/-- Splits an authority at its last `@`. -/
def splitUser (s : List Char) : Option (List Char) × List Char :=
  let host := (s.reverse.takeWhile (· ≠ '@')).reverse
  if host.length = s.length then (none, s) else (some (s.take (s.length - host.length - 1)), host)

/-- User name and password as written in front of a host. -/
def userText (s : List Char) : List Char :=
  let name := s.takeWhile (· ≠ ':')
  let password := s.drop (name.length + 1)
  let name := percentEncode inUserInfo name
  let password := percentEncode inUserInfo password
  if password.isEmpty then (if name.isEmpty then [] else name ++ ['@'])
  else name ++ [':'] ++ password ++ ['@']

/-- Splits a host from its port; colons in brackets belong to the host. -/
def splitPort : (bracket : Bool) → List Char → List Char × Option (List Char)
  | _, [] => ([], none)
  | bracket, c :: rest =>
    if c == ':' && !bracket then ([], some rest)
    else
      let bracket := if c == '[' then true else if c == ']' then false else bracket
      let (host, port) := splitPort bracket rest
      (c :: host, port)

/-- The port as written, nothing for the default one. -/
def portText? (scheme : String) (digits : List Char) : Option (List Char) :=
  if digits.all Char.isDigit then
    let n := (Json.digits digits).1
    if n > 65535 then none
    else if digits.isEmpty ∨ defaultPort? scheme = some n then some []
    else some (':' :: (toString n).toList)
  else none

/-- An authority in normal form and its host. -/
def authority? (scheme : String) (s : List Char) : Option (String × String) := do
  let (user, rest) := splitUser s
  let (hostPart, port) := splitPort false rest
  if hostPart.isEmpty then
    if isSpecial scheme ∨ port.isSome ∨ user.isSome then none else return ("", "")
  else
    let host ← host? (isSpecial scheme) hostPart
    let port ← portText? scheme (port.getD [])
    let user := user.elim [] userText
    return (String.ofList (user ++ host ++ port), String.ofList host)

/-- The rest of a URL after `//`. -/
def afterSlashes (scheme : String) (s : List Char) : Option Url := do
  let special := isSpecial scheme
  let (body, query, fragment) := cutTail scheme s
  let raw := body.takeWhile (!isSlash special ·)
  let (authority, host) ← authority? scheme raw
  let path := match body.drop raw.length with
    | [] => if special then "/" else ""
    | _ :: rest => pathText scheme rest
  return { scheme, authority := some authority, host, path, query, fragment }

def fileUrl (s : List Char) : Option Url :=
  let (body, query, fragment) := cutTail "file" s
  let build (host : List Char) (path : List Char) : Url :=
    { scheme := "file", authority := some (String.ofList host), host := String.ofList host,
      path := pathText "file" path, query, fragment }
  match body with
  | c :: d :: rest =>
    if isSlash true c && isSlash true d then
      let raw := rest.takeWhile (!isSlash true ·)
      if isDriveLetter raw then some (build [] rest)
      else do
        let host ← if raw.isEmpty then some [] else host? true raw
        let host := if String.ofList host = "localhost" then [] else host
        let path := (rest.drop raw.length).drop 1
        let drive := isDriveLetter ((splitSegments true path).headD [])
        return build (if drive then [] else host) path
    else if isSlash true c then some (build [] (d :: rest))
    else some (build [] body)
  | [c] => some (build [] (if isSlash true c then [] else body))
  | [] => some (build [] [])

/-- Reads an absolute URL. Control characters and blanks around it are ignored, tabs and line
breaks anywhere. -/
def parse? (input : String) : Option Url := do
  let trim (s : List Char) : List Char := s.dropWhile (·.toNat ≤ 32)
  let s := (trim (trim input.toList).reverse).reverse
  let s := s.filter fun c => !(c == '\t' || c == '\n' || c == '\r')
  let (scheme, rest) ← scheme? s
  if scheme = "file" then fileUrl rest
  else if isSpecial scheme then afterSlashes scheme (rest.dropWhile (isSlash true))
  else
    match rest with
    | '/' :: '/' :: tail => afterSlashes scheme tail
    | _ =>
      let (body, query, fragment) := cutTail scheme rest
      match body with
      | '/' :: tail => return { scheme, path := pathText scheme tail, query, fragment }
      | _ =>
        return { scheme, path := String.ofList (percentEncode isControl body),
                 hierarchical := false, query, fragment }

def lastSegment? (u : Url) : Option String :=
  if u.hierarchical && u.path.startsWith "/" then
    ((splitAtChar '/' u.path.toList).getLast?).map String.ofList
  else none

def filePath? (u : Url) : Option Path :=
  if u.hierarchical && u.path.startsWith "/" && (u.host == "" || u.host == "localhost") then
    let decoded := (splitAtChar '/' (u.path.toList.drop 1)).map fun s => textOfBytes (percentBytes s)
    let joined := decoded.flatMap ('/' :: ·)
    let drive := joined.length > 2 && isDriveLetter (joined.drop (joined.length - 2))
    some ⟨String.ofList (if drive then joined ++ ['/'] else joined)⟩
  else none

def ofFilePath? (p : Path) : Option Url :=
  if p.isAbsolute then
    let segments := (p.components.drop 1).map fun c =>
      String.ofList ('/' :: percentEncode inSegment c.text.toList)
    some { scheme := "file", authority := some "", path := if segments.isEmpty then "/" else String.join segments }
  else none

/-- The URL of an absolute directory, with a separator at its end. -/
def ofDirectory? (p : Path) : Option Url :=
  (ofFilePath? p).map fun u => if u.path.endsWith "/" then u else { u with path := u.path ++ "/" }

end Url

end LintDesk
