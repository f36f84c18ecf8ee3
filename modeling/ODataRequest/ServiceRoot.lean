import ODataRequest.Host.Basic

/-!
# ODataRequest.ServiceRoot

Service roots, which are absolute `http` or `https` URLs in their normal form: scheme and host are
in lower case, the default port is left out, the path starts with a slash and has no dot segments,
and characters that may not stand in a URL are percent-encoded. A letter with a colon or a bar
behind it names a drive in a path, and two dots do not lead out of a drive.
-/

namespace ODataRequest

/-- A scheme that a service is reached by. -/
inductive Scheme where
  | http
  | https
deriving DecidableEq, Repr

namespace Scheme

/-- The name of a scheme. -/
def name : Scheme → String
  | .http => "http"
  | .https => "https"

/-- The port that is meant if none is given. -/
def defaultPort : Scheme → Nat
  | .http => 80
  | .https => 443

end Scheme

/-- A service root in normal form. -/
structure ServiceRoot where
  scheme : Scheme
  userInfo : Option String
  host : Host
  port : Option Nat
  path : String
  query : Option String
  fragment : Option String
deriving DecidableEq, Repr

namespace ServiceRoot

/-- The text of a service root. -/
def text (r : ServiceRoot) : String :=
  r.scheme.name ++ "://" ++ (r.userInfo.map (· ++ "@")).getD "" ++ r.host.text ++
    (r.port.map fun p => ":" ++ toString p).getD "" ++ r.path ++
    (r.query.map ("?" ++ ·)).getD "" ++ (r.fragment.map ("#" ++ ·)).getD ""

/-! ### Reading -/

/-- A control character or a space. -/
def isControlOrSpace (c : Char) : Bool :=
  c.toNat ≤ 0x20

/-- A text without control characters and spaces at its ends, and without tabs and line ends. -/
def cleaned (cs : List Char) : List Char :=
  let cs := cs.dropWhile isControlOrSpace
  let cs := (cs.reverse.dropWhile isControlOrSpace).reverse
  cs.filter fun c => !(c == '\t' || c == '\n' || c == '\r')

/-- A text in which the characters that satisfy `escaped`, and all that are not ASCII, are
percent-encoded. -/
def escape (escaped : Char → Bool) (cs : List Char) : String :=
  String.ofList (cs.flatMap fun c =>
    if c.toNat ≤ 0x20 || 0x7F ≤ c.toNat || escaped c then
      (String.utf8EncodeChar c).flatMap Text.escapeByte
    else [c])

/-- Characters that are escaped in a path. -/
def escapedInPath (c : Char) : Bool :=
  ['"', '#', '<', '>', '?', '\x60', '\x7b', '\x7d'].contains c

/-- Characters that are escaped in user information. -/
def escapedInUserInfo (c : Char) : Bool :=
  escapedInPath c || ['/', ':', ';', '=', '@', '[', '\\', ']', '^', '|'].contains c

/-- Characters that are escaped in a query. -/
def escapedInQuery (c : Char) : Bool :=
  ['"', '#', '<', '>', '\''].contains c

/-- Characters that are escaped in a fragment. -/
def escapedInFragment (c : Char) : Bool :=
  ['"', '<', '>', '\x60'].contains c

/-- A slash of either kind. -/
def isSlash (c : Char) : Bool :=
  c == '/' || c == '\\'

/-- The parts of an address before and after the colon in front of the port; brackets around the
host protect its colons. -/
def cutAtPort : List Char → List Char × List Char
  | '[' :: cs =>
    match Text.cutAt? ']' cs with
    | some (inside, rest) =>
      let (behind, port) := (Text.cutAt? ':' rest).getD (rest, [])
      ('[' :: inside ++ ']' :: behind, port)
    | none => ('[' :: cs, [])
  | cs => (Text.cutAt? ':' cs).getD (cs, [])

/-- A port; the default one of the scheme counts as none. The outer option is for a text that is no
port. -/
def port? (scheme : Scheme) (cs : List Char) : Option (Option Nat) :=
  if cs.isEmpty then some none
  else
    match Text.digits? cs with
    | some n =>
      if n < Nat.pow 2 16 then some (if n = scheme.defaultPort then none else some n) else none
    | none => none

/-- The parts before and after the last `sep`. -/
def cutAtLast? (sep : Char) (cs : List Char) : Option (List Char × List Char) :=
  (Text.cutAt? sep cs.reverse).map fun parts => (parts.2.reverse, parts.1.reverse)

/-- Is a segment of a path a dot, which stands for the segment itself? -/
def isDot (cs : List Char) : Bool :=
  [".".toList, "%2e".toList].contains (cs.map Char.toLower)

/-- Is a segment of a path two dots, which stand for the segment around it? -/
def isTwoDots (cs : List Char) : Bool :=
  ["..".toList, ".%2e".toList, "%2e.".toList, "%2e%2e".toList].contains (cs.map Char.toLower)

/-- Does a segment of a path name a drive? -/
def isDrive : List Char → Bool
  | [letter, mark] => letter.isAlpha && (mark == ':' || mark == '|')
  | _ => false

/-- The segments that two dots lead to from behind some segments, the last one first. -/
def around : List (List Char) → List (List Char)
  | [] => []
  | last :: earlier => if isDrive last then last :: earlier else earlier

/-- The segments of a path without dot segments, the last one first; `kept` are those in front. -/
def withoutDots : (kept : List (List Char)) → List (List Char) → List (List Char)
  | kept, [] => kept
  | kept, [last] =>
    if isTwoDots last then [] :: around kept
    else if isDot last then [] :: kept
    else last :: kept
  | kept, segment :: rest =>
    if isTwoDots segment then withoutDots (around kept) rest
    else if isDot segment then withoutDots kept rest
    else withoutDots (segment :: kept) rest

/-- A path in normal form. -/
def normalPath (cs : List Char) : String :=
  let slashed := cs.map fun c => if isSlash c then '/' else c
  let segments := Text.pieces '/' (if slashed.head? = some '/' then slashed.tail else slashed)
  String.join ((withoutDots [] segments).reverse.map fun s => "/" ++ escape escapedInPath s)

/-- User information in normal form; empty information counts as none. -/
def userInfo? (cs : List Char) : Option String :=
  let (name, password) := (Text.cutAt? ':' cs).getD (cs, [])
  if name.isEmpty && password.isEmpty then none
  else if password.isEmpty then some (escape escapedInUserInfo name)
  else some (escape escapedInUserInfo name ++ ":" ++ escape escapedInUserInfo password)

/-- Read what follows the slashes behind the scheme. -/
def ofAuthority? (scheme : Scheme) (cs : List Char) : Option ServiceRoot := do
  let ends := fun c : Char => isSlash c || c == '?' || c == '#'
  let authority := cs.takeWhile (!ends ·)
  let rest := cs.dropWhile (!ends ·)
  let (info, address) := (cutAtLast? '@' authority).getD ([], authority)
  let (host, port) := cutAtPort address
  let host ← Host.ofText? host
  let port ← port? scheme port
  let (rest, fragment) :=
    match Text.cutAt? '#' rest with
    | some (before, after) => (before, some (escape escapedInFragment after))
    | none => (rest, none)
  let (rest, query) :=
    match Text.cutAt? '?' rest with
    | some (before, after) => (before, some (escape escapedInQuery after))
    | none => (rest, none)
  return { scheme, userInfo := userInfo? info, host, port, path := normalPath rest, query,
           fragment }

/-- Read a service root. -/
def ofString? (s : String) : Option ServiceRoot := do
  let (scheme, rest) ← Text.cutAt? ':' (cleaned s.toList)
  let rest := rest.dropWhile isSlash
  if Text.equalIgnoringCase scheme "http".toList then ofAuthority? .http rest
  else if Text.equalIgnoringCase scheme "https".toList then ofAuthority? .https rest
  else none

end ServiceRoot

end ODataRequest
