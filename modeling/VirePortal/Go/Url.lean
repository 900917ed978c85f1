import VirePortal.Go.Strings

/-!
# Package net/url

The URLs of Go's `net/url`: percent-encoding per component (`Encoding`), `Parse`, `URL.String`, and
query values. `URL.EscapedPath` is the path as it goes on the wire, so a server that routes by
standard URL parsing sees its segments.
-/

namespace VirePortal.Go

/-- The component that a string is encoded for. -/
inductive Encoding where
  | path
  | pathSegment
  | host
  | zone
  | userPassword
  | queryComponent
  | fragment
  deriving DecidableEq

/-- The bytes that `shouldEscape` lets a host or a zone keep beside letters and digits. -/
def hostBytes : Str := "!$&'()*+,;=:[]<>\""

/-- The reserved characters, which each component escapes in part. -/
def reservedBytes : Str := "$&+,/:;=?@"

/-- The escaping of a reserved character. -/
def escapeReserved (c : UInt8) : Encoding → Bool
  | .path => c = 63
  | .pathSegment => c = 47 || c = 59 || c = 44 || c = 63
  | .userPassword => c = 64 || c = 47 || c = 63 || c = 58
  | .queryComponent => true
  | .fragment => false
  | .host => true
  | .zone => true

/-- `shouldEscape`. -/
def shouldEscape (c : UInt8) (mode : Encoding) : Bool :=
  if isLetter c || isDigit c then false
  else if (mode = .host ∨ mode = .zone) ∧ c ∈ hostBytes then false
  else if c ∈ ascii "-_.~" then false
  else if c ∈ reservedBytes then escapeReserved c mode
  else if mode = .fragment ∧ c ∈ ascii "!()*" then false
  else true

/-- The upper-case hexadecimal digit of a value below 16. -/
def hexDigit (v : ℕ) : UInt8 := UInt8.ofNat (if v < 10 then 48 + v else 55 + v)

/-- The value of a hexadecimal digit. -/
def unhex (c : UInt8) : Option ℕ :=
  if 48 ≤ c ∧ c ≤ 57 then some (c.toNat - 48)
  else if 97 ≤ c ∧ c ≤ 102 then some (c.toNat - 87)
  else if 65 ≤ c ∧ c ≤ 70 then some (c.toNat - 55)
  else none

/-- One byte escaped: a space of a query component is a plus sign. -/
def escapeByte (mode : Encoding) (c : UInt8) : Str :=
  if c = 32 ∧ mode = .queryComponent then [43]
  else if shouldEscape c mode then [37, hexDigit (c.toNat / 16), hexDigit (c.toNat % 16)]
  else [c]

/-- `escape`. -/
def escape (mode : Encoding) (s : Str) : Str := s.flatMap (escapeByte mode)

/-- Whether a component may hold the escape of the byte with hexadecimal digits `hi` and `lo`: a
host escapes only bytes outside ASCII and the percent sign. -/
def escapeAllowed (mode : Encoding) (hi lo : ℕ) : Bool :=
  match mode with
  | .host => 8 ≤ hi || (hi = 2 && lo = 5)
  | .zone => (hi = 2 && lo = 5) || (hi = 2 && lo = 0) ||
      !shouldEscape (UInt8.ofNat (hi * 16 + lo)) .host
  | _ => true

/-- One byte that is no escape, decoded: a plus sign of a query component is a space, and a host
holds no ASCII byte that it would escape. -/
def unescapeByte (mode : Encoding) (c : UInt8) : Option UInt8 :=
  if c = 43 ∧ mode = .queryComponent then some 32
  else if (mode = .host ∨ mode = .zone) ∧ c < 128 ∧ shouldEscape c mode then none
  else some c

/-- `unescape`. -/
def unescape (mode : Encoding) : Str → Option Str
  | 37 :: h :: l :: s => do
    let hi ← unhex h
    let lo ← unhex l
    if escapeAllowed mode hi lo then
      let rest ← unescape mode s
      return UInt8.ofNat (hi * 16 + lo) :: rest
    else none
  | c :: s => do
    if c = 37 then none
    let b ← unescapeByte mode c
    let rest ← unescape mode s
    return b :: rest
  | [] => some []

/-- `validEncoded`: every byte of `s` may stand in the component as it is. -/
def validEncoded (s : Str) (mode : Encoding) : Bool :=
  s.all fun c => c ∈ ascii "!$&'()*+,;=:@[]%" || !shouldEscape c mode

/-- `url.QueryEscape`. -/
def queryEscape (s : Str) : Str := escape .queryComponent s

/-- `url.PathEscape`. -/
def pathEscape (s : Str) : Str := escape .pathSegment s

/-- The user part of an authority. -/
structure Userinfo where
  /-- The name. -/
  username : Str
  /-- The password, when there is a colon. -/
  password : Option Str
  deriving DecidableEq

/-- A parsed URL. -/
structure URL where
  scheme : Str := []
  opaqueData : Str := []
  user : Option Userinfo := none
  host : Str := []
  path : Str := []
  rawPath : Str := []
  omitHost : Bool := false
  forceQuery : Bool := false
  rawQuery : Str := []
  frag : Str := []
  rawFragment : Str := []
  deriving DecidableEq

/-- `stringContainsCTLByte`. -/
def containsCTL (s : Str) : Bool := s.any fun b => b < 32 || b = 127

/-- The loop of `getScheme`: `seen` is what precedes the present byte. -/
def getSchemeFrom (seen : Str) : Str → Option (Option Str × Str)
  | [] => some (none, [])
  | c :: s =>
    if isLetter c then getSchemeFrom (seen ++ [c]) s
    else if isDigit c || c = 43 || c = 45 || c = 46 then
      if seen = [] then some (none, []) else getSchemeFrom (seen ++ [c]) s
    else if c = 58 then
      if seen = [] then none else some (some seen, s)
    else some (none, [])

/-- `getScheme`: the scheme and the rest, an empty scheme with the whole string, or an error for a
string that starts with a colon. -/
def getScheme (rawURL : Str) : Option (Str × Str) :=
  match getSchemeFrom [] rawURL with
  | none => none
  | some (none, _) => some ([], rawURL)
  | some (some scheme, rest) => some (scheme, rest)

/-- `validOptionalPort`. -/
def validOptionalPort : Str → Bool
  | [] => true
  | c :: digits => c = 58 && digits.all isDigit

/-- One decimal field of an IPv4 address: no leading zero, at most 255. -/
def validIPv4Field (s : Str) : Bool :=
  s ≠ [] && s.all isDigit && (s.length = 1 || s.head? ≠ some 48) && s.length ≤ 3 &&
    (s.foldl (fun n b => n * 10 + (b.toNat - 48)) 0 ≤ 255)

/-- `parseIPv4Fields`. -/
def validIPv4 (s : Str) : Bool :=
  (split 46 s).length = 4 && (split 46 s).all validIPv4Field

/-- One group of an IPv6 address. -/
def validIPv6Group (s : Str) : Bool := s ≠ [] && s.length ≤ 4 && s.all fun b => (unhex b).isSome

/-- The groups of a part of an IPv6 address, `none` when one is malformed: a dotted quad counts as
two and stands last. -/
def ipv6Groups : List Str → Option ℕ
  | [] => some 0
  | [g] => if validIPv6Group g then some 1 else if validIPv4 g then some 2 else none
  | g :: gs => if validIPv6Group g then (ipv6Groups gs).map (· + 1) else none

/-- Splits at the first `::`. -/
def cutEllipsis : Str → Str × Option Str
  | 58 :: 58 :: s => ([], some s)
  | b :: s => (b :: (cutEllipsis s).1, (cutEllipsis s).2)
  | [] => ([], none)

/-- The groups of a part of an address that an ellipsis may leave empty. -/
def ipv6Part (s : Str) : Option ℕ := if s = [] then some 0 else ipv6Groups (split 58 s)

/-- An IPv6 address that `netip.ParseAddr` accepts, with its zone. A dotted quad in front of the
ellipsis is refused. -/
def validIPv6 (s : Str) : Bool :=
  let zoneOk := match (cut 37 s).2 with
    | some zone => zone ≠ []
    | none => true
  let addr := (cut 37 s).1
  zoneOk && 58 ∈ addr && match cutEllipsis addr with
    | (all, none) => ipv6Part all = some 8
    | (front, some back) => !(46 ∈ front) && match ipv6Part front, ipv6Part back with
      | some m, some n => m + n ≤ 7
      | _, _ => false

/-- Splits at the first `%25`. -/
def cutZone : Str → Str × Option Str
  | 37 :: 50 :: 53 :: s => ([], some (37 :: 50 :: 53 :: s))
  | b :: s => (b :: (cutZone s).1, (cutZone s).2)
  | [] => ([], none)

/-- The inside of a bracketed host, decoded. -/
def parseIPLiteral (hostname : Str) : Option Str := do
  let decoded ← match cutZone hostname with
    | (addr, some zone) => do
      let a ← unescape .host addr
      let z ← unescape .zone zone
      pure (a ++ z)
    | (addr, none) => unescape .host addr
  if validIPv6 decoded then some decoded else none

/-- `parseHost`. -/
def parseHost (host : Str) : Option Str :=
  match cutLast 91 host with
  | some ([], afterBracket) =>
    match cutLast 93 afterBracket with
    | none => none
    | some (hostname, colonPort) =>
      if validOptionalPort colonPort then do
        let port ← unescape .host colonPort
        let name ← parseIPLiteral hostname
        some (91 :: (name ++ 93 :: port))
      else none
  | some _ => none
  | none =>
    match cutLast 58 host with
    | some (_, port) =>
      if validOptionalPort (58 :: port) then unescape .host host else none
    | none => unescape .host host

/-- `validUserinfo`. -/
def validUserinfo (s : Str) : Bool :=
  s.all fun c => isLetter c || isDigit c || c ∈ ascii "-._:~!$&'()*+,;=%@"

/-- `parseAuthority`. -/
def parseAuthority (authority : Str) : Option (Option Userinfo × Str) :=
  match cutLast 64 authority with
  | none => do
    let host ← parseHost authority
    some (none, host)
  | some (userinfo, rest) => do
    let host ← parseHost rest
    if validUserinfo userinfo then
      match cut 58 userinfo with
      | (_, none) => do
        let name ← unescape .userPassword userinfo
        some (some ⟨name, none⟩, host)
      | (username, some password) => do
        let name ← unescape .userPassword username
        let pass ← unescape .userPassword password
        some (some ⟨name, some pass⟩, host)
    else none

/-- `URL.setPath`: the decoded path, and the raw one when it is not the default encoding. -/
def URL.setPath (u : URL) (p : Str) : Option URL := do
  let path ← unescape .path p
  return { u with path := path, rawPath := if p = escape .path path then [] else p }

/-- `URL.setFragment`. -/
def URL.setFragment (u : URL) (f : Str) : Option URL := do
  let frag ← unescape .fragment f
  return { u with frag := frag, rawFragment := if f = escape .fragment frag then [] else f }

/-- The query of the rest of a URL: a single question mark at the end is kept apart. -/
def splitQuery (rest : Str) : Str × Str × Bool :=
  match cut 63 rest with
  | (before, some []) => (before, [], true)
  | (before, some query) => (before, query, false)
  | (before, none) => (before, [], false)

/-- The authority and the path of the rest of a URL that starts with two slashes. -/
def splitAuthority (rest : Str) : Str × Str :=
  match cut 47 rest with
  | (authority, some path) => (authority, 47 :: path)
  | (authority, none) => (authority, [])

/-- The part of `parse` after the scheme and the query. -/
def parseRest (u : URL) (rest : Str) : Option URL :=
  if rest.head? ≠ some 47 ∧ u.scheme ≠ [] then some { u with opaqueData := rest }
  else if rest.head? ≠ some 47 ∧ 58 ∈ (cut 47 rest).1 then none
  else if (u.scheme ≠ [] ∨ ¬ hasPrefix rest "///") ∧ hasPrefix rest "//" then do
    let (authority, path) := splitAuthority (rest.drop 2)
    let (user, host) ← parseAuthority authority
    { u with user := user, host := host }.setPath path
  else
    { u with omitHost := u.scheme ≠ [] ∧ rest.head? = some 47 }.setPath rest

/-- `parse`, on a URL without its fragment. -/
def parseNoFragment (rawURL : Str) : Option URL :=
  if containsCTL rawURL then none
  else if rawURL = [42] then some { path := [42] }
  else do
    let (scheme, rest) ← getScheme rawURL
    let (rest, query, force) := splitQuery rest
    parseRest { scheme := scheme.map toLower, rawQuery := query, forceQuery := force } rest

/-- `url.Parse`, `none` when it returns an error. -/
def URL.parse (rawURL : Str) : Option URL :=
  match cut 35 rawURL with
  | (front, none) => parseNoFragment front
  | (front, some []) => parseNoFragment front
  | (front, some f) => do
    let u ← parseNoFragment front
    u.setFragment f

/-- `URL.EscapedPath`. -/
def URL.escapedPath (u : URL) : Str :=
  if u.rawPath ≠ [] ∧ validEncoded u.rawPath .path ∧ unescape .path u.rawPath =
    some u.path then u.rawPath
  else if u.path = [42] then "%2A"
  else escape .path u.path

/-- `URL.EscapedFragment`. -/
def URL.escapedFragment (u : URL) : Str :=
  if u.rawFragment ≠ [] ∧ validEncoded u.rawFragment .fragment ∧
      unescape .fragment u.rawFragment = some u.frag then
    u.rawFragment
  else escape .fragment u.frag

/-- `Userinfo.String`. -/
def Userinfo.string (ui : Userinfo) : Str :=
  escape .userPassword ui.username ++
    match ui.password with
    | some p => 58 :: escape .userPassword p
    | none => []

/-- The authority part of `URL.String`. -/
def URL.authorityString (u : URL) : Str :=
  if u.scheme ≠ [] ∨ u.host ≠ [] ∨ u.user ≠ none then
    if u.omitHost ∧ u.host = [] ∧ u.user = none then []
    else
      (if u.host ≠ [] ∨ u.path ≠ [] ∨ u.user ≠ none then ascii "//" else []) ++
        (match u.user with
          | some ui => ui.string ++ [64]
          | none => []) ++
        escape .host u.host
  else []

/-- `URL.String`. -/
def URL.string (u : URL) : Str :=
  let scheme := if u.scheme ≠ [] then u.scheme ++ [58] else []
  let front :=
    if u.opaqueData ≠ [] then scheme ++ u.opaqueData
    else
      let path := u.escapedPath
      let start := scheme ++ u.authorityString ++
        if path ≠ [] ∧ path.head? ≠ some 47 ∧ u.host ≠ [] then [47] else []
      let dot := if start = [] ∧ 58 ∈ (cut 47 path).1 then ascii "./" else []
      start ++ dot ++ path
  front ++ (if u.forceQuery ∨ u.rawQuery ≠ [] then 63 :: u.rawQuery else []) ++
    if u.frag ≠ [] then 35 :: u.escapedFragment else []

/-- `url.Values`: the keys with their values in order. -/
abbrev Values := List (Str × List Str)

/-- `Values.Get`: the first value of a key, the empty string when there is none. -/
def Values.get (v : Values) (key : Str) : Str :=
  match v.find? fun e => e.1 = key with
  | some (_, value :: _) => value
  | _ => []

/-- `Values.Add`. -/
def Values.add (v : Values) (key value : Str) : Values :=
  match v with
  | [] => [(key, [value])]
  | e :: v => if e.1 = key then (e.1, e.2 ++ [value]) :: v else e :: Values.add v key value

/-- `Values.Set`. -/
def Values.set (v : Values) (key value : Str) : Values :=
  (v.filter fun e => e.1 ≠ key) ++ [(key, [value])]

/-- One `&`-separated piece of a query added to the values: an empty piece and a malformed one add
nothing. -/
def addPiece (v : Values) (piece : Str) : Values :=
  if piece = [] ∨ 59 ∈ piece then v
  else
    match unescape .queryComponent (cut 61 piece).1,
        unescape .queryComponent ((cut 61 piece).2.getD []) with
    | some key, some value => v.add key value
    | _, _ => v

/-- `url.ParseQuery`, without its error: `URL.Query` drops the pieces that it does not accept. -/
def parseQuery (query : Str) : Values := (split 38 query).foldl addPiece []

/-- `URL.Query`. -/
def URL.query (u : URL) : Values := parseQuery u.rawQuery

/-- The lexicographic order of Go strings. -/
def strLe : Str → Str → Bool
  | [], _ => true
  | _ :: _, [] => false
  | a :: s, b :: t => a < b || (a = b && strLe s t)

/-- `Values.Encode`: the keys in order, each value with its key. -/
def Values.encode (v : Values) : Str :=
  let pairs := (v.insertionSort fun a b => strLe a.1 b.1).flatMap fun e =>
    e.2.map fun value => queryEscape e.1 ++ 61 :: queryEscape value
  (pairs.intersperse [38]).flatten

end VirePortal.Go
