import ContractAudit.Url.Host

/-! Addresses on the web.

An address is read into its parts, each in its usual form: the scheme and the host in small
letters, the port as a number and left out where it goes without saying, the path without `.` and
`..`, and characters that cannot stand in a part behind percent signs.  `text` puts the parts
together again.

An address without a scheme or without a host is relative; `toSend` is the address to which a
request goes then, and `Url.address` what is kept of it. -/

namespace ContractAudit

/-- Where a request goes. -/
structure Address where
  text : Text
  /-- There is a scheme and a host. -/
  isAbsolute : Bool
  deriving DecidableEq

/-- An address in its parts. -/
structure Url where
  scheme : Text
  user : Text
  host : Text
  port : Option Int
  path : Text
  query : Option Text
  fragment : Option Text
  deriving DecidableEq

namespace Url

/-- Why a text is no address. -/
inductive Fault
  | tooLong
  /-- A control character, and its place. -/
  | control (c : Char) (place : Nat)
  | host (f : HostFault)
  | port (t : Text)
  /-- The path after a host does not begin with a slash. -/
  | pathAfterHost
  /-- The path of a relative address begins with two slashes. -/
  | twoSlashes
  /-- The path of a relative address begins with a colon. -/
  | colon
  deriving DecidableEq

def Fault.message : Fault → Text
  | tooLong => "URL too long"
  | control c place =>
    "Invalid non-printable ASCII character in URL, " ++ Text.quoted [c] ++ " at position "
      ++ Decimal.digits place ++ "."
  | host f => f.message
  | port t => "Invalid port: " ++ Text.quoted t
  | pathAfterHost => "For absolute URLs, path must be empty or begin with '/'"
  | twoSlashes => "Relative URLs cannot have a path starting with '//'"
  | colon => "Relative URLs cannot have a path starting with ':'"

/-- The greatest length of an address. -/
def maxLength : Nat := 65536

/-- A control character of ASCII. -/
def isControl (c : Char) : Bool := c.toNat < 0x20 || c.toNat == 0x7F

def isLetter (c : Char) : Bool :=
  let n := c.toNat
  (97 ≤ n && n ≤ 122) || (65 ≤ n && n ≤ 90)

def isSchemeChar (c : Char) : Bool :=
  isLetter c || Text.isAsciiDigit c || c == '+' || c == '.' || c == '-'

/-- The scheme, and the text after its colon. -/
def splitScheme (t : Text) : Text × Text :=
  match t.span isSchemeChar with
  | (scheme, ':' :: rest) => if scheme.head?.all isLetter then (scheme, rest) else ([], t)
  | _ => ([], t)

/-- What stands between two slashes and the path, and the text after it. -/
def splitAuthority : Text → Text × Text
  | '/' :: '/' :: rest => rest.span fun c => ! (c == '/' || c == '?' || c == '#')
  | t => ([], t)

/-- The text before a mark, and the text after it if the mark occurs. -/
def splitAt (mark : Char) (t : Text) : Text × Option Text :=
  match t.span (· ≠ mark) with
  | (front, []) => (front, none)
  | (front, _ :: rest) => (front, some rest)

/-- The user before the last `@`, and the text after it. -/
def splitUser (t : Text) : Text × Text :=
  match t.reverse.span (· ≠ '@') with
  | (_, []) => ([], t)
  | (after, _ :: before) => (before.reverse, after.reverse)

/-- The host, and the text after it: up to the last closing bracket, or up to a colon. -/
def splitHost (t : Text) : Text × Text :=
  let (after, before) := t.reverse.span (· ≠ ']')
  if Text.startsWith ['['] t && ! before.isEmpty then (before.reverse, after.reverse)
  else t.span (· ≠ ':')

/-- The port that goes without saying. -/
def usualPort? (scheme : Text) : Option Int :=
  if scheme = "http" || scheme = "ws" then some 80
  else if scheme = "https" || scheme = "wss" then some 443
  else if scheme = "ftp" then some 21
  else none

/-- The port that the text after a host names. -/
def readPort (scheme t : Text) : Except Fault (Option Int) :=
  let t := if Text.startsWith [':'] t then t.drop 1 else t
  if t.isEmpty then .ok none
  else
    match Decimal.readLoose? t with
    | none => .error (.port t)
    | some n => .ok (if usualPort? scheme = some n then none else some n)

/-- The segments of a path, the last one first, after one more segment. -/
def push (done : List Text) (segment : Text) : List Text :=
  if segment = ['.'] then done
  else if segment = ['.', '.'] then
    match done with
    | [] => []
    | [[]] => [[]]
    | _ :: rest => rest
  else segment :: done

/-- The path with its `.` and `..` carried out. -/
def resolvePath (p : Text) : Text :=
  Text.join ['/'] ((Text.split '/' p).foldl push []).reverse

/-- The characters that cannot stand in a query. -/
def queryReserved : Text := ['"', '#', '<', '>']

/-- The characters that cannot stand in a fragment. -/
def fragmentReserved : Text := ['"', '<', '>', '\x60']

/-- The characters that cannot stand in a path. -/
def pathReserved : Text := queryReserved ++ ['?', '\x60', '\x7b', '\x7d']

/-- The characters that cannot stand in the name of a user. -/
def userReserved : Text := pathReserved ++ ['/', ';', '=', '@', '[', '\\', ']', '^', '|']

/-- The path of an address, which `bare` says to have neither scheme nor authority. -/
def readPath (bare authority : Bool) (p : Text) : Except Fault Text :=
  if authority && ! p.isEmpty && ! Text.startsWith ['/'] p then .error .pathAfterHost
  else if bare && Text.startsWith ['/', '/'] p then .error .twoSlashes
  else if bare && Text.startsWith [':'] p then .error .colon
  else .ok (percentEncode pathReserved (if bare then p else resolvePath p))

/-- The parts of an address without control characters. -/
def readParts (t : Text) : Except Fault Url := do
  let (scheme, rest) := splitScheme t
  let (authority, rest) := splitAuthority rest
  let (rest, fragment) := splitAt '#' rest
  let (path, query) := splitAt '?' rest
  let (user, rest) := splitUser authority
  let (host, rest) := splitHost rest
  let user := percentEncode userReserved user
  let host ← (readHost host).mapError .host
  let port ← readPort scheme rest
  let named := ! user.isEmpty || ! host.isEmpty || port.isSome
  let path ← readPath (scheme.isEmpty && ! named) named path
  return {
    scheme := Text.lower scheme
    user := user
    host := host
    port := port
    path := path
    query := query.map (percentEncode queryReserved)
    fragment := fragment.map (percentEncode fragmentReserved)
  }

/-- The address that a text holds. -/
def read (t : Text) : Except Fault Url :=
  if maxLength < t.length then .error .tooLong
  else
    match t.span (! isControl ·) with
    | (front, c :: _) => .error (.control c front.length)
    | _ => readParts t

/-- The user, the host and the port. -/
def authority (u : Url) : Text :=
  (if u.user.isEmpty then [] else u.user ++ ['@'])
    ++ (if u.host.contains ':' then '[' :: u.host ++ [']'] else u.host)
    ++ (match u.port with
      | some n => ':' :: Decimal.ofInt n
      | none => [])

/-- The address in its usual form. -/
def text (u : Url) : Text :=
  (if u.scheme.isEmpty then [] else u.scheme ++ [':'])
    ++ (if u.authority.isEmpty then [] else '/' :: '/' :: u.authority)
    ++ u.path
    ++ (match u.query with
      | some q => '?' :: q
      | none => [])
    ++ (match u.fragment with
      | some f => '#' :: f
      | none => [])

/-- The address has a scheme and a host. -/
def isAbsolute (u : Url) : Bool := ! u.scheme.isEmpty && ! u.host.isEmpty

/-- The address to which a request goes: of a relative one only the path from the root on and the
query. -/
def toSend (u : Url) : Url :=
  if u.isAbsolute then u
  else ⟨[], [], [], none, '/' :: u.path.dropWhile (· == '/'), u.query, none⟩

/-- The address to which a request for a text goes, or why there is none. -/
def address (t : Text) : Except Text Address :=
  match read t with
  | .error f => .error f.message
  | .ok u => .ok ⟨u.toSend.text, u.toSend.isAbsolute⟩

end Url

end ContractAudit
