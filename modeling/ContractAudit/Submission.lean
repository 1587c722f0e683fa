import ContractAudit.Json.Reader
import ContractAudit.Json.Writer
import ContractAudit.Log
import ContractAudit.Record.Response
import ContractAudit.TextSource
import ContractAudit.Url

/-! Handing a bundle in to the service.

A submission has two halves.  `request` makes what is sent, which fails only if there is no
address to send to or the key cannot stand in a header.  `response` reads the reply: it has to be
one of success, hold JSON, and have the outer form of a reply.  A reply that reports an error is
taken all the same, with a warning.  From a relative address no reply is taken. -/

namespace ContractAudit

open Record (Issue Response)

/-- Where to send bundles. -/
structure Endpoint where
  url : Text
  key : Text
  deriving DecidableEq

def isHeaderChar (c : Char) : Bool := c.toNat < 128

/-- What is sent to the service. -/
structure Request where
  url : Address
  key : Text
  bundle : Bundle
  isHeader_key : key.all isHeaderChar = true

namespace Request

def method : Text := "POST"

def contentType : Text := "application/json"

/-- The body: the text of each file by its relative path. -/
def body (r : Request) : Json :=
  .obj [("code", .obj (r.bundle.map fun f => (f.1, .obj [("content", .str f.2)])))]

end Request

/-- What comes back. -/
inductive Reply
  | answer (status : Nat) (body : Bytes)
  /-- The way to the service or back is broken. -/
  | broken (message : Text)
  /-- The request could not be tried at all. -/
  | untried (kind message : Text)
  deriving DecidableEq

namespace Submission

/-- The reason phrase of an HTTP status code that tells of no success, empty if it has none. -/
def reason : (code : Nat) → Text
  | 100 => "Continue"
  | 101 => "Switching Protocols"
  | 102 => "Processing"
  | 103 => "Early Hints"
  | 300 => "Multiple Choices"
  | 301 => "Moved Permanently"
  | 302 => "Found"
  | 303 => "See Other"
  | 304 => "Not Modified"
  | 305 => "Use Proxy"
  | 307 => "Temporary Redirect"
  | 308 => "Permanent Redirect"
  | 400 => "Bad Request"
  | 401 => "Unauthorized"
  | 402 => "Payment Required"
  | 403 => "Forbidden"
  | 404 => "Not Found"
  | 405 => "Method Not Allowed"
  | 406 => "Not Acceptable"
  | 407 => "Proxy Authentication Required"
  | 408 => "Request Timeout"
  | 409 => "Conflict"
  | 410 => "Gone"
  | 411 => "Length Required"
  | 412 => "Precondition Failed"
  | 413 => "Request Entity Too Large"
  | 414 => "Request-URI Too Long"
  | 415 => "Unsupported Media Type"
  | 416 => "Requested Range Not Satisfiable"
  | 417 => "Expectation Failed"
  | 418 => "I'm a teapot"
  | 421 => "Misdirected Request"
  | 422 => "Unprocessable Entity"
  | 423 => "Locked"
  | 424 => "Failed Dependency"
  | 425 => "Too Early"
  | 426 => "Upgrade Required"
  | 428 => "Precondition Required"
  | 429 => "Too Many Requests"
  | 431 => "Request Header Fields Too Large"
  | 451 => "Unavailable For Legal Reasons"
  | 500 => "Internal Server Error"
  | 501 => "Not Implemented"
  | 502 => "Bad Gateway"
  | 503 => "Service Unavailable"
  | 504 => "Gateway Timeout"
  | 505 => "HTTP Version Not Supported"
  | 506 => "Variant Also Negotiates"
  | 507 => "Insufficient Storage"
  | 508 => "Loop Detected"
  | 510 => "Not Extended"
  | 511 => "Network Authentication Required"
  | _ => []

end Submission

/-- Why a bundle has no response. -/
inductive SubmissionFault
  | broken (message : Text)
  | status (code : Nat)
  | encoding (f : Bytes.Fault)
  | json (body : Text) (f : Json.Fault)
  | contract (issues : List Issue)
  /-- There is no address to send to, for this reason. -/
  | noAddress (message : Text)
  /-- The reply comes from a relative address. -/
  | relative (url : Text)
  /-- The key has characters that cannot stand in a header, at positions `first` to `last`. -/
  | key (c : Char) (first last : Nat)
  | untried (kind message : Text)
  deriving DecidableEq

namespace SubmissionFault

/-- The fault is one of the service or its reply, and no other bundle is touched by it. -/
def isExpected : SubmissionFault → Bool
  | broken _ => true
  | status _ => true
  | encoding _ => true
  | json _ (.tooDeep _) => false
  | json _ _ => true
  | contract _ => true
  | noAddress _ => false
  | relative _ => false
  | key .. => false
  | untried .. => false

/-- The status code that the fault is about. -/
def status? : SubmissionFault → Option Nat
  | status code => some code
  | _ => none

/-- What is wrong with a key, in words. -/
def keyMessage (c : Char) (first last : Nat) : Text :=
  let place : Text :=
    if first = last then
      "character " ++ '\'' :: Text.numbered c.toNat ++ "' in position " ++ Decimal.digits first
    else
      "characters in position " ++ Decimal.digits first ++ "-" ++ Decimal.digits last
  "'ascii' codec can't encode " ++ place ++ ": ordinal not in range(128)"

/-- The fault in words; how a reply departs from its form is told by its issues. -/
def message : SubmissionFault → Text
  | broken message => "API request failed: " ++ message
  | status code =>
    "API Request error: " ++ Decimal.digits code ++ " " ++ Submission.reason code
  | encoding f => "API returned invalid JSON: " ++ f.message
  | json body (.tooDeep object) => (Json.Fault.tooDeep object).message body
  | json body f => "API returned invalid JSON: " ++ f.message body
  | contract _ => "API response does not match contract"
  | noAddress message => message
  | relative url => "unknown url type: " ++ Text.quoted url
  | key c first last => keyMessage c first last
  | untried _ message => message

end SubmissionFault

namespace Submission

/-- What is wrong with a key that does not fit into a header: its first run of characters that
do not. -/
def keyFault (key : Text) : SubmissionFault :=
  let front := key.takeWhile isHeaderChar
  let run := (key.drop front.length).takeWhile (! isHeaderChar ·)
  .key (run.headD ' ') front.length (front.length + run.length - 1)

/-- What is sent for a bundle; `address` gives the address to which a request for a text goes. -/
def request (e : Endpoint) (b : Bundle) (address : Text → Except Text Address := Url.address) :
    Logged (Except SubmissionFault Request) := do
  Logged.info ("Sending " ++ Decimal.digits b.length ++ " files to API for analysis: "
    ++ Text.join ", ".toList b.names)
  match address e.url with
  | .error message => return .error (.noAddress message)
  | .ok url =>
    if h : e.key.all isHeaderChar = true then return .ok ⟨url, e.key, b, h⟩
    else return .error (keyFault e.key)

def isSuccess (code : Nat) : Bool := 200 ≤ code && code < 300

def bodyJson (depth : Nat) (body : Bytes) : Except SubmissionFault Json :=
  match Bytes.toText body with
  | .error f => .error (.encoding f)
  | .ok t => (Json.readBody depth t).mapError (.json t)

/-- The response in the body of a reply. -/
def bodyResponse (depth : Nat) (body : Bytes) : Except SubmissionFault Response :=
  match bodyJson depth body with
  | .error f => .error f
  | .ok v =>
    match Response.ofJson v with
    | .ok r => .ok r
    | .bad issues => .error (.contract issues)

/-- The error that a response reports, if it reports one. -/
def reportedError? (r : Response) : Option Text :=
  if r.error.isPresent then some r.error.display
  else
    match r.success with
    | .bool false => some "success=false"
    | _ => none

/-- The response in the reply to a request, whose body may be nested `depth` deep. -/
def response (r : Request) (reply : Reply) (depth : Nat := Json.usualDepth) :
    Logged (Except SubmissionFault Response) :=
  match reply with
  | .broken message => pure (.error (.broken message))
  | .untried kind message => pure (.error (.untried kind message))
  | .answer code body =>
    if ! r.url.isAbsolute then pure (.error (.relative r.url.text))
    else if ! isSuccess code then do
      Logged.error ("API request failed with status: " ++ Decimal.digits code ++ " "
        ++ reason code)
      return .error (.status code)
    else
      match bodyResponse depth body with
      | .error f => pure (.error f)
      | .ok r => do
        match reportedError? r with
        | some e => Logged.warning ("API reported an error: " ++ e)
        | none => pure ()
        Logged.debug ("Raw API result has " ++ Decimal.digits (r.result.getD []).length
          ++ " vulnerability entries")
        return .ok r

end Submission

end ContractAudit
