import GrpcAsr.Library.StdText
import GrpcAsr.Media.Messages

/-!
# Remote transcription options

The validation of a remote endpoint, and the form fields sent to it. The text of a finite
double is what `std::to_chars` writes for it in scientific format. Maps are lists in the
order in which they are walked.
-/

namespace GrpcAsr.Asr

open Media (Bytes ascii StatusCode)
open StdText

set_option autoImplicit false

/-- A double as `std::isnan`, `std::isinf` and `std::to_chars` show it. -/
inductive Double
  | nan
  | inf (negative : Bool)
  | finite (scientific : Bytes)
  deriving DecidableEq

inductive ScalarValue
  | string (value : Bytes)
  | int (value : Int)
  | uint (value : Nat)
  | double (value : Double)
  | bool (value : Bool)
  | notSet
  deriving DecidableEq

structure RemoteTranscriptionOptions where
  url : Bytes
  headers : List (Bytes × Bytes)
  params : List (Bytes × ScalarValue)
  timeoutSeconds : Option Float
  model : Bytes
  language : Bytes
  initialPrompt : Bytes
  wordTimestamps : Bool

structure TextStatus where
  code : StatusCode
  message : Bytes
  deriving DecidableEq

def TextStatus.OK : TextStatus := ⟨.ok, []⟩

def invalid (message : Bytes) : TextStatus := ⟨.invalidArgument, message⟩

def lower (c : UInt8) : UInt8 := if 65 ≤ c && c ≤ 90 then c + 32 else c

def startsWithCi (text start : Bytes) : Bool :=
  decide (start.length ≤ text.length) && (text.take start.length).map lower == start

def isTokenChar (c : UInt8) : Bool :=
  (97 ≤ c && c ≤ 122) || (65 ≤ c && c ≤ 90) || (48 ≤ c && c ≤ 57) ||
    (find (· == c) (ascii "!#$%&'*+-.^_`|~")).isSome

def isToken (name : Bytes) : Bool := !name.isEmpty && name.all isTokenChar

/-- Python's text of a float from the scientific text of its shortest digits. -/
def pythonFinite (text : Bytes) : Except StdError Bytes := do
  let e := find (· == 101) text
  let mantissa ← substr text 0 e
  let exponent ← stoi (← substr text (match e with | some e => e + 1 | none => 0) none)
  let sign := if mantissa.head? = some 45 then ascii "-" else []
  let mantissa := if mantissa.head? = some 45 then mantissa.drop 1 else mantissa
  let digits := mantissa.filter (· != 46)
  if -4 ≤ exponent ∧ exponent < 16 then
    let point := exponent + 1
    let count : Int := digits.length
    if point ≤ 0 then
      return sign ++ ascii "0." ++ List.replicate (-point).toNat 48 ++ digits
    else if count ≤ point then
      return sign ++ digits ++ List.replicate (point - count).toNat 48 ++ ascii ".0"
    else
      return sign ++ (← substr digits 0 (some point.toNat)) ++ ascii "." ++
        (← substr digits point.toNat none)
  else
    let first ← substr digits 0 (some 1)
    let rest ← if 1 < digits.length then do
        let fraction ← substr digits 1 none
        pure (ascii "." ++ fraction)
      else pure []
    let magnitude := exponent.natAbs
    return sign ++ first ++ rest ++ (if exponent < 0 then ascii "e-" else ascii "e+") ++
      (if magnitude < 10 then ascii "0" else []) ++ decimal magnitude

def pythonFloat : Double → Except StdError Bytes
  | .nan => .ok (ascii "nan")
  | .inf negative => .ok (if negative then ascii "-inf" else ascii "inf")
  | .finite scientific => pythonFinite scientific

def scalarFormValue : ScalarValue → Except StdError Bytes
  | .string value => .ok value
  | .int value => .ok (if value < 0 then 45 :: decimal value.natAbs else decimal value.natAbs)
  | .uint value => .ok (decimal value)
  | .double value => pythonFloat value
  | .bool value => .ok (if value then ascii "true" else ascii "false")
  | .notSet => .ok []

/-- The params in the order of their keys. -/
def sortedParams (params : List (Bytes × ScalarValue)) : List (Bytes × ScalarValue) :=
  params.mergeSort fun a b => decide (a.1 ≤ b.1)

def remoteFormFields (options : RemoteTranscriptionOptions) : Except StdError (List (Bytes × Bytes)) := do
  let params ← ((sortedParams options.params).filter (·.1 != ascii "response_format")).mapM
    fun param => do return (param.1, ← scalarFormValue param.2)
  return [(ascii "response_format", ascii "verbose_json")] ++
    (if options.model = [] then [] else [(ascii "model", options.model)]) ++
    (if options.language = [] then [] else [(ascii "language", options.language)]) ++
    (if options.initialPrompt = [] then [] else [(ascii "prompt", options.initialPrompt)]) ++
    (if options.wordTimestamps then
      [(ascii "timestamp_granularities[]", ascii "segment"),
        (ascii "timestamp_granularities[]", ascii "word")]
    else []) ++ params

def isSpacing (c : UInt8) : Bool := c == 32 || c == 13 || c == 10 || c == 9

def isDelimiter (c : UInt8) : Bool := c == 47 || c == 63 || c == 35

def isBreak (c : UInt8) : Bool := c == 13 || c == 10

/-- The host and the port of an authority, or the status that rejects it. -/
def hostPort (authority : Bytes) : Except StdError (Except TextStatus (Bytes × Bytes)) := do
  if authority.head? = some 91 then
    match find (· == 93) authority with
    | none => return .error (invalid (ascii "RemoteTranscriptionOptions.url has an unterminated IPv6 host"))
    | some close =>
      let host ← substr authority 1 (some (close - 1))
      let after ← substr authority (close + 1) none
      if after = [] then return .ok (host, [])
      else if after.head? ≠ some 58 then
        return .error (invalid (ascii "RemoteTranscriptionOptions.url has a malformed host"))
      else
        let port ← substr after 1 none
        if port = [] then
          return .error (invalid (ascii "RemoteTranscriptionOptions.url has an empty port"))
        else return .ok (host, port)
  else
    match find (· == 58) authority with
    | none => return .ok (authority, [])
    | some colon =>
      let host ← substr authority 0 (some colon)
      let port ← substr authority (colon + 1) none
      if port = [] then
        return .error (invalid (ascii "RemoteTranscriptionOptions.url has an empty port"))
      else return .ok (host, port)

/-- A port of more than five bytes, or with a byte that is no digit, is never read. -/
def portRejected (port : Bytes) : Except StdError Bool :=
  if port = [] then .ok false
  else if 5 < port.length || !port.all isDigit then .ok true
  else do
    if (← stoi port) = 0 then return true
    else return decide (65535 < (← stoi port))

/-- The status that rejects a URL, if it is rejected. -/
def validateUrl (url : Bytes) : Except StdError (Option TextStatus) := do
  let http := startsWithCi url (ascii "http://")
  let https := startsWithCi url (ascii "https://")
  if !http && !https then
    return some (invalid (ascii "RemoteTranscriptionOptions.url must be an http or https URL"))
  else if (find isSpacing url).isSome then
    return some (invalid (ascii "RemoteTranscriptionOptions.url must not contain whitespace"))
  else
    let rest ← substr url (if http then 7 else 8) none
    let authority ← substr rest 0 (find isDelimiter rest)
    if (find (· == 64) authority).isSome then
      return some (invalid (ascii ("RemoteTranscriptionOptions.url must not carry userinfo; " ++
        "send credentials in headers")))
    else
      match ← hostPort authority with
      | .error status => return some status
      | .ok (host, port) =>
        if host = [] then return some (invalid (ascii "RemoteTranscriptionOptions.url has no host"))
        else if ← portRejected port then
          return some (invalid (ascii "RemoteTranscriptionOptions.url port must be a number in 1-65535"))
        else return none

def validateHeaders : List (Bytes × Bytes) → List Bytes → Option TextStatus
  | [], _ => none
  | (name, value) :: headers, seen =>
    if !isToken name then
      some (invalid (ascii "RemoteTranscriptionOptions.headers key '" ++ name ++
        ascii "' is not an HTTP token"))
    else if name.map lower ∈ seen then
      some (invalid (ascii "RemoteTranscriptionOptions.headers key '" ++ name ++
        ascii "' repeats another header name (names are case-insensitive)"))
    else if (find isBreak value).isSome then
      some (invalid (ascii "RemoteTranscriptionOptions.headers['" ++ name ++
        ascii "'] contains CR or LF"))
    else validateHeaders headers (name.map lower :: seen)

def validateParams : List (Bytes × ScalarValue) → Option TextStatus
  | [] => none
  | (key, value) :: params =>
    if key = [] then some (invalid (ascii "RemoteTranscriptionOptions.params has an empty key"))
    else if value = .notSet then
      some (invalid (ascii "RemoteTranscriptionOptions.params['" ++ key ++ ascii "'] has no value"))
    else validateParams params

def kMaxRemoteTimeoutSeconds : Float := 3600.0

def validateTimeout : Option Float → Option TextStatus
  | none => none
  | some timeout =>
    if !timeout.isFinite || timeout ≤ 0.0 || timeout > kMaxRemoteTimeoutSeconds then
      some (invalid (ascii ("RemoteTranscriptionOptions.timeout_seconds must be > 0 " ++
        "and at most 3600")))
    else none

def validateRemoteOptions (options : RemoteTranscriptionOptions) : Except StdError TextStatus := do
  match ← validateUrl options.url with
  | some status => return status
  | none =>
    match validateHeaders options.headers [] with
    | some status => return status
    | none =>
      match validateParams options.params with
      | some status => return status
      | none => return (validateTimeout options.timeoutSeconds).getD .OK

end GrpcAsr.Asr
