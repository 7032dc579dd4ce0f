import DecisionMaker.Library.Base64
import DecisionMaker.Library.Builtins
import Mathlib.Data.List.Forall2

/-!
# Session tokens

`verify_session_token` and `mint_session_token`. A header is any text, and what a payload holds any
JSON value. Digests only go into log lines, so of `_token_fp` it is kept that it cannot encode a lone
surrogate; details of the errors are left out.
-/

namespace DecisionMaker.Server

open Library

inductive AuthReason
  | malformed
  | badVersion
  | badSignature
  | expired
  | wrongService
  | missingSession
  deriving DecidableEq

inductive VerifyError
  | authError (reason : AuthReason)
  -- an exception that the verifier does not turn into an `AuthError`
  | escaped (exception : PyException)
  deriving DecidableEq

structure TokenClaims where
  serviceId : Str
  sessionId : Str
  exp : Int
  deriving DecidableEq

/-- What the verifier gets from the interpreter and its modules. -/
structure Runtime where
  -- by the secret, of the payload
  hmacSha256 : List Byte → List Byte → List Byte
  -- of a float, a list or a dict
  str : Json → Except PyException Str
  -- how many containers the stack lets `json` enter
  nesting : Nat
  nesting_pos : 0 < nesting

def isHexDigit (c : CodePoint) : Bool := (Json.hexDigit c).isSome

def isDash (c : CodePoint) : Bool := c.is '-'

def isVersion (c : CodePoint) : Bool := c.is '4'

def isVariant (c : CodePoint) : Bool :=
  c.is '8' || c.is '9' || c.is 'a' || c.is 'b' || c.is 'A' || c.is 'B'

/-- The characters of `_UUID4_RE`, where no character outside of ASCII has the case of one in it. -/
def uuid4 : List (CodePoint → Bool) :=
  List.replicate 8 isHexDigit ++ isDash :: List.replicate 4 isHexDigit ++
    isDash :: isVersion :: List.replicate 3 isHexDigit ++
    isDash :: isVariant :: List.replicate 3 isHexDigit ++ isDash :: List.replicate 12 isHexDigit

def matchFrom : List (CodePoint → Bool) → Str → Option Str
  | [], s => some s
  | p :: pattern, c :: s => if p c then matchFrom pattern s else none
  | _ :: _, [] => none

/-- `_UUID4_RE.match`: `$` also holds in front of a line feed that ends the text. -/
def uuid4Match (s : Str) : Bool :=
  match matchFrom uuid4 s with
  | none => false
  | some rest => decide (rest = [] ∨ rest = [.ofChar '\n'])

def IsUuid4 (s : Str) : Prop := List.Forall₂ (fun p c => p c = true) uuid4 s

instance (s : Str) : Decidable (IsUuid4 s) :=
  inferInstanceAs (Decidable (List.Forall₂ (fun p c => p c = true) uuid4 s))

def b64urlDecode (s : Str) : Option (List Byte) :=
  (encodeAscii s).bind fun bytes =>
    Base64.urlsafeB64decode (bytes ++ List.replicate ((4 - bytes.length % 4) % 4) Base64.pad)

def b64urlEncode (data : List Byte) : Str :=
  ((Base64.urlsafeB64encode data).rdropWhile (· = Base64.pad)).map CodePoint.ofByte

def tokenFp (data : Str) : Except VerifyError Unit :=
  match encodeUtf8 data with
  | none => .error (.escaped .unicodeEncodeError)
  | some _ => .ok ()

def Formats (n : Int) : Prop := ∃ text, Json.intRepr n = some text

def formatInt (n : Int) : Except VerifyError Unit :=
  match Json.intRepr n with
  | none => .error (.escaped .valueError)
  | some _ => .ok ()

def fail {α : Type} (reason : AuthReason) (rawToken : Str) : Except VerifyError α := do
  tokenFp rawToken
  .error (.authError reason)

def pop (key : String) (raw : List (Str × Json)) : List (Str × Json) :=
  raw.filter fun member => decide (member.1 ≠ Str.ofString key)

def getItem (key : String) (raw : List (Str × Json)) : Except PyException Json :=
  match raw.lookup (Str.ofString key) with
  | none => .error .keyError
  | some value => .ok value

def reducePayload : Json → Except PyException (List (Str × Json))
  | .object raw => .ok (pop "iat" (pop "user_id" raw))
  -- the `pop` of a list takes no default, other values have none
  | .array _ => .error .typeError
  | _ => .error .attributeError

def claimsOf (py : Runtime) (raw : List (Str × Json)) : Except PyException TokenClaims := do
  let serviceId ← (← getItem "service_id" raw).toStr py.str
  let sessionId ← (← getItem "session_id" raw).toStr py.str
  let exp ← (← getItem "exp" raw).toInt
  .ok ⟨serviceId, sessionId, exp⟩

def isCaught (e : PyException) : Bool :=
  e = .keyError || e = .typeError || e.isValueError

def validate (requiredServiceId : Str) (now : Int) (rawToken : Str) (claims : TokenClaims) :
    Except VerifyError TokenClaims :=
  if claims.serviceId ≠ requiredServiceId then fail .wrongService rawToken
  else if claims.sessionId = [] ∨ ¬ uuid4Match claims.sessionId then do
    tokenFp claims.sessionId
    fail .missingSession rawToken
  else if claims.exp ≤ now then do
    tokenFp rawToken
    formatInt claims.exp
    formatInt now
    formatInt (now - claims.exp)
    .error (.authError .expired)
  else do
    tokenFp claims.sessionId
    tokenFp rawToken
    formatInt (claims.exp - now)
    .ok claims

def verifyPayload (py : Runtime) (requiredServiceId : Str) (now : Int) (rawToken : Str)
    (payloadBytes : List Byte) : Except VerifyError TokenClaims :=
  match Json.loads py.nesting payloadBytes with
  | .error .jsonDecodeError => fail .malformed rawToken
  | .error e => .error (.escaped e.exception)
  | .ok payload =>
      match reducePayload payload with
      | .error e => .error (.escaped e)
      | .ok raw =>
          match claimsOf py raw with
          | .error e => if isCaught e then fail .malformed rawToken else .error (.escaped e)
          | .ok claims => validate requiredServiceId now rawToken claims

def verifyToken (py : Runtime) (requiredServiceId : Str) (now : Int) (secret : List Byte)
    (rawToken : Str) : Except VerifyError TokenClaims :=
  match rawToken.splitOn (.ofChar '.') with
  | [version, payload, signature] =>
      if version ≠ Str.ofString "v1" then fail .badVersion rawToken
      else match b64urlDecode payload with
        | none => fail .malformed rawToken
        | some payloadBytes =>
            match b64urlDecode signature with
            | none => fail .malformed rawToken
            | some sigBytes =>
                if py.hmacSha256 secret payloadBytes ≠ sigBytes then fail .badSignature rawToken
                else verifyPayload py requiredServiceId now rawToken payloadBytes
  | _ => fail .malformed rawToken

def verifySessionToken (py : Runtime) (rawAuthorizationHeader : Option Str) (requiredServiceId : Str)
    (now : Int) (secret : List Byte) : Except VerifyError TokenClaims :=
  match rawAuthorizationHeader with
  | none | some [] => .error (.authError .malformed)
  | some header =>
      match header.dropPrefix? (Str.ofString "Bearer ") with
      | none => fail .malformed (header.take 32)
      | some rawToken => verifyToken py requiredServiceId now secret rawToken

inductive AuthAnswer
  | authenticated (claims : TokenClaims)
  | httpException (statusCode : Nat) (error : AuthReason)
  -- what is no `AuthError` goes through the dependency
  | internalServerError (exception : PyException)

def AuthAnswer.statusCode : AuthAnswer → Option Nat
  | .authenticated _ => none
  | .httpException statusCode _ => some statusCode
  | .internalServerError _ => some 500

def requireService (py : Runtime) (serviceId : Str) (authorization : Option Str) (now : Int)
    (secret : List Byte) : AuthAnswer :=
  match verifySessionToken py authorization serviceId now secret with
  | .ok claims => .authenticated claims
  | .error (.authError reason) => .httpException (if reason = .wrongService then 403 else 401) reason
  | .error (.escaped e) => .internalServerError e

def compact : Json.Format where
  itemSeparator := Str.ofString ","
  keySeparator := Str.ofString ":"
  sortKeys := true

def payloadDict (serviceId sessionId : Str) (exp : Int) : Json :=
  .object [(Str.ofString "exp", .int exp), (Str.ofString "service_id", .str serviceId),
    (Str.ofString "session_id", .str sessionId)]

def mintSessionToken (py : Runtime) (secret : List Byte) (serviceId sessionId : Str) (exp : Int) :
    Except VerifyError Str :=
  -- there is no float in the payload
  match Json.dumps (fun _ => []) compact (payloadDict serviceId sessionId exp) with
  | none => .error (.escaped .valueError)
  | some payloadJson =>
      match encodeUtf8 payloadJson with
      | none => .error (.escaped .unicodeEncodeError)
      | some payloadBytes => do
          let sigBytes := py.hmacSha256 secret payloadBytes
          let token := Str.ofString "v1." ++ b64urlEncode payloadBytes ++ Str.ofString "." ++
            b64urlEncode sigBytes
          tokenFp sessionId
          formatInt exp
          .ok token

end DecisionMaker.Server
