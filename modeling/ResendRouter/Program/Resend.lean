import ResendRouter.Program.Router
import ResendRouter.Program.Signing
import ResendRouter.Foundation.Json

/-! # Inbound requests: signature verification and routing fields

A header map is the list of its entries in iteration order, with lower-case
names. HMAC-SHA256 and the JSON parser are parameters.
-/

namespace ResendRouter.Program
open Foundation

abbrev HeaderMap := List (String × Bytes)

def HeaderMap.get (headers : HeaderMap) (name : String) : Option Bytes :=
  (headers.find? (·.1 = name)).map (·.2)

def header (headers : HeaderMap) (name : String) : Except AppError String :=
  match headers.get name with
  | none => .error (.signature ("missing " ++ name))
  | some value => match toStr value with
    | none => .error (.signature (name ++ " is not valid utf-8"))
    | some text => .ok text

def verifyTimestamp (timestamp : String) (toleranceSecs : ℤ) (now : Time) : Except AppError Unit :=
  if toleranceSecs ≤ 0 then .error (.signature "signature tolerance must be positive")
  else match parseI64 timestamp with
    | none => .error (.signature "svix-timestamp is not an integer")
    | some timestamp =>
      if |unixTimestamp now - timestamp| > toleranceSecs then
        .error (.signature "svix-timestamp is outside tolerance")
      else .ok ()

/-- The four spellings are tried in turn, and the first one that decodes is taken. -/
def decodeBase64 (input : String) : Option Bytes :=
  (Base64.standard.decode input).orElse fun _ =>
    (Base64.standardNoPad.decode input).orElse fun _ =>
      (Base64.urlSafe.decode input).orElse fun _ => Base64.urlSafeNoPad.decode input

/-- The bytes that an inbound signature covers. -/
def signedContent (svixId svixTimestamp : String) (body : Bytes) : Bytes :=
  asBytes svixId ++ dot :: (asBytes svixTimestamp ++ dot :: body)

def candidateMatches (expected : Bytes) (candidate : String) : Bool :=
  match stripPrefix "v1," candidate with
  | none => false
  | some signature => decodeBase64 signature = some expected

def verifyWebhookSignature (hmacSha256 : Bytes → Bytes → Bytes) (secret : String)
    (toleranceSecs : ℤ) (headers : HeaderMap) (body : Bytes) (now : Time) :
    Except AppError Unit := do
  let svixId ← header headers "svix-id"
  let svixTimestamp ← header headers "svix-timestamp"
  let svixSignature ← header headers "svix-signature"
  verifyTimestamp svixTimestamp toleranceSecs now
  match decodeBase64 ((stripPrefix "whsec_" secret).getD secret) with
  | none => .error (.signature "webhook secret is not valid base64")
  | some key =>
    if (splitWhitespace svixSignature).any
        (candidateMatches (hmacSha256 key (signedContent svixId svixTimestamp body))) then .ok ()
    else .error (.signature "no matching v1 signature")

def extractEmailDomain (input : String) : Option String :=
  let trimmed := trim input
  if isBlank trimmed then none
  else
    let candidate := match splitFirst '<' trimmed with
      | none => trimmed
      | some (_, afterStart) => match splitFirst '>' afterStart with
        | none => afterStart
        | some (inner, _) => inner
    let candidate := trimMatches '\'' (trimMatches '"' (trim candidate))
    match afterLast '@' candidate with
    | none => none
    | some rest =>
      let piece := firstPiece (fun c => c = ',' || isWhitespace c)
        (trimMatches ';' (trimMatches '>' (trim rest)))
      let domain := toAsciiLowercase (trimEndMatches '.' (trim piece))
      if isBlank domain || domain.toList.contains '@' then none else some domain

def extractDomainsFromValue : Option Json → List String
  | some (.string address) => (extractEmailDomain address).toList
  | some (.array addresses) => (addresses.filterMap Json.asStr).filterMap extractEmailDomain
  | _ => []

def parseEventForRouting (fromSlice : Bytes → Except String Json) (body : Bytes) :
    Except AppError ResendEventForRouting :=
  match fromSlice body with
  | .error error => .error (.badRequest ("invalid json payload: " ++ error))
  | .ok value =>
    let data := (value.get? "data").getD .null
    .ok {
      eventId := ((value.get? "id").bind Json.asStr).orElse fun _ =>
        ((data.get? "email_id").bind Json.asStr).orElse fun _ => (data.get? "id").bind Json.asStr
      eventType := (value.get? "type").bind Json.asStr
      fromDomain := ((data.get? "from").bind Json.asStr).bind extractEmailDomain
      toDomains := extractDomainsFromValue (data.get? "to") }

end ResendRouter.Program
