import ResendRouter.Program.Resend

/-! # The stored header object

The headers of a request are stored as one JSON object: a name with a single
value maps to a string, a repeated name to the array of its values.
-/

namespace ResendRouter.Database
open Foundation Program

def replaceEntry (entries : List (String × Json)) (key : String) (value : Json) :
    List (String × Json) :=
  entries.map fun e => if e.1 = key then (key, value) else e

def insertHeaderValue (entries : List (String × Json)) (key value : String) :
    List (String × Json) :=
  match entries.find? (·.1 = key) with
  | some (_, .array values) => replaceEntry entries key (.array (values ++ [.string value]))
  | some (_, existing) => replaceEntry entries key (.array [existing, .string value])
  | none => entries ++ [(key, .string value)]

def headersToJson (headers : HeaderMap) : Json :=
  .object (headers.foldl (fun entries h =>
    insertHeaderValue entries (toAsciiLowercase h.1) ((toStr h.2).getD "<non-utf8>")) [])

def headerValueFromJson (headers : Json) (name : String) : Option String :=
  match headers.get? (toAsciiLowercase name) with
  | some (.string value) => some value
  | some (.array values) => values.head?.bind Json.asStr
  | _ => none

def headerToString (headers : HeaderMap) (name : String) : Option String :=
  (headers.get name).bind toStr

end ResendRouter.Database
