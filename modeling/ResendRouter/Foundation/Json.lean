import ResendRouter.Foundation.Bytes

/-! # JSON values

The values a JSON document denotes. An object is the list of its entries, with
at most one entry a key; a number keeps its text.
-/

namespace ResendRouter.Foundation

inductive Json where
  | null
  | bool (b : Bool)
  | number (text : String)
  | string (s : String)
  | array (items : List Json)
  | object (entries : List (String × Json))

namespace Json

def get? (key : String) : Json → Option Json
  | .object entries => (entries.find? (·.1 = key)).map (·.2)
  | _ => none

def asStr : Json → Option String
  | .string s => some s
  | _ => none

end Json
end ResendRouter.Foundation
