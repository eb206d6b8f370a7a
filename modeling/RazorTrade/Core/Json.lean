import Mathlib.Data.Rat.Defs

/-! # JSON values

`serde_json::Value` and what Python's `json.dumps` writes.  A text column that holds
JSON is a `JsonText`: either the text of a value or a text that is not JSON. -/

namespace RazorTrade

inductive Json where
  | null
  | bool (b : Bool)
  /-- A number, by its decimal text. -/
  | num (text : String)
  | str (s : String)
  | arr (xs : List Json)
  | obj (fields : List (String × Json))

namespace Json

/-- `Value::get` with a string key: `None` off objects; the last of repeated keys wins. -/
def get? (key : String) : Json → Option Json
  | .obj fields => (fields.reverse.find? fun f => f.1 = key).map Prod.snd
  | _ => none

/-- `Value::as_str`. -/
def asStr : Json → Option String
  | .str s => some s
  | _ => none

end Json

/-- A text column read as JSON. -/
inductive JsonText where
  | valid (j : Json)
  /-- Not JSON, with the parser's message. -/
  | malformed (error : String)

/-- `serde_json::from_str`. -/
def JsonText.parse : JsonText → Except String Json
  | .valid j => .ok j
  | .malformed e => .error e

end RazorTrade
