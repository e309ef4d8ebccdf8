/-!
# JSON values
-/
namespace Papyrus

/-- A JSON value. A number is an integer divided by a power of ten; one that is written
without a fraction has the power zero. -/
inductive Json where
  | null
  | bool (value : Bool)
  | number (mantissa : Int) (places : Nat)
  | text (value : String)
  | array (items : List Json)
  | object (fields : List (String × Json))
  deriving Inhabited

namespace Json

/-- The value of a key of an object. -/
def field? (key : String) : Json → Option Json
  | .object fields => (fields.find? (·.1 == key)).map (·.2)
  | _ => none

/-- The value of a key of an object, where it is present and not null. -/
def present? (key : String) (value : Json) : Option Json :=
  match value.field? key with
  | some .null => none
  | other => other

/-- The text of a string. -/
def text? : Json → Option String
  | .text value => some value
  | _ => none

/-- The value of a number without a fraction. -/
def integer? : Json → Option Int
  | .number value 0 => some value
  | _ => none

/-- The items of an array. -/
def items? : Json → Option (List Json)
  | .array items => some items
  | _ => none

mutual

/-- The strings that stand under a key, at any depth. -/
def textsUnder (key : String) : Json → List String
  | .array items => textsUnderItems key items
  | .object fields => textsUnderFields key fields
  | _ => []

/-- The strings that stand under a key in the items of an array. -/
def textsUnderItems (key : String) : List Json → List String
  | [] => []
  | item :: rest => textsUnder key item ++ textsUnderItems key rest

/-- The strings that stand under a key in the fields of an object. -/
def textsUnderFields (key : String) : List (String × Json) → List String
  | [] => []
  | (name, .text value) :: rest =>
    if name == key then value :: textsUnderFields key rest else textsUnderFields key rest
  | (_, value) :: rest => textsUnder key value ++ textsUnderFields key rest

end

/-- A whole number. -/
def ofNat (value : Nat) : Json := .number value 0

end Json
end Papyrus
