/-!
# TOML values and tables

A TOML text defines each table once. Whether a table may still be extended depends on
how it came to be, so tables remember it: by a header of their own, by the header of a
table below, by a dotted key, or as an inline table, which is complete at once.
-/
namespace Papyrus.Toml

/-- Why a text is no TOML, or not the TOML that is asked for. -/
inductive Error where
  | unexpectedCharacter
  | unexpectedEnd
  | badEscape
  | badScalar
  | numberTooLarge
  | duplicateKey
  | notExtensible
  | tooDeep
  | wrongType
  deriving DecidableEq, Repr

/-- What is wrong, in words. -/
def Error.message : Error → String
  | .unexpectedCharacter => "unexpected character"
  | .unexpectedEnd => "unexpected end of text"
  | .badEscape => "invalid escape sequence"
  | .badScalar => "invalid value"
  | .numberTooLarge => "number is out of range"
  | .duplicateKey => "duplicate key"
  | .notExtensible => "cannot extend this value with a key"
  | .tooDeep => "recursion limit exceeded"
  | .wrongType => "invalid type"

/-- How a table came to be. -/
inductive Origin where
  /-- The table at the top, or one that a header defines. -/
  | header
  /-- A table above one that a header defines. -/
  | above
  /-- A table that a dotted key goes through. -/
  | dotted
  /-- A table in braces. -/
  | inline
  deriving DecidableEq, Repr

/-- A value. Of numbers, truth values and dates it is only known that they are well
formed. An array whose tables have headers of their own can get further ones. -/
inductive Value where
  | text (content : String)
  | scalar
  | array (items : List Value) (ofTables : Bool)
  | table (origin : Origin) (entries : List (String × Value))

/-- A table under construction. -/
structure Builder where
  origin : Origin
  entries : List (String × Value)

namespace Builder

/-- The value of a key. -/
def find? (builder : Builder) (key : String) : Option Value :=
  (builder.entries.find? (·.1 == key)).map (·.2)

/-- Set the value of a key that is present or new. -/
def set (builder : Builder) (key : String) (value : Value) : Builder :=
  let entries :=
    if builder.entries.any (·.1 == key) then
      builder.entries.map fun entry => if entry.1 == key then (key, value) else entry
    else builder.entries ++ [(key, value)]
  { builder with entries }

/-- The table as a value. -/
def value (builder : Builder) : Value := .table builder.origin builder.entries

/-- Change the table that a path of keys leads to. Tables on the way that do not exist
are made, with the given origin. A dotted key does not lead into a table with a header of
its own; a path leads into an array of tables through its last one. -/
def change (origin : Origin) (update : Builder → Except Error Builder) :
    List String → Builder → Except Error Builder
  | [], builder => update builder
  | key :: rest, builder =>
    match builder.find? key with
    | none => do
      let inner ← change origin update rest ⟨origin, []⟩
      return builder.set key inner.value
    | some (.table kind entries) =>
      if kind = .inline then .error .notExtensible
      else if origin = .dotted ∧ kind = .header then .error .duplicateKey
      else do
        let inner ← change origin update rest ⟨kind, entries⟩
        return builder.set key inner.value
    | some (.array items true) =>
      match items.getLast? with
      | some (.table kind entries) => do
        let inner ← change origin update rest ⟨kind, entries⟩
        return builder.set key (.array (items.dropLast ++ [inner.value]) true)
      | _ => .error .notExtensible
    | some _ => .error .notExtensible

/-- Give a key of a table its value, through the keys in front of it. A table that a
dotted key made takes only dotted keys, and no other table does. -/
def define (path : List String) (key : String) (value : Value) : Builder → Except Error Builder :=
  let isDotted := !path.isEmpty
  change .dotted (fun builder =>
    if decide (builder.origin = .dotted) != isDotted then .error .duplicateKey
    else if (builder.find? key).isSome then .error .duplicateKey
    else .ok (builder.set key value)) path

/-- Open the table that a header names. It may have come to be as a table above another
one, and not in any other way. -/
def openTable (path : List String) (key : String) : Builder → Except Error Builder :=
  change .above (fun builder =>
    match builder.find? key with
    | none => .ok (builder.set key (.table .header []))
    | some (.table .above entries) => .ok (builder.set key (.table .header entries))
    | some _ => .error .duplicateKey) path

/-- Add a table to the array that a header names. -/
def openArrayTable (path : List String) (key : String) : Builder → Except Error Builder :=
  change .above (fun builder =>
    match builder.find? key with
    | none => .ok (builder.set key (.array [.table .header []] true))
    | some (.array items true) =>
      .ok (builder.set key (.array (items ++ [.table .header []]) true))
    | some _ => .error .duplicateKey) path

/-- Change the table that was opened last, which the path of its header leads to. -/
def inOpened (path : List String) (update : Builder → Except Error Builder) :
    Builder → Except Error Builder :=
  change .above update path

end Builder
end Papyrus.Toml
