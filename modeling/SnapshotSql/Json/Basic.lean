import SnapshotSql.Number.Basic
import SnapshotSql.Number.Text
import SnapshotSql.Schema
/-! # JSON text -/

namespace SnapshotSql

/-! ## JSON documents -/

/-- A JSON document. Floats that are not numbers are written as null. -/
inductive Json where
  | null
  | boolean (value : Bool)
  | integer (value : Int64)
  | float (value : Double)
  | string (value : String)
  | array (elements : List Json)
  | object (members : List (String × Json))
  deriving Inhabited

namespace Json

/-- Set a member of a list sorted by name, replacing an earlier one. -/
def setMember (name : String) (value : Json) : List (String × Json) → List (String × Json)
  | [] => [(name, value)]
  | (other, old) :: rest =>
    if name < other then (name, value) :: (other, old) :: rest
    else if name = other then (name, value) :: rest
    else (other, old) :: setMember name value rest

def hexDigit (n : Nat) : Char := if n < 10 then Char.ofNat (48 + n) else Char.ofNat (87 + n)

def escapeChar (c : Char) : List Char :=
  if c = '"' then ['\\', '"']
  else if c = '\\' then ['\\', '\\']
  else if c = '\x08' then ['\\', 'b']
  else if c = '\x0c' then ['\\', 'f']
  else if c = '\n' then ['\\', 'n']
  else if c = '\r' then ['\\', 'r']
  else if c = '\t' then ['\\', 't']
  else if c.toNat < 32 then
    ['\\', 'u', '0', '0', hexDigit (c.toNat / 16), hexDigit (c.toNat % 16)]
  else [c]

def quote (s : String) : String :=
  "\"" ++ String.ofList (s.toList.flatMap escapeChar) ++ "\""

mutual

def render : Json → String
  | null => "null"
  | boolean true => "true"
  | boolean false => "false"
  | integer n => Integer.render n
  | float x => FloatLayout.json.render x
  | string s => quote s
  | array elements => "[" ++ String.intercalate "," (renderAll elements) ++ "]"
  | object members => "\x7b" ++ String.intercalate "," (renderMembers members) ++ "\x7d"

def renderAll : List Json → List String
  | [] => []
  | j :: js => j.render :: renderAll js

def renderMembers : List (String × Json) → List String
  | [] => []
  | (name, j) :: rest => (quote name ++ ":" ++ j.render) :: renderMembers rest

end

end Json

/-! ## JSON form of values and columns -/

def Value.toJson : Value → Json
  | null => .null
  | boolean b => .boolean b
  | integer n => .integer n
  | float x => .float x
  | text s => .string s

def DataType.jsonName : DataType → String
  | undefined => "undefined"
  | boolean => "boolean"
  | integer => "integer"
  | float => "float"
  | text => "text"

def Column.toJson (c : Column) : Json :=
  .object [("name", .string c.name), ("data_type", .string c.type.jsonName),
    ("nullable", .boolean c.nullable)]

end SnapshotSql
