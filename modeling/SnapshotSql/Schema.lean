import SnapshotSql.Value
/-! # Schemas -/

namespace SnapshotSql

/-! ## Columns -/

structure Column where
  name : String
  type : DataType
  nullable : Bool := true
  deriving DecidableEq, Inhabited

inductive ColumnFault where
  | isNull (column : String)
  | wrongType (column : String) (expected actual : DataType)
  deriving DecidableEq

def ColumnFault.message : ColumnFault → String
  | isNull column => "field '" ++ column ++ "' cannot be null"
  | wrongType column expected actual =>
    "field '" ++ column ++ "' expects type " ++ expected.sqlName ++ ", got " ++ actual.sqlName

namespace Column

def fault? (c : Column) (v : Value) : Option ColumnFault :=
  if v.isNull then
    if c.nullable then none else some (.isNull c.name)
  else if c.type.admits v then none
  else some (.wrongType c.name c.type v.dataType)

def render (c : Column) : String :=
  c.name ++ " " ++ c.type.sqlName ++ if c.nullable then "" else " NOT NULL"

end Column

/-! ## Table schemas -/

structure TableSchema where
  name : String
  columns : List Column
  deriving DecidableEq, Inhabited

inductive SchemaError where
  | invalidName (name : String)
  | noColumns (table : String)
  | duplicateColumn (column : String)
  | wrongWidth (table : String) (expected actual : Nat)
  | invalidRecord (fault : ColumnFault)
  deriving DecidableEq

def SchemaError.message : SchemaError → String
  | invalidName name => "invalid table name: '" ++ name ++ "'"
  | noColumns table => "table '" ++ table ++ "' has no fields"
  | duplicateColumn column => "duplicate field: " ++ column
  | wrongWidth table expected actual =>
    "table '" ++ table ++ "' expects " ++ toString expected ++ " values, got " ++ toString actual
  | invalidRecord fault => "invalid record: " ++ fault.message

namespace TableSchema

/-- The first name that occurs again after earlier ones. -/
def firstRepeated (seen : List String) : List String → Option String
  | [] => none
  | name :: rest => if seen.contains name then some name else firstRepeated (name :: seen) rest

def fault? (s : TableSchema) : Option SchemaError :=
  if s.name.isEmpty then some (.invalidName s.name)
  else if s.columns.isEmpty then some (.noColumns s.name)
  else (firstRepeated [] (s.columns.map (·.name))).map .duplicateColumn

def create (name : String) (columns : List Column) : Except SchemaError TableSchema :=
  let s : TableSchema := ⟨name, columns⟩
  match s.fault? with
  | some e => .error e
  | none => .ok s

def columnIndex? (s : TableSchema) (name : String) : Option Nat :=
  s.columns.findIdx? (·.name == name)

def column? (s : TableSchema) (name : String) : Option Column :=
  s.columns.find? (·.name == name)

def width (s : TableSchema) : Nat := s.columns.length

/-- Why a record does not fit, if it does not: its width first, then its cells in order. -/
def recordFault? (s : TableSchema) (values : List Value) : Option SchemaError :=
  if values.length ≠ s.width then some (.wrongWidth s.name s.width values.length)
  else (s.columns.zip values).findSome? fun (c, v) => (c.fault? v).map .invalidRecord

def check (s : TableSchema) (values : List Value) : Except SchemaError Unit :=
  match s.recordFault? values with
  | some e => .error e
  | none => .ok ()

end TableSchema

end SnapshotSql
