import SnapshotSql.Schema
import SnapshotSql.Value
/-! # Tables of row versions -/

namespace SnapshotSql

/-! ## Row versions -/

/-- The slot of a version inside its table. Slots are never reused. -/
structure RowId where
  slot : Nat
  deriving DecidableEq, Inhabited

def RowId.render (r : RowId) : String := "rid:" ++ toString r.slot

/-- The number of a transaction that has started. Later transactions have larger numbers. -/
structure TxId where
  number : Nat
  deriving DecidableEq, Inhabited

def TxId.render (t : TxId) : String := "tx:" ++ toString t.number

structure Version where
  rid : RowId
  values : List Value
  creator : TxId
  deleter : Option TxId
  deriving DecidableEq, Inhabited

/-! ## Tables -/

inductive StorageError where
  | tableNotFound (name : String)
  | tableExists (name : String)
  | rowNotFound (table : String) (rid : RowId)
  | schema (cause : SchemaError)
  deriving DecidableEq

namespace StorageError

def message : StorageError → String
  | tableNotFound name => "table not found: " ++ name
  | tableExists name => "table already exists: " ++ name
  | rowNotFound table rid => "record not found: table=" ++ table ++ ", " ++ rid.render
  | schema cause => "schema error: " ++ cause.message

def isNotFound : StorageError → Bool
  | tableNotFound _ | rowNotFound .. => true
  | _ => false

end StorageError

structure Table where
  schema : TableSchema
  versions : Array Version
  deriving Inhabited

namespace Table

def empty (schema : TableSchema) : Table := ⟨schema, #[]⟩

def name (t : Table) : String := t.schema.name

def version? (t : Table) (slot : Nat) : Option Version := t.versions[slot]?

def get (t : Table) (rid : RowId) : Except StorageError Version :=
  match t.version? rid.slot with
  | some v => .ok v
  | none => .error (.rowNotFound t.name rid)

def nextRid (t : Table) : RowId := ⟨t.versions.size⟩

def append (t : Table) (v : Version) : Table := { t with versions := t.versions.push v }

def insert (t : Table) (values : List Value) (creator : TxId) :
    Except SchemaError (RowId × Table) :=
  match t.schema.recordFault? values with
  | some e => .error e
  | none => .ok (t.nextRid, t.append ⟨t.nextRid, values, creator, none⟩)

def stamp (t : Table) (rid : RowId) (deleter : Option TxId) : Table :=
  { t with versions := t.versions.modify rid.slot fun v => { v with deleter } }

end Table

end SnapshotSql
