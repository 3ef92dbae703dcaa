import SnapshotSql.Heap.Table
/-! # The catalog -/

namespace SnapshotSql

/-- A handle on a table. It stays valid when the table is renamed. -/
structure TableId where
  index : Nat
  deriving DecidableEq, Inhabited

/-- All tables by handle, and the catalog's entries sorted by name. -/
structure Catalog where
  tables : Array Table := #[]
  entries : List (String × TableId) := []
  deriving Inhabited

namespace Catalog

def table (c : Catalog) (id : TableId) : Table := c.tables[id.index]?.getD default

def tableName (c : Catalog) (id : TableId) : String := (c.table id).name

def modify (c : Catalog) (id : TableId) (f : Table → Table) : Catalog :=
  { c with tables := c.tables.modify id.index f }

def insertEntry (name : String) (id : TableId) : List (String × TableId) → List (String × TableId)
  | [] => [(name, id)]
  | (other, otherId) :: rest =>
    if name < other then (name, id) :: (other, otherId) :: rest
    else (other, otherId) :: insertEntry name id rest

def find? (c : Catalog) (name : String) : Option TableId := c.entries.lookup name

def exists? (c : Catalog) (name : String) : Bool := (c.find? name).isSome

def find (c : Catalog) (name : String) : Except StorageError TableId :=
  match c.find? name with
  | some id => .ok id
  | none => .error (.tableNotFound name)

def names (c : Catalog) : List String := c.entries.map (·.1)

def adopt (c : Catalog) (schema : TableSchema) : TableId × Catalog :=
  (⟨c.tables.size⟩, { c with tables := c.tables.push (.empty schema) })

/-- Create a table. A taken name is reported before a bad definition. -/
def create (c : Catalog) (name : String) (columns : List Column) :
    Except StorageError (TableId × Catalog) :=
  if c.exists? name then .error (.tableExists name)
  else match TableSchema.create name columns with
    | .error e => .error (.schema e)
    | .ok schema =>
      let (id, c) := c.adopt schema
      .ok (id, { c with entries := insertEntry name id c.entries })

/-- Rename a table. A taken new name is reported before a missing old one. -/
def rename (c : Catalog) (old new : String) : Except StorageError Catalog :=
  if c.exists? new then .error (.tableExists new)
  else match c.find? old with
    | none => .error (.tableNotFound old)
    | some id =>
      let c := c.modify id fun t => { t with schema := { t.schema with name := new } }
      .ok { c with entries := insertEntry new id (c.entries.filter (·.1 != old)) }

end Catalog

end SnapshotSql
