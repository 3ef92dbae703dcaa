import SnapshotSql.Heap.Catalog
import SnapshotSql.Transaction.Visibility
/-! # Transactions -/

/-! ## Isolation levels -/

namespace SnapshotSql

inductive Isolation where
  | readCommitted
  | repeatableRead
  deriving DecidableEq, Inhabited

namespace Isolation

def pinsSnapshot : Isolation → Bool
  | readCommitted => false
  | repeatableRead => true

def render : Isolation → String
  | readCommitted => "READ COMMITTED"
  | repeatableRead => "REPEATABLE READ"

/-- The capital of a letter, for letters whose capital is written in ASCII. The long s and the
dotless i count as S and I. -/
def capital (c : Char) : Char :=
  if c = 'ſ' then 'S' else if c = 'ı' then 'I' else c.toUpper

def parse? (text : String) : Option Isolation :=
  let name := String.ofList (text.toList.map capital)
  if ["READ COMMITTED", "READ_COMMITTED", "READCOMMITTED"].contains name then some readCommitted
  else if ["REPEATABLE READ", "REPEATABLE_READ", "REPEATABLEREAD", "SNAPSHOT"].contains name then
    some repeatableRead
  else none

def unknownMessage (text : String) : String := "unknown isolation level: " ++ text

end Isolation

/-! ## Databases and transactions -/

structure Transaction where
  isolation : Isolation
  /-- The number, and the snapshot taken with it, once the transaction has started. -/
  started : Option (TxId × Snapshot) := none
  ending : Option Ending := none
  /-- Row versions written so far. -/
  writes : Nat := 0
  deriving Inhabited

structure TxHandle where
  index : Nat
  deriving DecidableEq, Inhabited

structure Database where
  catalog : Catalog := {}
  registry : Registry := {}
  transactions : Array Transaction := #[]
  deriving Inhabited

abbrev Action (ε α : Type) := EStateM ε Database α

inductive TxError where
  | storage (cause : StorageError)
  | conflict (table : String) (rid : RowId)
  | notActive (label : String) (how : Ending)
  deriving DecidableEq

namespace TxError

def message : TxError → String
  | storage cause => cause.message
  | conflict table rid => "concurrency conflict on " ++ table ++ " " ++ rid.render
  | notActive label how =>
    "transaction " ++ label ++ " is no longer active (state: " ++ how.render ++ ")"

def isRetryable : TxError → Bool
  | conflict .. => true
  | _ => false

end TxError

namespace Database

def transaction (db : Database) (t : TxHandle) : Transaction :=
  db.transactions[t.index]?.getD default

/-- A new handle. Nothing is registered until the transaction starts. -/
def begin (isolation : Isolation) (db : Database) : TxHandle × Database :=
  (⟨db.transactions.size⟩, { db with transactions := db.transactions.push { isolation } })

end Database

namespace TxHandle

def label (t : TxHandle) : String :=
  let digits := Nat.toDigits 10 t.index
  String.ofList (List.replicate (26 - digits.length) '0' ++ digits)

def adjust (t : TxHandle) (f : Transaction → Transaction) : Action ε Unit :=
  modify fun db => { db with transactions := db.transactions.modify t.index f }

/-- Give the transaction its number unless it has one. -/
def start (t : TxHandle) : Action TxError (TxId × Snapshot) := do
  let db ← get
  let tx := db.transaction t
  match tx.ending, tx.started with
  | some how, _ => throw (.notActive t.label how)
  | none, some started => pure started
  | none, none =>
    let (id, registry) := db.registry.register
    let started := (id, registry.snapshot)
    set { db with registry }
    t.adjust fun tx => { tx with started := some started }
    pure started

def readSnapshot (t : TxHandle) : Action TxError Snapshot := do
  let (_, pinned) ← t.start
  let db ← get
  pure (if (db.transaction t).isolation.pinsSnapshot then pinned else db.registry.snapshot)

def visibility (t : TxHandle) (s : Snapshot) (access : Access) (v : Version) :
    Action TxError Visibility := do
  let (me, _) ← t.start
  let db ← get
  pure (db.registry.visibility me s access v)

/-- End the transaction. One that never started leaves no record of its end. -/
def finish (t : TxHandle) (how : Ending) : Action TxError Unit := do
  let db ← get
  let tx := db.transaction t
  match tx.ending with
  | some earlier => throw (.notActive t.label earlier)
  | none =>
    t.adjust fun tx => { tx with ending := some how }
    match tx.started with
    | none => pure ()
    | some (id, _) => modify fun db => { db with registry := db.registry.finish id how }

def commit (t : TxHandle) : Action TxError Unit := t.finish .committed

def rollback (t : TxHandle) : Action TxError Unit := t.finish .aborted

end TxHandle

end SnapshotSql

/-! ## Writing rows -/

namespace SnapshotSql.TxHandle

def countWrite (t : TxHandle) : Action ε Unit :=
  t.adjust fun tx => { tx with writes := tx.writes + 1 }

def insertRow (t : TxHandle) (table : TableId) (values : List Value) : Action TxError RowId := do
  let (me, _) ← t.start
  let target := (← get).catalog.table table
  match target.schema.recordFault? values with
  | some e => throw (.storage (.schema e))
  | none =>
    let version : Version := ⟨target.nextRid, values, me, none⟩
    modify fun db => { db with catalog := db.catalog.modify table (·.append version) }
    t.countWrite
    pure version.rid

/-- Delete a row version by stamping it. Deleting it again in the same transaction succeeds. -/
def deleteRow (t : TxHandle) (table : TableId) (rid : RowId) : Action TxError Unit := do
  let (me, _) ← t.start
  let db ← get
  match (db.catalog.table table).get rid with
  | .error e => throw (.storage e)
  | .ok v =>
    match db.registry.deleteVerdict me v with
    | .refuse => throw (.conflict (db.catalog.tableName table) rid)
    | .done => t.countWrite
    | .stamp =>
      set { db with catalog := db.catalog.modify table (·.stamp rid (some me)) }
      t.countWrite

def updateRow (t : TxHandle) (table : TableId) (rid : RowId) (values : List Value) :
    Action TxError RowId := do
  let db ← get
  match (db.catalog.table table).schema.recordFault? values with
  | some e => throw (.storage (.schema e))
  | none =>
    t.deleteRow table rid
    t.insertRow table values

end SnapshotSql.TxHandle
