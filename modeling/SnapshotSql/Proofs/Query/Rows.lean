import SnapshotSql.Proofs.Query.Tree
import SnapshotSql.Proofs.Row.Copy
/-! # What queries mean -/

namespace SnapshotSql

namespace Row

def beside (l r : Row) : Row := { names := l.names ++ r.names, values := l.values ++ r.values }

def renamed (qualifier : String) (r : Row) : Row :=
  { r with names := r.names.map fun name => .qualified qualifier name.field }

def select (items : List SelectItem) (r : Row) : Except ExecError Row := do
  let values ← r.evalAll (items.map (·.expr))
  pure { names := items.map (·.cellName), values, rid := r.rid }

def keep (test : Row → Except ExecError Bool) : List Row → Except ExecError (List Row)
  | [] => .ok []
  | r :: rs => do
    let passed ← test r
    let rest ← keep test rs
    pure (if passed then r :: rest else rest)

def groups : List (List Value × Row) → List (List Value × List Row)
  | [] => []
  | (key, r) :: rest =>
    (key, r :: (rest.filter fun other => Group.sameKey key other.1).map (·.2)) ::
      groups (rest.filter fun other => !Group.sameKey key other.1)
  termination_by rows => rows.length
  decreasing_by
    rw [List.length_unattach, List.length_cons]
    exact Nat.lt_succ_of_le ((List.length_filter_le _ _).trans (Nat.le_of_eq List.length_attach))

def withKey (groupBy : List Expr) (r : Row) : Except ExecError (List Value × Row) := do
  let key ← r.evalAll groupBy
  pure (key, r)

/-- All groups. Without keys there is one group even if there are no rows. -/
def allGroups (groupBy : List Expr) (keyed : List (List Value × Row)) :
    List (List Value × List Row) :=
  if keyed.isEmpty && groupBy.isEmpty then [([], [])] else groups keyed

end Row

namespace AggregateCall

def take (call : AggregateCall) (a : Accumulator) (r : Row) : Except ExecError Accumulator := do
  let input ← match call.arg with
    | none => pure none
    | some arg => (r.eval arg).map some
  a.feed input

/-- The result of a call for the rows of a group. -/
def resultOn (call : AggregateCall) (rows : List Row) : Except ExecError Value := do
  let a ← rows.foldlM call.take { fn := call.fn }
  pure a.result

end AggregateCall

/-- The output row of a group: its key, then the results of the calls. -/
def Row.ofGroup (groupBy : List Expr) (calls : List AggregateCall)
    (group : List Value × List Row) : Except ExecError Row := do
  let values ← calls.mapM (·.resultOn group.2)
  pure { names := Group.cellNames groupBy calls, values := group.1 ++ values }

namespace KeyedRow

def ofRow (keys : List SortKey) (r : Row) : Except ExecError KeyedRow := do
  let values ← r.evalAll (keys.map (·.expr))
  pure ⟨values, r, .row⟩

/-- The rows in stable order. If their keys are in no order there is none. -/
def stable (keys : List SortKey) (rows : List KeyedRow) : Except ExecError (List KeyedRow) :=
  if StableSort.Orders (before keys) rows then .ok (StableSort.insertionSort (before keys) rows)
  else .error .sortPanic

theorem sorted_of_stable {keys : List SortKey} {rows arranged : List KeyedRow}
    (h : stable keys rows = .ok arranged) :
    sorted keys rows = .ok (arranged.map fun r => (r.row, r.step)).toArray := by
  unfold stable at h
  split at h
  · rename_i ho
    cases h
    exact sorted_eq_ok.mpr ⟨_, StableSort.sort_eq_insertionSort ho, rfl⟩
  · cases h

end KeyedRow

namespace QueryTree

/-- The rows of a query, given the visible versions of each table. -/
def rows (visible : TableId → List Version) : QueryTree → Except ExecError (List Row)
  | scan s => do
    let rs ← (visible s.table).mapM fun v => (s.view v).copy
    Row.keep (·.holdsAll s.predicates) rs
  | filter condition _ input => do
    let rs ← input.rows visible
    Row.keep (·.holds condition) rs
  | literal items => do
    let r ← Row.select items { names := [.plain ""], values := [.text ""] }
    pure [r]
  | project items input => do
    let rs ← input.rows visible
    rs.mapM (Row.select items)
  | join left right => do
    let ls ← left.rows visible
    let pairs ← ls.mapM fun l => do
      let rs ← right.rows visible
      pure (rs.map l.beside)
    pure pairs.flatten
  | aggregate groupBy calls input => do
    let rs ← input.rows visible
    let keyed ← rs.mapM (Row.withKey groupBy)
    (Row.allGroups groupBy keyed).mapM (Row.ofGroup groupBy calls)
  | sort keys input => do
    let rs ← input.rows visible
    let keyed ← rs.mapM (KeyedRow.ofRow keys)
    let arranged ← KeyedRow.stable keys keyed
    pure (arranged.map (·.row))
  | rename qualifier input => do
    let rs ← input.rows visible
    pure (rs.map (Row.renamed qualifier))
  | cached input => input.rows visible

end QueryTree

end SnapshotSql
