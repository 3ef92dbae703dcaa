import SnapshotSql.Operator.Basic
/-! # Bounds on the work of operators -/

namespace SnapshotSql.Operator

mutual

def rowBound (c : Catalog) : Operator → Nat
  | tableScan s => (c.table s.table).versions.size
  | predicate _ _ inputs => rowBoundAll c inputs
  | project _ inputs _ => rowBoundAll c inputs + 1
  | compute .. => 1
  | join left right _ => left.rowBound c * right.rowBound c
  | explain .. => 1
  | aggregate _ _ input b => b.rows.size + input.rowBound c + 1
  | sort _ input b => b.rows.size + input.rowBound c
  | subQuery _ input => input.rowBound c
  | cached input b _ => b.rows.size + input.rowBound c
  | stringList s => s.buffer.rows.size
  | insert .. => 0
  | delete .. => 0
  | update .. => 0
  | createTable .. => 0
  | rename .. => 0

def rowBoundAll (c : Catalog) : List Operator → Nat
  | [] => 0
  | op :: ops => op.rowBound c + rowBoundAll c ops

end

/-- Steps for passing over all rows of an input that needs `inner` steps for each. -/
def passBound (rows inner : Nat) : Nat := 2 * rows + inner + 3

mutual

/-- A bound on the nested steps of one call on the operator. -/
def stepBound (c : Catalog) : Operator → Nat
  | predicate _ _ inputs => stepBoundAll c inputs
  | project _ inputs _ => stepBoundAll c inputs
  | join left right _ =>
    passBound (left.rowBound c) (left.stepBound c) +
      passBound (right.rowBound c) (right.stepBound c)
  | delete _ input _ => passBound (input.rowBound c) (input.stepBound c)
  | update _ _ input _ => passBound (input.rowBound c) (input.stepBound c)
  | aggregate _ _ input _ => passBound (input.rowBound c) (input.stepBound c)
  | sort _ input _ => passBound (input.rowBound c) (input.stepBound c)
  | subQuery _ input => passBound (input.rowBound c) (input.stepBound c)
  | cached input _ _ => passBound (input.rowBound c) (input.stepBound c)
  | tableScan _ => 1
  | compute .. => 1
  | explain .. => 1
  | stringList _ => 1
  | insert .. => 1
  | createTable .. => 1
  | rename .. => 1

def stepBoundAll (c : Catalog) : List Operator → Nat
  | [] => 1
  | op :: ops => passBound (op.rowBound c) (op.stepBound c) + stepBoundAll c ops

end

/-- Extra steps for trees that append rows and read them: 2^62, centuries of work. -/
def spareSteps : Nat := 0x4000000000000000

def steps (c : Catalog) (op : Operator) : Nat := op.stepBound c + spareSteps

end SnapshotSql.Operator
