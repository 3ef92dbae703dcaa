import SnapshotSql.Expr.Basic
/-! # Parts of expressions -/

/-! ## Sorted lists without repetition -/

namespace SnapshotSql.Sorted

variable {α : Type} [LT α] [DecidableLT α]

def insert (x : α) : List α → List α
  | [] => [x]
  | y :: ys => if x < y then x :: y :: ys else if y < x then y :: insert x ys else y :: ys

def union (xs ys : List α) : List α := ys.foldl (fun set y => insert y set) xs

def ofList (xs : List α) : List α := union [] xs

end SnapshotSql.Sorted

/-! ## What an expression reads -/

namespace SnapshotSql.Expr

mutual

/-- Every field reference, those inside aggregate calls included. -/
def fields : Expr → List FieldRef
  | field ref => [ref]
  | literal _ => []
  | comparison _ l r => l.fields ++ r.fields
  | junction _ terms => fieldsAll terms
  | arithmetic _ e none => e.fields
  | arithmetic _ l (some r) => l.fields ++ r.fields
  | isNull e _ => e.fields
  | aggregate _ none => []
  | aggregate _ (some e) => e.fields

def fieldsAll : List Expr → List FieldRef
  | [] => []
  | e :: es => e.fields ++ fieldsAll es

end

mutual

def plainFields : Expr → List FieldRef
  | field ref => [ref]
  | literal _ => []
  | comparison _ l r => l.plainFields ++ r.plainFields
  | junction _ terms => plainFieldsAll terms
  | arithmetic _ e none => e.plainFields
  | arithmetic _ l (some r) => l.plainFields ++ r.plainFields
  | isNull e _ => e.plainFields
  | aggregate .. => []

def plainFieldsAll : List Expr → List FieldRef
  | [] => []
  | e :: es => e.plainFields ++ plainFieldsAll es

end

def tables (e : Expr) : List String := Sorted.ofList (e.fields.map (·.table))

mutual

/-- The aggregate calls that are not inside another one. -/
def calls : Expr → List AggregateCall
  | field _ => []
  | literal _ => []
  | comparison _ l r => l.calls ++ r.calls
  | junction _ terms => callsAll terms
  | arithmetic _ e none => e.calls
  | arithmetic _ l (some r) => l.calls ++ r.calls
  | isNull e _ => e.calls
  | aggregate fn arg => [⟨fn, arg⟩]

def callsAll : List Expr → List AggregateCall
  | [] => []
  | e :: es => e.calls ++ callsAll es

end

def addCalls (known new : List AggregateCall) : List AggregateCall :=
  new.foldl (fun known c => if known.any (·.same c) then known else known ++ [c]) known

def distinctCalls (es : List Expr) : List AggregateCall := addCalls [] (es.flatMap calls)

def hasAggregate (e : Expr) : Bool := !e.calls.isEmpty

/-! ## Conjuncts -/

mutual

/-- The terms of a condition, with nested conjunctions flattened. -/
def conjuncts : Expr → List Expr
  | junction .all terms => conjunctsAll terms
  | e => [e]

def conjunctsAll : List Expr → List Expr
  | [] => []
  | e :: es => e.conjuncts ++ conjunctsAll es

end

def ofConjuncts? : List Expr → Option Expr
  | [] => none
  | [e] => some e
  | es => some (.junction .all es)

end SnapshotSql.Expr
