import SnapshotSql.Value
/-! # Expressions -/

namespace SnapshotSql

/-! ## Cell names -/

structure CellName where
  table : Option String
  field : String
  deriving DecidableEq, Inhabited

namespace CellName

def plain (field : String) : CellName := ⟨none, field⟩

def qualified (table field : String) : CellName := ⟨some table, field⟩

/-- Whether a cell of this name answers a lookup. A lookup without a table asks for the field
alone. -/
def answers (name wanted : CellName) : Bool :=
  name.field == wanted.field && (wanted.table.isNone || name.table == wanted.table)

def render : CellName → String
  | ⟨some table, field⟩ => table ++ "." ++ field
  | ⟨none, field⟩ => field

end CellName

/-! ## Expressions -/

structure FieldRef where
  table : String
  field : String
  type : DataType
  deriving DecidableEq, Inhabited

inductive CompareOp where
  | eq
  | ne
  | lt
  | le
  | gt
  | ge
  deriving DecidableEq

inductive Junction where
  | all
  | any
  deriving DecidableEq

/-- Arithmetic operators. Negation normally has one operand and the others two. -/
inductive ArithOp where
  | add
  | sub
  | mul
  | div
  | negate
  deriving DecidableEq

inductive AggregateFn where
  | count
  | sum
  | avg
  | min
  | max
  deriving DecidableEq

/-- A scalar expression. Arithmetic without a right operand negates, whatever its operator, and
an aggregate call without an argument counts rows. -/
inductive Expr where
  | field (ref : FieldRef)
  | literal (value : Value)
  | comparison (op : CompareOp) (left right : Expr)
  | junction (kind : Junction) (terms : List Expr)
  | arithmetic (op : ArithOp) (left : Expr) (right : Option Expr)
  | isNull (operand : Expr) (negated : Bool)
  | aggregate (fn : AggregateFn) (arg : Option Expr)
  deriving Inhabited

structure AggregateCall where
  fn : AggregateFn
  arg : Option Expr

namespace Expr

mutual

/-- Equality of expressions as written, with literals compared by `Value.same`. -/
def same : Expr → Expr → Bool
  | field a, field b => a == b
  | literal a, literal b => a.same b
  | comparison o l r, comparison o' l' r' => o == o' && l.same l' && r.same r'
  | junction k ts, junction k' ts' => k == k' && sameAll ts ts'
  | arithmetic o l none, arithmetic o' l' none => o == o' && l.same l'
  | arithmetic o l (some r), arithmetic o' l' (some r') => o == o' && l.same l' && r.same r'
  | isNull e n, isNull e' n' => e.same e' && n == n'
  | aggregate f none, aggregate f' none => f == f'
  | aggregate f (some a), aggregate f' (some a') => f == f' && a.same a'
  | _, _ => false

def sameAll : List Expr → List Expr → Bool
  | [], [] => true
  | e :: es, e' :: es' => e.same e' && sameAll es es'
  | _, _ => false

end

end Expr

def AggregateCall.same (a b : AggregateCall) : Bool :=
  (Expr.aggregate a.fn a.arg).same (.aggregate b.fn b.arg)

/-! ## Text of expressions -/

def CompareOp.render : CompareOp → String
  | eq => "="
  | ne => "<>"
  | lt => "<"
  | le => "<="
  | gt => ">"
  | ge => ">="

def Junction.separator : Junction → String
  | all => " AND "
  | any => " OR "

def ArithOp.render : ArithOp → String
  | add => "+"
  | sub | negate => "-"
  | mul => "*"
  | div => "/"

def AggregateFn.render : AggregateFn → String
  | count => "COUNT"
  | sum => "SUM"
  | avg => "AVG"
  | min => "MIN"
  | max => "MAX"

namespace Expr

mutual

def render : Expr → String
  | field ref => ref.table ++ "." ++ ref.field
  | literal v => v.render
  | comparison op l r => l.render ++ " " ++ op.render ++ " " ++ r.render
  | junction kind terms => String.intercalate kind.separator (renderAll terms)
  | arithmetic _ e none => "-" ++ e.render
  | arithmetic op l (some r) => l.render ++ op.render ++ r.render
  | isNull e false => e.render ++ " IS NULL"
  | isNull e true => e.render ++ " IS NOT NULL"
  | aggregate fn none => fn.render ++ "(*)"
  | aggregate fn (some e) => fn.render ++ "(" ++ e.render ++ ")"

def renderAll : List Expr → List String
  | [] => []
  | e :: es => e.render :: renderAll es

end

def renderList (es : List Expr) : String := String.intercalate ", " (es.map render)

end Expr

def AggregateCall.render (c : AggregateCall) : String := (Expr.aggregate c.fn c.arg).render

/-! ## Static types -/

namespace Expr

def dataType : Expr → DataType
  | field ref => ref.type
  | literal v => v.dataType
  | comparison .. => .boolean
  | junction .. => .boolean
  | isNull .. => .boolean
  | arithmetic .div _ _ => .float
  | arithmetic .negate e _ => e.dataType
  | arithmetic _ e none => e.dataType
  | arithmetic _ l (some r) =>
    if l.dataType = .integer ∧ r.dataType = .integer then .integer else .float
  | aggregate .count _ => .integer
  | aggregate .avg _ => .float
  | aggregate _ (some e) => e.dataType
  | aggregate _ none => .undefined

def isCondition (e : Expr) : Bool :=
  match e.dataType with
  | .boolean | .undefined => true
  | _ => false

end Expr

def AggregateCall.dataType (c : AggregateCall) : DataType := (Expr.aggregate c.fn c.arg).dataType

end SnapshotSql
