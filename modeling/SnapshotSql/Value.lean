import SnapshotSql.Number.Basic
import SnapshotSql.Number.Text
/-! # Values -/

/-! ## Cell values and their types -/

namespace SnapshotSql

inductive DataType where
  | undefined
  | boolean
  | integer
  | float
  | text
  deriving DecidableEq, Inhabited

inductive Value where
  | null
  | boolean (value : Bool)
  | integer (value : Int64)
  | float (value : Double)
  | text (value : String)
  deriving DecidableEq, Inhabited

namespace Value

def dataType : Value → DataType
  | null => .undefined
  | boolean _ => .boolean
  | integer _ => .integer
  | float _ => .float
  | text _ => .text

def isNull : Value → Bool
  | null => true
  | _ => false

/-- Truth of a value used as a condition. NULL is false, and NaN is true. -/
def truth : Value → Bool
  | null => false
  | boolean b => b
  | integer n => n != 0
  | float x => !x.isZero
  | text s => !s.isEmpty

def asDouble? : Value → Option Double
  | integer n => some (Double.ofInt n.toInt)
  | float x => some x
  | _ => none

/-- Equality of literals: numbers of different types differ, and doubles compare as numbers. -/
def same : Value → Value → Bool
  | null, null => true
  | boolean a, boolean b => a == b
  | integer a, integer b => a == b
  | float a, float b => a.same b
  | text a, text b => a == b
  | _, _ => false

end Value

namespace DataType

def admits : DataType → Value → Bool
  | _, .null => true
  | boolean, .boolean _ => true
  | integer, .integer _ => true
  | float, .float _ => true
  | float, .integer _ => true
  | text, .text _ => true
  | _, _ => false

def isNumeric : DataType → Bool
  | integer | float => true
  | _ => false

def sqlName : DataType → String
  | undefined => "UNDEFINED"
  | boolean => "BOOLEAN"
  | integer => "INT"
  | float => "FLOAT"
  | text => "CHAR"

end DataType

end SnapshotSql

/-! ## Orders on values -/

namespace SnapshotSql.Value

/-- Comparison in conditions. Mixed numbers compare as doubles, texts by code point. -/
def compare? : Value → Value → Option Ordering
  | integer a, integer b => some (compare a.toInt b.toInt)
  | boolean a, boolean b => some (compare a b)
  | text a, text b => some (compare a b)
  | a, b =>
    match a.asDouble?, b.asDouble? with
    | some x, some y => x.compare y
    | _, _ => none

def kindRank : Value → Nat
  | null => 0
  | boolean _ => 1
  | integer _ => 2
  | float _ => 2
  | text _ => 3

/-- Comparison for sorting and grouping. Mixed numbers compare by the total order of doubles. -/
def totalCompare : Value → Value → Ordering
  | integer a, integer b => compare a.toInt b.toInt
  | boolean a, boolean b => compare a b
  | text a, text b => compare a b
  | a, b =>
    match a.asDouble?, b.asDouble? with
    | some x, some y => x.totalCompare y
    | _, _ => compare a.kindRank b.kindRank

end SnapshotSql.Value

/-! ## SQL text of values -/

namespace SnapshotSql

/-- A value as it is written in expressions. Texts are quoted and nothing in them is escaped. -/
def Value.render : Value → String
  | null => "NULL"
  | boolean true => "true"
  | boolean false => "false"
  | integer n => Integer.render n
  | float x => FloatLayout.sql.render x
  | text s => "'" ++ s ++ "'"

end SnapshotSql
