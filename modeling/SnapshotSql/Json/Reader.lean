import SnapshotSql.Json.Number
import SnapshotSql.Schema
/-! # Reading JSON -/

namespace SnapshotSql

inductive JsonInput where
  | null
  | boolean (value : Bool)
  | number (text : NumberText)
  | string (value : Option String)
  | array (elements : List JsonInput)
  | object (members : List (Option String × JsonInput))
  deriving Inhabited

namespace JsonInput

def isBlank (c : Char) : Bool := c = ' ' || c = '\n' || c = '\t' || c = '\r'

def skipBlanks (cs : List Char) : List Char := cs.dropWhile isBlank

def digit? (c : Char) : Option Nat :=
  if '0' ≤ c ∧ c ≤ '9' then some (c.toNat - 48) else none

def hexDigit? (c : Char) : Option Nat :=
  if '0' ≤ c ∧ c ≤ '9' then some (c.toNat - 48)
  else if 'a' ≤ c ∧ c ≤ 'f' then some (c.toNat - 87)
  else if 'A' ≤ c ∧ c ≤ 'F' then some (c.toNat - 55)
  else none

def digits : List Char → List Nat × List Char
  | [] => ([], [])
  | c :: cs =>
    match digit? c with
    | none => ([], c :: cs)
    | some d => let (ds, rest) := digits cs; (d :: ds, rest)

def someDigits (cs : List Char) : Option (List Nat × List Char) :=
  match digits cs with
  | ([], _) => none
  | found => some found

def wholePart (cs : List Char) : Option (List Nat × List Char) :=
  match someDigits cs with
  | some (0 :: _ :: _, _) => none
  | found => found

def fractionPart : List Char → Option (Option (List Nat) × List Char)
  | '.' :: cs => (someDigits cs).map fun (ds, rest) => (some ds, rest)
  | cs => some (none, cs)

def exponentPart : List Char → Option (Option (Bool × List Nat) × List Char)
  | c :: cs =>
    if c = 'e' || c = 'E' then
      let (negative, cs) := match cs with
        | '+' :: cs => (false, cs)
        | '-' :: cs => (true, cs)
        | cs => (false, cs)
      (someDigits cs).map fun (ds, rest) => (some (negative, ds), rest)
    else some (none, c :: cs)
  | [] => some (none, [])

def numberPart (negative : Bool) (cs : List Char) : Option (NumberText × List Char) := do
  let (whole, cs) ← wholePart cs
  let (fraction, cs) ← fractionPart cs
  let (exponent, cs) ← exponentPart cs
  pure ({ negative, whole, fraction, exponent }, cs)

/-- A piece of a string: a character, or a code unit given by an escape. -/
inductive Piece where
  | char (c : Char)
  | unit (n : Nat)

def shortEscape? : Char → Option Char
  | '"' => some '"'
  | '\\' => some '\\'
  | '/' => some '/'
  | 'b' => some '\x08'
  | 'f' => some '\x0c'
  | 'n' => some '\n'
  | 'r' => some '\r'
  | 't' => some '\t'
  | _ => none

def codeUnit? (a b c d : Char) : Option Nat := do
  let a ← hexDigit? a
  let b ← hexDigit? b
  let c ← hexDigit? c
  let d ← hexDigit? d
  pure (((a * 16 + b) * 16 + c) * 16 + d)

def pieces : List Char → Option (List Piece × List Char)
  | '"' :: rest => some ([], rest)
  | '\\' :: 'u' :: a :: b :: c :: d :: cs => do
    let n ← codeUnit? a b c d
    let (ps, rest) ← pieces cs
    pure (.unit n :: ps, rest)
  | '\\' :: c :: cs => do
    let c ← shortEscape? c
    let (ps, rest) ← pieces cs
    pure (.char c :: ps, rest)
  | c :: cs =>
    if c.toNat < 32 || c = '\\' then none
    else (pieces cs).map fun (ps, rest) => (.char c :: ps, rest)
  | [] => none

def isLeading (n : Nat) : Bool := 0xD800 ≤ n && n < 0xDC00

def isTrailing (n : Nat) : Bool := 0xDC00 ≤ n && n < 0xE000

/-- The text of some pieces. Surrogates must come in pairs. -/
def textOf : List Piece → Option (List Char)
  | [] => some []
  | .char c :: ps => (textOf ps).map (c :: ·)
  | .unit n :: .unit m :: ps =>
    if isLeading n then
      if isTrailing m then
        (textOf ps).map (Char.ofNat (0x10000 + (n - 0xD800) * 0x400 + (m - 0xDC00)) :: ·)
      else none
    else if isTrailing n then none
    else (textOf (.unit m :: ps)).map (Char.ofNat n :: ·)
  | .unit n :: ps =>
    if isLeading n || isTrailing n then none else (textOf ps).map (Char.ofNat n :: ·)

def text (cs : List Char) : Option (Option String × List Char) :=
  (pieces cs).map fun (ps, rest) => ((textOf ps).map String.ofList, rest)

mutual

/-- A document at the front, without blanks before it. `n` bounds the nesting and the number of
elements, for which the length of the text is enough. -/
def document (n : Nat) (cs : List Char) : Option (JsonInput × List Char) :=
  match n with
  | 0 => none
  | n + 1 =>
    match cs with
    | 'n' :: 'u' :: 'l' :: 'l' :: rest => some (null, rest)
    | 't' :: 'r' :: 'u' :: 'e' :: rest => some (boolean true, rest)
    | 'f' :: 'a' :: 'l' :: 's' :: 'e' :: rest => some (boolean false, rest)
    | '"' :: cs => (text cs).map fun (s, rest) => (string s, rest)
    | '-' :: cs => (numberPart true cs).map fun (t, rest) => (number t, rest)
    | '[' :: cs =>
      match skipBlanks cs with
      | ']' :: rest => some (array [], rest)
      | cs => (elements n cs).map fun (js, rest) => (array js, rest)
    | '\x7b' :: cs =>
      match skipBlanks cs with
      | '\x7d' :: rest => some (object [], rest)
      | cs => (members n cs).map fun (ms, rest) => (object ms, rest)
    | cs => (numberPart false cs).map fun (t, rest) => (number t, rest)

def elements (n : Nat) (cs : List Char) : Option (List JsonInput × List Char) :=
  match n with
  | 0 => none
  | n + 1 => do
    let (j, cs) ← document n (skipBlanks cs)
    match skipBlanks cs with
    | ']' :: rest => pure ([j], rest)
    | ',' :: cs =>
      let (js, rest) ← elements n cs
      pure (j :: js, rest)
    | _ => none

def members (n : Nat) (cs : List Char) : Option (List (Option String × JsonInput) × List Char) :=
  match n with
  | 0 => none
  | n + 1 =>
    match skipBlanks cs with
    | '"' :: cs => do
      let (name, cs) ← text cs
      match skipBlanks cs with
      | ':' :: cs =>
        let (j, cs) ← document n (skipBlanks cs)
        match skipBlanks cs with
        | '\x7d' :: rest => pure ([(name, j)], rest)
        | ',' :: cs =>
          let (ms, rest) ← members n cs
          pure ((name, j) :: ms, rest)
        | _ => none
      | _ => none
    | _ => none

end

def read? (s : String) : Option JsonInput :=
  let cs := s.toList
  match document (cs.length + 1) (skipBlanks cs) with
  | some (j, rest) => if (skipBlanks rest).isEmpty then some j else none
  | none => none

def value? : JsonInput → Option Value
  | null => some .null
  | boolean b => some (.boolean b)
  | number t => t.value?
  | string s => s.map .text
  | _ => none

def boolean? : JsonInput → Option Bool
  | boolean b => some b
  | _ => none

def string? : JsonInput → Option String
  | string s => s
  | _ => none

def typeOfName? : String → Option DataType
  | "undefined" => some .undefined
  | "boolean" => some .boolean
  | "integer" => some .integer
  | "float" => some .float
  | "text" => some .text
  | _ => none

def type? : JsonInput → Option DataType
  | string s => s.bind typeOfName?
  | object [(name, null)] => name.bind typeOfName?
  | _ => none

structure ColumnParts where
  name : Option String := none
  type : Option DataType := none
  nullable : Option Bool := none

/-- Take in one member of a column. Unknown members are skipped, and no known one may come
twice. -/
def ColumnParts.member (p : ColumnParts) : Option String × JsonInput → Option ColumnParts
  | (none, _) => none
  | (some "name", j) => if p.name.isSome then none else j.string?.map ({ p with name := some · })
  | (some "data_type", j) => if p.type.isSome then none else j.type?.map ({ p with type := some · })
  | (some "nullable", j) =>
    if p.nullable.isSome then none else j.boolean?.map ({ p with nullable := some · })
  | _ => some p

/-- A column, written as an object or as a list of its parts. Unless it says so, it refuses
NULL. -/
def column? : JsonInput → Option Column
  | object members => do
    let p ← members.foldlM ColumnParts.member {}
    pure { name := ← p.name, type := ← p.type, nullable := p.nullable.getD false }
  | array [name, type] => do
    pure { name := ← name.string?, type := ← type.type?, nullable := false }
  | array [name, type, nullable] => do
    pure { name := ← name.string?, type := ← type.type?, nullable := ← nullable.boolean? }
  | _ => none

end JsonInput

end SnapshotSql
