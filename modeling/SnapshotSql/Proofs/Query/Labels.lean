import SnapshotSql.Proofs.Query.Outline
import SnapshotSql.Proofs.Text.Lines
/-! # Texts in labels -/

namespace SnapshotSql

open Text

/-! ## Texts from outside -/

/-- The text that a value consists of, if it is one. -/
def Value.texts : Value → List String
  | text s => [s]
  | _ => []

namespace Expr

mutual

/-- The names and the text literals in an expression, from left to right. -/
def texts : Expr → List String
  | field ref => [ref.table, ref.field]
  | literal v => v.texts
  | comparison _ l r => l.texts ++ r.texts
  | junction _ terms => textsAll terms
  | arithmetic _ e none => e.texts
  | arithmetic _ l (some r) => l.texts ++ r.texts
  | isNull e _ => e.texts
  | aggregate _ none => []
  | aggregate _ (some e) => e.texts

def textsAll : List Expr → List String
  | [] => []
  | e :: es => e.texts ++ textsAll es

end

theorem textsAll_eq_flatMap (es : List Expr) : textsAll es = es.flatMap texts := by
  induction es with
  | nil => rfl
  | cons e es ih => rw [textsAll, List.flatMap_cons, ih]

end Expr

def AggregateCall.texts (call : AggregateCall) : List String := (Expr.aggregate call.fn call.arg).texts

def SelectItem.texts (item : SelectItem) : List String := item.expr.texts ++ item.asName.toList

def SortKey.texts (key : SortKey) : List String := key.expr.texts

/-- The names and the text literals that the label of a node's operator shows. -/
def PlanNode.texts (c : Catalog) : PlanNode → List String
  | tableGet table _ _ predicates => c.tableName table :: predicates.flatMap Expr.texts
  | predicate condition => condition.texts
  | project items => items.flatMap SelectItem.texts
  | compute exprs => exprs.flatMap Expr.texts
  | insert table _ => [c.tableName table]
  | delete table => [c.tableName table]
  | update table assignments =>
    c.tableName table ::
      assignments.flatMap fun a => Operator.columnText (c.table table).schema a.1 :: a.2.texts
  | createTable name columns => name :: columns.map (·.name)
  | rename table newName => [c.tableName table, newName]
  | aggregate groupBy calls => calls.flatMap AggregateCall.texts ++ groupBy.flatMap Expr.texts
  | sort keys => keys.flatMap SortKey.texts
  | subQuery qualifier => [qualifier]
  | join | explain | cached => []

/-- The names and the text literals that the operators of a plan show. -/
def Plan.texts (c : Catalog) (p : Plan) : List String := p.nodes.flatMap (PlanNode.texts c)

/-! ## Line breaks in labels -/

theorem Value.breaks_render (v : Value) : breaks v.render = breaksIn v.texts := by
  cases v with
  | null => rfl
  | boolean b => cases b <;> rfl
  | integer n => exact Integer.breaks_render n
  | float x => exact FloatLayout.breaks_render_sql x
  | text s => simp [render, texts, breaks]

private theorem CompareOp.breaks_render (op : CompareOp) : breaks op.render = 0 := by
  cases op <;> rfl

private theorem Junction.breaks_separator (kind : Junction) : breaks kind.separator = 0 := by
  cases kind <;> rfl

private theorem ArithOp.breaks_render (op : ArithOp) : breaks op.render = 0 := by
  cases op <;> rfl

private theorem AggregateFn.breaks_render (fn : AggregateFn) : breaks fn.render = 0 := by
  cases fn <;> rfl

private theorem DataType.breaks_sqlName (type : DataType) : breaks type.sqlName = 0 := by
  cases type <;> rfl

private theorem OperatorKind.breaks_name (kind : OperatorKind) : breaks kind.name = 0 := by
  cases kind <;> rfl

namespace Expr

mutual

/-- The operators and words that an expression is written with add no line breaks. -/
theorem breaks_render : ∀ e : Expr, breaks e.render = breaksIn e.texts
  | field ref => by
    simp only [render, texts, breaks_append, breaksIn_cons, breaksIn_nil]
    rfl
  | literal v => v.breaks_render
  | comparison op l r => by
    simp only [render, texts, breaks_append, breaksIn_append, breaks_render l, breaks_render r,
      op.breaks_render]
    rfl
  | junction kind terms => by
    rw [render, texts, breaks_intercalate kind.breaks_separator, breaksIn_renderAll terms]
  | arithmetic op e none => by
    rw [render, texts, breaks_append, breaks_render e]
    exact Nat.zero_add _
  | arithmetic op l (some r) => by
    rw [render, texts, breaks_append, breaks_append, breaksIn_append, breaks_render l, breaks_render r,
      op.breaks_render, Nat.add_zero]
  | isNull e negated => by
    cases negated <;> rw [render, texts, breaks_append, breaks_render e] <;> exact Nat.add_zero _
  | aggregate fn none => by
    rw [render, texts, breaks_append, fn.breaks_render]
    rfl
  | aggregate fn (some e) => by
    simp only [render, texts, breaks_append, breaks_render e, fn.breaks_render]
    exact Nat.zero_add _

theorem breaksIn_renderAll : ∀ es : List Expr, breaksIn (renderAll es) = breaksIn (textsAll es)
  | [] => rfl
  | e :: es => by
    rw [renderAll, textsAll, breaksIn_cons, breaksIn_append, breaks_render e, breaksIn_renderAll es]

end

end Expr

/-- Texts of parts with commas, or other marks, between them have the line breaks of the parts. -/
private theorem breaks_joined {α : Type} {separator : String} {f : α → String}
    {parts : α → List String} (hseparator : breaks separator = 0)
    (h : ∀ x, breaks (f x) = breaksIn (parts x)) (xs : List α) :
    breaks (String.intercalate separator (xs.map f)) = breaksIn (xs.flatMap parts) := by
  rw [breaks_intercalate hseparator, breaksIn_map xs h]

private theorem AggregateCall.breaks_render (call : AggregateCall) :
    breaks call.render = breaksIn call.texts :=
  Expr.breaks_render _

private theorem SelectItem.breaks_render (item : SelectItem) :
    breaks item.render = breaksIn item.texts := by
  obtain ⟨e, asName⟩ := item
  cases asName with
  | none => simp [render, texts, e.breaks_render]
  | some name =>
    simp only [render, texts, breaks_append, breaksIn_append, e.breaks_render]
    rfl

private theorem SortKey.breaks_render (key : SortKey) : breaks key.render = breaksIn key.texts := by
  have hword : breaks (if key.ascending then " ASC" else " DESC") = 0 := by
    cases key.ascending <;> rfl
  rw [render, texts, breaks_append, hword, key.expr.breaks_render, Nat.add_zero]

private theorem Column.breaks_render (column : Column) : breaks column.render = breaks column.name := by
  have hword : breaks (if column.nullable then "" else " NOT NULL") = 0 := by
    cases column.nullable <;> rfl
  rw [render, breaks_append, breaks_append, breaks_append, hword, column.type.breaks_sqlName]
  rfl

private theorem breaks_renderList (es : List Expr) :
    breaks (Expr.renderList es) = breaksIn (es.flatMap Expr.texts) :=
  breaks_joined rfl Expr.breaks_render es

private theorem Column.breaks_renderList (columns : List Column) :
    breaks (Column.renderList columns) = breaksIn (columns.map (·.name)) := by
  rw [List.map_eq_flatMap]
  exact breaks_joined rfl (fun column => column.breaks_render) columns

namespace Operator

variable {c : Catalog} {op : Operator} {node : PlanNode}

private theorem breaks_optional {α : Type} {xs : List α} {text : String} {parts : α → List String}
    (h : breaks text = breaksIn (xs.flatMap parts)) :
    breaks (if xs.isEmpty then "" else text) = breaksIn (xs.flatMap parts) := by
  cases xs with
  | nil => rfl
  | cons x xs => exact h

private theorem breaks_param (h : op.node? = some node) :
    breaks (op.param c) = breaksIn (node.texts c) := by
  cases op with
  | tableScan s =>
    cases h
    rw [param, PlanNode.texts, breaks_append, breaksIn_cons, breaks_optional]
    rw [breaks_append, PlanNode.conditionText, breaks_joined rfl Expr.breaks_render]
    exact Nat.zero_add _
  | predicate condition policy inputs =>
    cases h
    exact condition.breaks_render
  | project items inputs literal =>
    cases h
    exact breaks_joined rfl SelectItem.breaks_render items
  | compute exprs e =>
    cases h
    exact breaks_renderList exprs
  | update table assignments input affected =>
    cases h
    have hassignment : ∀ a : Nat × Expr,
        breaks (columnText (c.table table).schema a.1 ++ "=" ++ a.2.render) =
          breaksIn (columnText (c.table table).schema a.1 :: a.2.texts) := by
      intro a
      rw [breaks_append, breaks_append, a.2.breaks_render]
      rfl
    rw [param, PlanNode.texts, breaks_append, breaks_append, breaksIn_cons]
    exact congrArg _ (breaks_joined rfl hassignment assignments)
  | createTable name columns =>
    cases h
    simp only [param, PlanNode.texts, breaks_append, breaksIn_cons, Column.breaks_renderList]
    rfl
  | rename table newName =>
    cases h
    simp only [param, PlanNode.texts, breaks_append, breaksIn_cons]
    rfl
  | aggregate groupBy calls input buffer =>
    cases h
    rw [param, PlanNode.texts, breaks_append, breaksIn_append, breaks_optional, PlanNode.callsText,
      breaks_joined rfl AggregateCall.breaks_render]
    rw [breaks_append, breaks_renderList]
    exact Nat.zero_add _
  | sort keys input buffer =>
    cases h
    exact breaks_joined rfl SortKey.breaks_render keys
  | stringList s => cases h
  | _ =>
    cases h
    rfl

/-- The line breaks in a label are those of the names and the text literals that it shows. -/
theorem breaks_label (h : op.node? = some node) : breaks (op.label c) = breaksIn (node.texts c) := by
  have hparam := breaks_param (c := c) h
  rw [label]
  split
  · rename_i hempty
    rw [String.isEmpty_iff.mp hempty] at hparam
    rw [← hparam, op.kind.breaks_name]
    rfl
  · rw [breaks_append, breaks_append, breaks_append, op.kind.breaks_name, hparam]
    exact Nat.zero_add _

private theorem breaks_branch (depth : Nat) : breaks (branch depth) = 0 := by
  cases depth with
  | zero => rfl
  | succ depth =>
    have hindent : breaks (Plan.indent depth) = 0 := by
      rw [Plan.indent, breaks_join, breaksIn_eq_zero]
      intro t ht
      rw [List.eq_of_mem_replicate ht]
      decide
    rw [branch, breaks_append, hindent]
    rfl

end Operator

namespace Plan

variable {c : Catalog} {policy : ConflictPolicy} {p : Plan} {op : Operator}

private theorem breaks_of_shownBy {place : Nat × Plan} {line : String}
    (h : ShownBy c policy place line) : breaks line = breaksIn (place.2.node.texts c) := by
  obtain ⟨op, hop, rfl⟩ := h
  obtain ⟨depth, node, children, tables⟩ := place
  obtain ⟨inputs, _, hnode⟩ := lower_eq_ok.mp hop
  rw [breaks_append, Operator.breaks_branch, Nat.zero_add,
    Operator.breaks_label (PlanNode.node?_of_toOperator hnode).1]

private theorem breaksIn_of_shownBy {places : List (Nat × Plan)} {lines : List String}
    (h : List.Forall₂ (ShownBy c policy) places lines) :
    breaksIn lines = breaksIn (places.flatMap fun place => place.2.node.texts c) := by
  induction h with
  | nil => rfl
  | cons hline _ ih =>
    rw [breaksIn_cons, List.flatMap_cons, breaksIn_append, breaks_of_shownBy hline, ih]

/-- The lines that explain a plan have the line breaks of the texts that they show. -/
theorem breaksIn_explainLines (h : p.lower c policy = .ok op) :
    breaksIn (op.explainLines c) = breaksIn (p.texts c) := by
  rw [texts, ← nodes_outline 0 p, List.flatMap_map]
  exact breaksIn_of_shownBy (shownBy_lines 0 h)

end Plan

end SnapshotSql
