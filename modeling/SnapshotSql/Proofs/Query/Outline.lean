import Mathlib.Data.List.Forall2
import SnapshotSql.Operator.Label
import SnapshotSql.Proofs.Query.Planned
import SnapshotSql.Proofs.Query.TableSets
/-! # Shapes of plans and of operators -/

namespace SnapshotSql

/-! ## Nodes -/

def NodeKind.operator : NodeKind → OperatorKind
  | tableGet => .tableScan
  | predicate => .predicate
  | project => .project
  | join => .join
  | compute => .compute
  | insert => .insert
  | delete => .delete
  | update => .update
  | explain => .explain
  | createTable => .createTable
  | rename => .rename
  | aggregate => .aggregate
  | sort => .sort
  | subQuery => .subQuery
  | cached => .cached

/-- The node that an operator carries out. Literal lists are made when a projection is opened and come from
no node. -/
def Operator.node? : Operator → Option PlanNode
  | tableScan s => some (.tableGet s.table s.columns s.access s.predicates)
  | predicate condition _ _ => some (.predicate condition)
  | project items _ _ => some (.project items)
  | compute exprs _ => some (.compute exprs)
  | join .. => some .join
  | insert table records _ => some (.insert table records)
  | delete table _ _ => some (.delete table)
  | update table assignments _ _ => some (.update table assignments)
  | explain .. => some .explain
  | createTable name columns => some (.createTable name columns)
  | rename table newName => some (.rename table newName)
  | aggregate groupBy calls _ _ => some (.aggregate groupBy calls)
  | sort keys _ _ => some (.sort keys)
  | subQuery qualifier _ => some (.subQuery qualifier)
  | cached .. => some .cached
  | stringList _ => none

theorem Operator.kind_of_node? {op : Operator} {node : PlanNode} (h : op.node? = some node) :
    op.kind = node.kind.operator := by
  cases op <;> cases h <;> rfl

namespace PlanNode

def conditions : PlanNode → List Expr
  | tableGet _ _ _ predicates => predicates
  | predicate condition => [condition]
  | _ => []

def HasColumns (c : Catalog) : PlanNode → Prop
  | tableGet table columns _ _ => ∀ i ∈ columns, i < (c.table table).schema.width
  | _ => True

/-- A node over some children has as many as its kind takes, its conditions are boolean or untyped, and
its table has the columns that it reads. -/
@[mk_iff]
structure WellFormed (c : Catalog) (node : PlanNode) (count : Nat) : Prop where
  children : node.kind.arity.allows count = true
  conditions : ∀ e ∈ node.conditions, e.dataType = .boolean ∨ e.dataType = .undefined
  columns : node.HasColumns c

variable {c : Catalog} {policy : ConflictPolicy} {node : PlanNode} {inputs : List Operator}
  {op : Operator}

private theorem isCondition_iff {e : Expr} :
    e.isCondition = true ↔ e.dataType = .boolean ∨ e.dataType = .undefined := by
  unfold Expr.isCondition
  cases e.dataType <;> simp

private theorem checkConditions_eq_ok {kind : NodeKind} {es : List Expr} :
    checkConditions kind es = .ok () ↔
      ∀ e ∈ es, e.dataType = .boolean ∨ e.dataType = .undefined := by
  simp only [← isCondition_iff]
  unfold checkConditions
  split
  · rename_i e he
    refine iff_of_false nofun fun h => ?_
    have hrefused := List.find?_some he
    rw [h e (List.mem_of_find?_eq_some he)] at hrefused
    cases hrefused
  · rename_i hnone
    refine iff_of_true rfl fun e he => ?_
    simpa using List.find?_eq_none.mp hnone e he

private theorem create_total {table : TableId} {columns : List Nat} {access : Access}
    {predicates : List Expr} : (∃ s, TableScan.create c table columns access predicates policy = .ok s) ↔
      ∀ i ∈ columns, i < (c.table table).schema.width := by
  constructor
  · rintro ⟨s, hs⟩ i hi
    obtain ⟨names, _, _, hcolumns⟩ := Plan.create_eq_ok hs
    obtain ⟨k, hk⟩ := List.mem_iff_getElem?.mp hi
    obtain ⟨column, hcolumn, _⟩ := hcolumns k i hk
    exact (List.getElem?_eq_some_iff.mp hcolumn).1
  · intro h
    refine (mapM_total fun i hi => ?_).elim fun names hnames =>
      ⟨_, bind_eq_ok.mpr ⟨names, hnames, rfl⟩⟩
    have hlt : i < (c.table table).schema.columns.length := h i hi
    simp only [List.getElem?_eq_getElem hlt]
    exact ⟨_, rfl⟩

private theorem toOperator_scan {table : TableId} {columns : List Nat} {access : Access}
    {predicates : List Expr} :
    (tableGet table columns access predicates).toOperator c policy [] = .ok op ↔
      checkConditions .tableGet predicates = .ok () ∧
        ∃ s, TableScan.create c table columns access predicates policy = .ok s ∧
          op = .tableScan s := by
  rw [toOperator, bind_eq_ok]
  constructor
  · rintro ⟨_, hcheck, h⟩
    obtain ⟨s, hs, h⟩ := bind_eq_ok.mp h
    cases h
    exact ⟨hcheck, s, hs, rfl⟩
  · rintro ⟨hcheck, s, hs, rfl⟩
    exact ⟨(), hcheck, bind_eq_ok.mpr ⟨s, hs, rfl⟩⟩

private theorem toOperator_filter {condition : Expr} {input : Operator} :
    (predicate condition).toOperator c policy [input] = .ok op ↔
      checkConditions .predicate [condition] = .ok () ∧ op = .predicate condition policy [input] := by
  rw [toOperator, bind_eq_ok]
  constructor
  · rintro ⟨_, hcheck, h⟩
    cases h
    exact ⟨hcheck, rfl⟩
  · rintro ⟨hcheck, rfl⟩
    exact ⟨(), hcheck, rfl⟩

theorem toOperator_total : (∃ op, node.toOperator c policy inputs = .ok op) ↔
    node.WellFormed c inputs.length := by
  cases node with
  | tableGet table columns access predicates =>
    cases inputs with
    | nil =>
      simp only [toOperator_scan, checkConditions_eq_ok, exists_and_left,
        exists_comm (α := Operator), exists_eq, and_true, create_total]
      constructor
      · rintro ⟨hconditions, hcolumns⟩
        exact ⟨rfl, hconditions, hcolumns⟩
      · rintro ⟨_, hconditions, hcolumns⟩
        exact ⟨hconditions, hcolumns⟩
    | cons input inputs => exact iff_of_false nofun fun h => nomatch h.children
  | predicate condition =>
    match inputs with
    | [] => exact iff_of_false nofun fun h => nomatch h.children
    | [input] =>
      simp only [toOperator_filter, exists_and_left, exists_eq, and_true, checkConditions_eq_ok]
      constructor
      · intro hconditions
        exact ⟨rfl, hconditions, trivial⟩
      · exact WellFormed.conditions
    | _ :: _ :: _ => exact iff_of_false nofun fun h => nomatch h.children
  | _ =>
    rcases inputs with _ | ⟨a, _ | ⟨b, _ | ⟨d, rest⟩⟩⟩ <;>
      simp [toOperator, wellFormed_iff, kind, NodeKind.arity, Arity.allows, conditions, HasColumns]

theorem node?_of_toOperator (h : node.toOperator c policy inputs = .ok op) :
    op.node? = some node ∧ op.inputs = inputs := by
  unfold toOperator at h
  split at h
  · obtain ⟨_, s, hs, rfl⟩ := toOperator_scan.mp h
    obtain ⟨names, rfl, _⟩ := Plan.create_eq_ok hs
    exact ⟨rfl, rfl⟩
  · obtain ⟨_, _, h⟩ := bind_eq_ok.mp h
    cases h
    exact ⟨rfl, rfl⟩
  all_goals cases h <;> exact ⟨rfl, rfl⟩

end PlanNode

namespace Operator

/-- The line of an operator is followed by the lines of its inputs, one level deeper. -/
theorem lines_inputs (c : Catalog) (depth : Nat) (op : Operator) :
    op.lines c depth = (branch depth ++ op.label c) :: linesAll c (depth + 1) op.inputs := by
  cases op <;> simp [lines, inputs, linesAll]

end Operator

/-! ## Trees -/

namespace Plan

mutual

/-- The parts of a plan with their depths, each before its children. -/
def outline (depth : Nat) : Plan → List (Nat × Plan)
  | ⟨node, children, tables⟩ => (depth, ⟨node, children, tables⟩) :: outlineAll (depth + 1) children

def outlineAll (depth : Nat) : List Plan → List (Nat × Plan)
  | [] => []
  | p :: ps => p.outline depth ++ outlineAll depth ps

end

/-- The operator is of the kind that belongs to the root of the plan and carries it out, and its inputs are,
from left to right, operators of the root's children. -/
inductive CarriedOutBy : Plan → Operator → Prop
  | intro {node : PlanNode} {children : List Plan} {tables : List String} {op : Operator}
      (hkind : op.kind = node.kind.operator) (hnode : op.node? = some node)
      (hinputs : List.Forall₂ CarriedOutBy children op.inputs) :
      CarriedOutBy ⟨node, children, tables⟩ op

mutual

theorem nodes_outline (depth : Nat) : ∀ p : Plan,
    (p.outline depth).map (fun place => place.2.node) = p.nodes
  | ⟨node, children, tables⟩ => by
    rw [outline, nodes, List.map_cons, nodesAll_outlineAll (depth + 1) children]

theorem nodesAll_outlineAll (depth : Nat) : ∀ ps : List Plan,
    (outlineAll depth ps).map (fun place => place.2.node) = nodesAll ps
  | [] => rfl
  | p :: ps => by
    rw [outlineAll, nodesAll, List.map_append, nodes_outline depth p, nodesAll_outlineAll depth ps]

end

variable {c : Catalog} {policy : ConflictPolicy} {p : Plan} {ps : List Plan} {op : Operator}
  {ops : List Operator}

theorem lower_eq_ok {node : PlanNode} {children : List Plan} {tables : List String} :
    lower c policy ⟨node, children, tables⟩ = .ok op ↔
      ∃ inputs, lowerAll c policy children = .ok inputs ∧
        node.toOperator c policy inputs = .ok op := by
  rw [lower, bind_eq_ok]

theorem lowerAll_cons_eq_ok : lowerAll c policy (p :: ps) = .ok ops ↔
    ∃ op rest, p.lower c policy = .ok op ∧ lowerAll c policy ps = .ok rest ∧ ops = op :: rest := by
  rw [lowerAll, bind_eq_ok]
  constructor
  · rintro ⟨op, hop, h⟩
    obtain ⟨rest, hrest, h⟩ := bind_eq_ok.mp h
    cases h
    exact ⟨op, rest, hop, hrest, rfl⟩
  · rintro ⟨op, rest, hop, hrest, rfl⟩
    exact ⟨op, hop, bind_eq_ok.mpr ⟨rest, hrest, rfl⟩⟩

theorem length_lowerAll (h : lowerAll c policy ps = .ok ops) : ops.length = ps.length := by
  induction ps generalizing ops with
  | nil =>
    cases h
    rfl
  | cons p ps ih =>
    obtain ⟨op, rest, _, hrest, rfl⟩ := lowerAll_cons_eq_ok.mp h
    rw [List.length_cons, List.length_cons, ih hrest]

/-! ### Success -/

mutual

/-- A plan is lowered if and only if every node of it is well formed over its children. -/
theorem lower_total : ∀ p : Plan, (∃ op, p.lower c policy = .ok op) ↔
    ∀ q ∈ p.subtrees, q.node.WellFormed c q.children.length
  | ⟨node, children, tables⟩ => by
    rw [subtrees, List.forall_mem_cons, ← lowerAll_total children]
    constructor
    · rintro ⟨op, h⟩
      obtain ⟨inputs, hinputs, hop⟩ := lower_eq_ok.mp h
      refine ⟨?_, inputs, hinputs⟩
      rw [← length_lowerAll hinputs]
      exact PlanNode.toOperator_total.mp ⟨op, hop⟩
    · rintro ⟨hnode, inputs, hinputs⟩
      rw [← length_lowerAll hinputs] at hnode
      obtain ⟨op, hop⟩ := PlanNode.toOperator_total.mpr hnode
      exact ⟨op, lower_eq_ok.mpr ⟨inputs, hinputs, hop⟩⟩

theorem lowerAll_total : ∀ ps : List Plan, (∃ ops, lowerAll c policy ps = .ok ops) ↔
    ∀ q ∈ subtreesAll ps, q.node.WellFormed c q.children.length
  | [] => iff_of_true ⟨[], rfl⟩ nofun
  | p :: ps => by
    rw [subtreesAll, List.forall_mem_append, ← lower_total p, ← lowerAll_total ps]
    constructor
    · rintro ⟨ops, h⟩
      obtain ⟨op, rest, hop, hrest, _⟩ := lowerAll_cons_eq_ok.mp h
      exact ⟨⟨op, hop⟩, rest, hrest⟩
    · rintro ⟨⟨op, hop⟩, rest, hrest⟩
      exact ⟨op :: rest, lowerAll_cons_eq_ok.mpr ⟨op, rest, hop, hrest, rfl⟩⟩

end

/-! ### Shape -/

mutual

theorem carriedOutBy_lower : ∀ {p : Plan} {op : Operator}, p.lower c policy = .ok op →
    p.CarriedOutBy op
  | ⟨node, children, tables⟩, op, h => by
    obtain ⟨inputs, hinputs, hop⟩ := lower_eq_ok.mp h
    obtain ⟨hnode, rfl⟩ := PlanNode.node?_of_toOperator hop
    exact .intro (Operator.kind_of_node? hnode) hnode (carriedOutBy_lowerAll hinputs)

theorem carriedOutBy_lowerAll : ∀ {ps : List Plan} {ops : List Operator},
    lowerAll c policy ps = .ok ops → List.Forall₂ CarriedOutBy ps ops
  | [], _, h => by
    cases h
    exact .nil
  | p :: ps, _, h => by
    obtain ⟨op, rest, hop, hrest, rfl⟩ := lowerAll_cons_eq_ok.mp h
    exact .cons (carriedOutBy_lower hop) (carriedOutBy_lowerAll hrest)

end

/-- The line shows the operator that the part of a plan is lowered to, at its depth. -/
def ShownBy (c : Catalog) (policy : ConflictPolicy) (place : Nat × Plan) (line : String) : Prop :=
  ∃ op, place.2.lower c policy = .ok op ∧ line = Operator.branch place.1 ++ op.label c

mutual

theorem shownBy_lines : ∀ {p : Plan} {op : Operator} (depth : Nat), p.lower c policy = .ok op →
    List.Forall₂ (ShownBy c policy) (p.outline depth) (op.lines c depth)
  | ⟨node, children, tables⟩, op, depth, h => by
    obtain ⟨inputs, hinputs, hop⟩ := lower_eq_ok.mp h
    obtain ⟨_, rfl⟩ := PlanNode.node?_of_toOperator hop
    rw [outline, Operator.lines_inputs]
    exact .cons ⟨op, h, rfl⟩ (shownBy_linesAll (depth + 1) hinputs)

theorem shownBy_linesAll : ∀ {ps : List Plan} {ops : List Operator} (depth : Nat),
    lowerAll c policy ps = .ok ops →
    List.Forall₂ (ShownBy c policy) (outlineAll depth ps) (Operator.linesAll c depth ops)
  | [], _, depth, h => by
    cases h
    exact .nil
  | p :: ps, _, depth, h => by
    obtain ⟨op, rest, hop, hrest, rfl⟩ := lowerAll_cons_eq_ok.mp h
    rw [outlineAll, Operator.linesAll]
    exact List.rel_append (shownBy_lines depth hop) (shownBy_linesAll depth hrest)

end

/-- A plan is lowered exactly if all its nodes are well formed, whether it was planned or put together by
hand. It becomes a tree of operators of the same shape, in which each carries out the node at its place, and
this tree is explained by one line for each node, in their order and at their depths. -/
theorem lower_iff_wellFormed (c : Catalog) (policy : ConflictPolicy) (p : Plan) :
    ((∃ op, p.lower c policy = .ok op) ↔
      ∀ q ∈ p.subtrees, q.node.WellFormed c q.children.length) ∧
    ∀ op, p.lower c policy = .ok op → p.CarriedOutBy op ∧
      (op.explainLines c).length = p.nodes.length ∧
      List.Forall₂ (ShownBy c policy) (p.outline 0) (op.explainLines c) := by
  refine ⟨lower_total p, fun op h => ?_⟩
  have hlines := shownBy_lines 0 h
  refine ⟨carriedOutBy_lower h, ?_, hlines⟩
  rw [← nodes_outline 0 p, List.length_map, hlines.length_eq]
  rfl

def oneColumn : Catalog where
  tables := #[.empty ⟨"t", [⟨"a", .integer, true⟩]⟩]
  entries := [("t", ⟨0⟩)]

def besideLiteral : Plan :=
  build oneColumn .join [
    build oneColumn (.predicate (.literal .null))
      [leaf oneColumn (.tableGet ⟨0⟩ [0] .write [.literal (.boolean true)])],
    build oneColumn (.subQuery "q") [leaf oneColumn (.project [⟨.literal (.integer 1), none⟩])]]

theorem lower_iff_wellFormed_besideLiteral : ∃ left right,
    besideLiteral.lower oneColumn .surfaceAll = .ok (.join left right {}) ∧
      besideLiteral.CarriedOutBy (.join left right {}) ∧
      ((Operator.join left right {}).explainLines oneColumn).length = 5 ∧
      ∀ q ∈ besideLiteral.subtrees, q.node.WellFormed oneColumn q.children.length := by
  obtain ⟨left, right, hlower⟩ : ∃ left right,
      besideLiteral.lower oneColumn .surfaceAll = .ok (.join left right {}) := ⟨_, _, rfl⟩
  obtain ⟨htotal, hshape⟩ := lower_iff_wellFormed oneColumn .surfaceAll besideLiteral
  obtain ⟨hcarried, hlength, _⟩ := hshape _ hlower
  exact ⟨left, right, hlower, hcarried, hlength, htotal.mp ⟨_, hlower⟩⟩

end Plan

end SnapshotSql
