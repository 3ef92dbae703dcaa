import SnapshotSql.Operator.OfPlan
import SnapshotSql.Plan.OfStatement
/-! # What planning depends on -/

namespace SnapshotSql

def Catalog.SameLayout (c c' : Catalog) : Prop := ∀ id, (c.table id).schema = (c'.table id).schema

variable {c c' : Catalog}

theorem Catalog.tableName_congr (h : c.SameLayout c') (id : TableId) :
    c.tableName id = c'.tableName id := by
  rw [tableName, tableName, Table.name, Table.name, h]

namespace Catalog.SameLayout

theorem refl (c : Catalog) : c.SameLayout c := fun _ => rfl

theorem trans {c'' : Catalog} (h : c.SameLayout c') (h' : c'.SameLayout c'') : c.SameLayout c'' :=
  fun id => (h id).trans (h' id)

theorem symm (h : c.SameLayout c') : c'.SameLayout c := fun id => (h id).symm

end Catalog.SameLayout

theorem Statement.tableNames_congr (h : c.SameLayout c') (stmt : Statement) :
    stmt.tableNames c = stmt.tableNames c' := by
  have hname : c.tableName = c'.tableName := funext (Catalog.tableName_congr h)
  induction stmt with
  | explain stmt ih => exact ih
  | _ => simp only [tableNames, hname]

theorem ScopeEntry.ofFromItem_congr (h : c.SameLayout c') : ofFromItem c = ofFromItem c' := by
  funext item
  obtain ⟨source, on⟩ := item
  cases source with
  | table id => simp only [ofFromItem, Source.name, Catalog.tableName_congr h, h id]
  | query select qualifier => rfl

namespace Plan

theorem build_congr (h : c.SameLayout c') : build c = build c' := by
  funext node children
  have hown : node.ownTable? c = node.ownTable? c' := by
    cases node <;> simp only [PlanNode.ownTable?, Catalog.tableName_congr h]
  rw [build, build, tableSet, tableSet, hown]

theorem leaf_congr (h : c.SameLayout c') : leaf c = leaf c' := by
  funext node
  rw [leaf, leaf, build_congr h]

theorem filtered_congr (h : c.SameLayout c') : filtered c = filtered c' := by
  funext condition p
  rw [filtered, filtered, build_congr h]

theorem ofSourceless_congr (h : c.SameLayout c') : ofSourceless c = ofSourceless c' := by
  funext s
  simp only [ofSourceless, leaf_congr h]

theorem grouped_sameLayout (h : c.SameLayout c') : grouped c = grouped c' := by
  funext s p
  simp only [grouped, build_congr h, filtered_congr h]

theorem attach_congr (h : c.SameLayout c') : attach c = attach c' := by
  funext options isTable left p
  simp only [attach, build_congr h]

theorem applyOn_congr (h : c.SameLayout c') : applyOn c = applyOn c' := by
  funext on p
  simp only [applyOn, filtered_congr h]

theorem finish_sameLayout (h : c.SameLayout c') : finish c = finish c' := by
  funext s rest p
  simp only [finish, build_congr h, filtered_congr h, grouped_sameLayout h]

mutual

theorem ofSelect_congr (h : c.SameLayout c') (options : PlannerOptions) :
    ∀ s : Select, ofSelect c options s = ofSelect c' options s
  | ⟨items, sources, filter, groupBy, having, orderBy⟩ => by
    have hsources : ∀ left parts, ofSources c options left parts sources =
        ofSources c' options left parts sources :=
      fun left parts => ofSources_congr h options sources left parts
    simp only [ofSelect, ScopeEntry.ofFromItem_congr h, ofSourceless_congr h, finish_sameLayout h, hsources]

theorem ofSources_congr (h : c.SameLayout c') (options : PlannerOptions) :
    ∀ (sources : List FromItem) (left : Option Plan) (parts : List (List Nat × List Expr)),
      ofSources c options left parts sources = ofSources c' options left parts sources
  | [], _, _ => rfl
  | ⟨.table id, on⟩ :: rest, left, parts => by
    have hrest := ofSources_congr h options rest
    simp only [ofSources, leaf_congr h, attach_congr h, applyOn_congr h, hrest]
  | ⟨.query select qualifier, on⟩ :: rest, left, parts => by
    have hrest := ofSources_congr h options rest
    have hselect := ofSelect_congr h options select
    simp only [ofSources, build_congr h, attach_congr h, applyOn_congr h, hrest, hselect]

end

theorem writeScan_congr (h : c.SameLayout c') : writeScan c = writeScan c' := by
  funext table filter extra
  simp only [writeScan, h table, leaf_congr h, filtered_congr h]

theorem ofStatement_congr (h : c.SameLayout c') (options : PlannerOptions) (stmt : Statement) :
    ofStatement c options stmt = ofStatement c' options stmt := by
  induction stmt with
  | select query => exact ofSelect_congr h options query
  | explain stmt ih => simp only [ofStatement, ih, build_congr h]
  | delete table filter => simp only [ofStatement, writeScan_congr h, build_congr h]
  | update table assignments filter =>
    simp only [ofStatement, writeScan_congr h, build_congr h, h table]
  | _ => simp only [ofStatement, leaf_congr h]

end Plan

theorem TableScan.create_congr (h : c.SameLayout c') (table : TableId) :
    create c table = create c' table := by
  funext columns access predicates policy
  simp only [create, h table]

theorem PlanNode.toOperator_congr (h : c.SameLayout c') : toOperator c = toOperator c' := by
  funext policy node inputs
  simp only [toOperator, TableScan.create_congr h]

namespace Plan

mutual

theorem lower_congr (h : c.SameLayout c') (policy : ConflictPolicy) :
    ∀ p : Plan, p.lower c policy = p.lower c' policy
  | ⟨node, children, tables⟩ => by
    simp only [lower, PlanNode.toOperator_congr h, lowerAll_congr h policy children]

theorem lowerAll_congr (h : c.SameLayout c') (policy : ConflictPolicy) :
    ∀ ps : List Plan, lowerAll c policy ps = lowerAll c' policy ps
  | [] => rfl
  | p :: ps => by
    simp only [lowerAll, lower_congr h policy p, lowerAll_congr h policy ps]

end

end Plan

end SnapshotSql
