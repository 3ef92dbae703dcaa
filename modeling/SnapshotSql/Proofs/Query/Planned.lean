import SnapshotSql.Operator.OfPlan
import SnapshotSql.Plan.OfStatement
import SnapshotSql.Proofs.Query.Meaning
/-! # Planned queries -/

namespace SnapshotSql

theorem Expr.isCondition_of_check {clause : Clause} {e : Expr}
    (h : e.checkCondition clause = .ok ()) : e.isCondition = true := by
  by_contra hn
  simp [checkCondition, hn] at h

namespace Plan

/-- The plan has the nodes of queries, each with the children that it takes. Buffers stand above scans
only. -/
inductive Reads : Plan → Prop
  | scan (table : TableId) (columns : List Nat) (predicates : List Expr) (tables : List String) :
      Reads ⟨.tableGet table columns .read predicates, [], tables⟩
  | filter {p : Plan} (condition : Expr) (tables : List String) (h : Reads p) :
      Reads ⟨.predicate condition, [p], tables⟩
  | literal (items : List SelectItem) (tables : List String) : Reads ⟨.project items, [], tables⟩
  | project {p : Plan} (items : List SelectItem) (tables : List String) (h : Reads p) :
      Reads ⟨.project items, [p], tables⟩
  | join {l r : Plan} (tables : List String) (hl : Reads l) (hr : Reads r) :
      Reads ⟨.join, [l, r], tables⟩
  | aggregate {p : Plan} (groupBy : List Expr) (calls : List AggregateCall) (tables : List String)
      (h : Reads p) : Reads ⟨.aggregate groupBy calls, [p], tables⟩
  | sort {p : Plan} (keys : List SortKey) (tables : List String) (h : Reads p) :
      Reads ⟨.sort keys, [p], tables⟩
  | rename {p : Plan} (qualifier : String) (tables : List String) (h : Reads p) :
      Reads ⟨.subQuery qualifier, [p], tables⟩
  | cached (table : TableId) (columns : List Nat) (predicates : List Expr)
      (tables tables' : List String) :
      Reads ⟨.cached, [⟨.tableGet table columns .read predicates, [], tables⟩], tables'⟩

variable {c : Catalog} {options : PlannerOptions} {p q : Plan} {s : Select}

theorem eq_of_ofSourceless (h : ofSourceless c s = .ok p) : p = leaf c (.project s.items) := by
  unfold ofSourceless at h
  split at h
  · cases h
  · split at h
    · cases h
    · cases h
      rfl

theorem grouped_eq_ok (h : grouped c s p = .ok q) :
    (s.items.map (·.expr) ++ s.having.toList ++ s.orderBy.map (·.expr)).findSome?
        (Expr.ungrouped? (s.groupBy.filterMap fun
          | .field ref => some ref
          | _ => none)) = none ∧
      s.groupBy.find? (·.hasAggregate) = none ∧
      (∀ condition, s.having = some condition → condition.isCondition = true) ∧
      q = s.having.elim id (filtered c) (build c (.aggregate s.groupBy (Expr.distinctCalls
        (s.items.map (·.expr) ++ s.having.toList ++ s.orderBy.map (·.expr)))) [p]) := by
  unfold grouped at h
  simp only at h
  split at h
  · cases h
  · rename_i hungrouped
    split at h
    · cases h
    · rename_i hkeys
      refine ⟨hungrouped, hkeys, ?_⟩
      cases hhaving : s.having with
      | none =>
        rw [hhaving] at h
        cases h
        exact ⟨nofun, rfl⟩
      | some having =>
        rw [hhaving] at h
        obtain ⟨_, hcheck, h⟩ := bind_eq_ok.mp h
        cases h
        refine ⟨fun condition hcondition => ?_, rfl⟩
        cases hcondition
        exact Expr.isCondition_of_check hcheck

def residual (c : Catalog) (rest : List Expr) (p : Plan) : Plan :=
  (Expr.ofConjuncts? rest).elim p (filtered c · p)

theorem finish_residual (c : Catalog) (s : Select) (rest : List Expr) (p : Plan) :
    finish c s rest p = finish c s [] (residual c rest p) := by
  unfold finish residual
  cases Expr.ofConjuncts? rest <;> rfl

/-- What a query is above its joins: the groups, if there are any, are sorted and projected. -/
theorem finish_eq_ok {rest : List Expr} (h : finish c s rest p = .ok q) : ∃ g,
    (s.isAggregate = true ∧ grouped c s (residual c rest p) = .ok g ∨
      s.isAggregate = false ∧ g = residual c rest p) ∧
    q = build c (.project s.items)
      [if s.orderBy.isEmpty then g else build c (.sort s.orderBy) [g]] := by
  rw [finish_residual] at h
  unfold finish at h
  simp only [Expr.ofConjuncts?] at h
  split at h
  · rename_i haggregate
    obtain ⟨g, hg, h⟩ := bind_eq_ok.mp h
    cases h
    exact ⟨g, .inl ⟨haggregate, hg⟩, rfl⟩
  · rename_i haggregate
    cases h
    exact ⟨_, .inr ⟨Bool.eq_false_iff.mpr haggregate, rfl⟩, rfl⟩

/-- What holds of the joins of a query and is preserved by every node that may stand above them holds of
the whole plan. -/
theorem finish_induction {P : Plan → Prop} {rest : List Expr} (h : finish c s rest p = .ok q)
    (hjoins : P p)
    (hfilter : ∀ {p} condition, Expr.ofConjuncts? rest = some condition ∨
      condition.isCondition = true → P p → P (filtered c condition p))
    (hgroups : ∀ {p} calls, P p → P (build c (.aggregate s.groupBy calls) [p]))
    (hsort : ∀ {p}, P p → P (build c (.sort s.orderBy) [p]))
    (hproject : ∀ {p}, P p → P (build c (.project s.items) [p])) : P q := by
  have hresidual : P (residual c rest p) := by
    unfold residual
    cases hrest : Expr.ofConjuncts? rest with
    | none => exact hjoins
    | some condition => exact hfilter condition (.inl hrest) hjoins
  have hgrouped : ∀ {g}, grouped c s (residual c rest p) = .ok g → P g := by
    intro g hg
    obtain ⟨_, _, hconditions, rfl⟩ := grouped_eq_ok hg
    cases hhaving : s.having with
    | none => exact hgroups _ hresidual
    | some condition =>
      exact hfilter condition (.inr (hconditions condition hhaving)) (hgroups _ hresidual)
  obtain ⟨g, hg, rfl⟩ := finish_eq_ok h
  have habove : P g := by
    rcases hg with ⟨_, hg⟩ | ⟨_, rfl⟩
    · exact hgrouped hg
    · exact hresidual
  apply hproject
  split
  · exact habove
  · exact hsort habove

theorem reads_ofSourceless (h : ofSourceless c s = .ok p) : p.Reads := by
  rw [eq_of_ofSourceless h]
  exact .literal s.items _

theorem reads_finish {rest : List Expr} (hp : p.Reads) (h : finish c s rest p = .ok q) : q.Reads :=
  finish_induction h hp (fun condition _ hp => .filter condition _ hp)
    (fun calls hp => .aggregate _ calls _ hp) (fun hp => .sort _ _ hp) fun hp => .project _ _ hp

theorem reads_attachQuery {left : Option Plan} (hleft : ∀ l, left = some l → l.Reads)
    (hp : p.Reads) : (attach c options false left p).Reads := by
  unfold attach
  cases left with
  | none => exact hp
  | some l =>
    simp only [Bool.and_false, Bool.false_eq_true, if_false]
    exact .join _ (hleft l rfl) hp

theorem reads_attachTable {left : Option Plan} (hleft : ∀ l, left = some l → l.Reads)
    (table : TableId) (columns : List Nat) (predicates : List Expr) :
    (attach c options true left (leaf c (.tableGet table columns .read predicates))).Reads := by
  unfold attach
  cases left with
  | none => exact .scan table columns predicates _
  | some l =>
    refine .join _ (hleft l rfl) ?_
    split
    · exact .cached table columns predicates _ _
    · exact .scan table columns predicates _

theorem reads_applyOn {on : Option Expr} (hp : p.Reads) (h : applyOn c on p = .ok q) :
    q.Reads := by
  cases on with
  | none =>
    cases h
    exact hp
  | some on =>
    obtain ⟨_, _, h⟩ := bind_eq_ok.mp h
    cases h
    exact .filter on _ hp

mutual

theorem reads_ofSelect : ∀ (s : Select) {p : Plan}, ofSelect c options s = .ok p → p.Reads
  | ⟨items, sources, filter, groupBy, having, orderBy⟩, p, h => by
    rw [ofSelect] at h
    split at h
    · cases h
    · simp only at h
      split at h
      · exact reads_ofSourceless h
      · obtain ⟨needs, _, h⟩ := bind_eq_ok.mp h
        obtain ⟨_, _, h⟩ := bind_eq_ok.mp h
        obtain ⟨joined, hjoined, h⟩ := bind_eq_ok.mp h
        cases joined with
        | none => exact reads_ofSourceless h
        | some joins => exact reads_finish (reads_ofSources sources (fun l hl => by cases hl) hjoined joins rfl) h

theorem reads_ofSources : ∀ (sources : List FromItem) {left out : Option Plan}
    {parts : List (List Nat × List Expr)}, (∀ l, left = some l → l.Reads) →
    ofSources c options left parts sources = .ok out → ∀ p, out = some p → p.Reads
  | [], left, out, parts, hleft, h => by
    rw [ofSources] at h
    cases h
    exact hleft
  | ⟨.table id, on⟩ :: rest, left, out, parts, hleft, h => by
    rw [ofSources] at h
    obtain ⟨plan, hplan, h⟩ := bind_eq_ok.mp h
    have hreads := reads_applyOn (reads_attachTable hleft id _ _) hplan
    exact reads_ofSources rest (fun l hl => Option.some.inj hl ▸ hreads) h
  | ⟨.query select qualifier, on⟩ :: rest, left, out, parts, hleft, h => by
    rw [ofSources] at h
    obtain ⟨inner, hinner, h⟩ := bind_eq_ok.mp h
    obtain ⟨plan, hplan, h⟩ := bind_eq_ok.mp h
    have hsub := reads_ofSelect select hinner
    have hreads := reads_applyOn (reads_attachQuery hleft (.rename qualifier _ hsub)) hplan
    exact reads_ofSources rest (fun l hl => Option.some.inj hl ▸ hreads) h

end

theorem lower_leaf (c : Catalog) (policy : ConflictPolicy) (node : PlanNode) (tables : List String) :
    lower c policy ⟨node, [], tables⟩ = node.toOperator c policy [] := rfl

theorem lower_over (c : Catalog) (policy : ConflictPolicy) (node : PlanNode) (p : Plan)
    (tables : List String) :
    lower c policy ⟨node, [p], tables⟩ =
      p.lower c policy >>= fun op => node.toOperator c policy [op] := by
  rw [lower, lowerAll, lowerAll]
  cases p.lower c policy <;> rfl

theorem lower_pair (c : Catalog) (policy : ConflictPolicy) (node : PlanNode) (p q : Plan)
    (tables : List String) :
    lower c policy ⟨node, [p, q], tables⟩ = (do
      let l ← p.lower c policy
      let r ← q.lower c policy
      node.toOperator c policy [l, r]) := by
  rw [lower, lowerAll, lowerAll, lowerAll]
  cases p.lower c policy with
  | error e => rfl
  | ok l => cases q.lower c policy <;> rfl

end Plan

namespace QueryTree

theorem fresh_iff (q : QueryTree) : q.Fresh ↔ ∀ s ∈ q.scans, s.opened = none := by
  induction q with
  | scan s => simp [Fresh, scans]
  | literal items => simp [Fresh, scans]
  | join left right ihl ihr => simp [Fresh, scans, ihl, ihr, or_imp, forall_and]
  | _ => assumption

theorem readOnly_iff (q : QueryTree) : q.ReadOnly ↔ ∀ s ∈ q.scans, s.access = .read := by
  induction q with
  | scan s => simp [ReadOnly, scans]
  | literal items => simp [ReadOnly, scans]
  | join left right ihl ihr => simp [ReadOnly, scans, ihl, ihr, or_imp, forall_and]
  | _ => assumption

end QueryTree

namespace Plan

variable {c : Catalog} {p : Plan}

def tree (c : Catalog) (policy : ConflictPolicy) : Plan → Except PlanError QueryTree
  | ⟨.tableGet table columns access predicates, [], _⟩ => do
    PlanNode.checkConditions .tableGet predicates
    let scan ← TableScan.create c table columns access predicates policy
    pure (.scan scan)
  | ⟨.predicate condition, [p], _⟩ => do
    let q ← p.tree c policy
    PlanNode.checkConditions .predicate [condition]
    pure (.filter condition policy q)
  | ⟨.project items, [], _⟩ => .ok (.literal items)
  | ⟨.project items, [p], _⟩ => (p.tree c policy).map (.project items)
  | ⟨.join, [l, r], _⟩ => do
    let l ← l.tree c policy
    let r ← r.tree c policy
    pure (.join l r)
  | ⟨.aggregate groupBy calls, [p], _⟩ => (p.tree c policy).map (.aggregate groupBy calls)
  | ⟨.sort keys, [p], _⟩ => (p.tree c policy).map (.sort keys)
  | ⟨.subQuery qualifier, [p], _⟩ => (p.tree c policy).map (.rename qualifier)
  | ⟨.cached, [p], _⟩ => (p.tree c policy).map .cached
  | ⟨node, children, _⟩ => .error (.internal (.wrongChildren node.kind children.length))

theorem lower_eq_tree (c : Catalog) (policy : ConflictPolicy) (hp : p.Reads) :
    p.lower c policy = (p.tree c policy).map QueryTree.operator := by
  induction hp with
  | scan table columns predicates tables =>
    rw [lower_leaf, PlanNode.toOperator, tree]
    cases PlanNode.checkConditions .tableGet predicates with
    | error e => rfl
    | ok _ => cases TableScan.create c table columns .read predicates policy <;> rfl
  | @filter p condition tables _ ih =>
    rw [lower_over, tree, ih]
    cases p.tree c policy with
    | error e => rfl
    | ok q =>
      simp only [Except.map, bind, Except.bind, PlanNode.toOperator]
      cases PlanNode.checkConditions .predicate [condition] <;> rfl
  | literal items tables => rfl
  | @project p items tables _ ih =>
    rw [lower_over, tree, ih]
    cases p.tree c policy <;> rfl
  | @join l r tables _ _ ihl ihr =>
    rw [lower_pair, tree, ihl, ihr]
    cases l.tree c policy with
    | error e => rfl
    | ok ql => cases r.tree c policy <;> rfl
  | @aggregate p groupBy calls tables _ ih =>
    rw [lower_over, tree, ih]
    cases p.tree c policy <;> rfl
  | @sort p keys tables _ ih =>
    rw [lower_over, tree, ih]
    cases p.tree c policy <;> rfl
  | @rename p qualifier tables _ ih =>
    rw [lower_over, tree, ih]
    cases p.tree c policy <;> rfl
  | cached table columns predicates tables tables' =>
    rw [lower_over, tree, lower_leaf, PlanNode.toOperator, tree]
    cases PlanNode.checkConditions .tableGet predicates with
    | error e => rfl
    | ok _ => cases TableScan.create c table columns .read predicates policy <;> rfl

theorem create_eq_ok {table : TableId} {columns : List Nat} {access : Access}
    {predicates : List Expr} {policy : ConflictPolicy} {s : TableScan}
    (h : TableScan.create c table columns access predicates policy = .ok s) :
    ∃ names : List CellName, s = { table, columns, names, access, predicates, policy } ∧
      names.length = columns.length ∧ ∀ k i : Nat, columns[k]? = some i →
        ∃ column : Column, (c.table table).schema.columns[i]? = some column ∧
          names[k]? = some (CellName.qualified (c.table table).schema.name column.name) := by
  obtain ⟨names, hnames, h⟩ := bind_eq_ok.mp h
  cases h
  refine ⟨names, rfl, length_of_mapM hnames, ?_⟩
  intro k i hk
  obtain ⟨name, hname, hi⟩ := getElem?_of_mapM hnames hk
  cases hcolumn : (c.table table).schema.columns[i]? with
  | none =>
    rw [hcolumn] at hi
    cases hi
  | some column =>
    rw [hcolumn] at hi
    cases hi
    exact ⟨column, rfl, hname⟩

theorem create_total {table : TableId} {columns : List Nat}
    (hcolumns : ∀ i ∈ columns, i < (c.table table).schema.width) (access : Access)
    (predicates : List Expr) (policy : ConflictPolicy) :
    ∃ s, TableScan.create c table columns access predicates policy = .ok s := by
  have hscan : ∀ {x : Except PlanError (List CellName)} {f : List CellName → TableScan},
      (∃ names, x = .ok names) → ∃ s, (do let names ← x; pure (f names)) = .ok s := by
    rintro _ f ⟨names, rfl⟩
    exact ⟨f names, rfl⟩
  refine hscan (mapM_total fun i hi => ?_)
  have hlt : i < (c.table table).schema.columns.length := hcolumns i hi
  simp only [List.getElem?_eq_getElem hlt]
  exact ⟨_, rfl⟩

theorem create_of_mem_scans {policy : ConflictPolicy} {q : QueryTree} {s : TableScan} (hp : p.Reads)
    (h : p.tree c policy = .ok q) (hs : s ∈ q.scans) : ∃ table columns predicates,
      TableScan.create c table columns .read predicates policy = .ok s := by
  have hscan : ∀ {table columns predicates tables q},
      tree c policy ⟨.tableGet table columns .read predicates, [], tables⟩ = .ok q → s ∈ q.scans →
      TableScan.create c table columns .read predicates policy = .ok s := by
    intro table columns predicates tables q h hs
    rw [tree] at h
    obtain ⟨_, _, h⟩ := bind_eq_ok.mp h
    obtain ⟨scan, hscan, h⟩ := bind_eq_ok.mp h
    cases h
    rw [List.mem_singleton.mp hs]
    exact hscan
  induction hp generalizing q with
  | scan table columns predicates tables => exact ⟨_, _, _, hscan h hs⟩
  | filter condition tables _ ih =>
    rw [tree] at h
    obtain ⟨q', hq', h⟩ := bind_eq_ok.mp h
    obtain ⟨_, _, h⟩ := bind_eq_ok.mp h
    cases h
    exact ih hq' hs
  | literal items tables =>
    cases h
    cases hs
  | join tables _ _ ihl ihr =>
    rw [tree] at h
    obtain ⟨l, hl, h⟩ := bind_eq_ok.mp h
    obtain ⟨r, hr, h⟩ := bind_eq_ok.mp h
    cases h
    rcases List.mem_append.mp hs with hs | hs
    · exact ihl hl hs
    · exact ihr hr hs
  | project items tables _ ih =>
    rw [tree] at h
    obtain ⟨q', hq', rfl⟩ := map_eq_ok.mp h
    exact ih hq' hs
  | aggregate groupBy calls tables _ ih =>
    rw [tree] at h
    obtain ⟨q', hq', rfl⟩ := map_eq_ok.mp h
    exact ih hq' hs
  | sort keys tables _ ih =>
    rw [tree] at h
    obtain ⟨q', hq', rfl⟩ := map_eq_ok.mp h
    exact ih hq' hs
  | rename qualifier tables _ ih =>
    rw [tree] at h
    obtain ⟨q', hq', rfl⟩ := map_eq_ok.mp h
    exact ih hq' hs
  | cached table columns predicates tables tables' =>
    rw [tree] at h
    obtain ⟨q', hq', rfl⟩ := map_eq_ok.mp h
    exact ⟨_, _, _, hscan hq' hs⟩

/-- The query of a plan that only reads is one, and none of its scans is open. -/
theorem readOnly_tree {policy : ConflictPolicy} {q : QueryTree} (hp : p.Reads)
    (h : p.tree c policy = .ok q) : q.Fresh ∧ q.ReadOnly := by
  rw [QueryTree.fresh_iff, QueryTree.readOnly_iff]
  constructor
  · intro s hs
    obtain ⟨table, columns, predicates, hcreate⟩ := create_of_mem_scans hp h hs
    obtain ⟨names, rfl, _⟩ := create_eq_ok hcreate
    rfl
  · intro s hs
    obtain ⟨table, columns, predicates, hcreate⟩ := create_of_mem_scans hp h hs
    obtain ⟨names, rfl, _⟩ := create_eq_ok hcreate
    rfl

/-- A plan that only reads is lowered to the operators of a query that only reads. -/
theorem lower_reads {policy : ConflictPolicy} {op : Operator} (hp : p.Reads)
    (h : p.lower c policy = .ok op) : ∃ q : QueryTree, q.operator = op ∧ q.Fresh ∧ q.ReadOnly := by
  rw [lower_eq_tree c policy hp] at h
  obtain ⟨q, hq, hop⟩ := map_eq_ok.mp h
  exact ⟨q, hop, readOnly_tree hp hq⟩

end Plan

end SnapshotSql
