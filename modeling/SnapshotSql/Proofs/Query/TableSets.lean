import SnapshotSql.Plan.OfStatement
import SnapshotSql.Proofs.Evaluation
import SnapshotSql.Proofs.Query.Finished
import SnapshotSql.Proofs.Sorted
import Mathlib.Data.String.Basic
/-! # Table sets -/

namespace SnapshotSql.Plan

variable {c now : Catalog} {p q l : Plan} {node : PlanNode} {names names' : List String}

def HasTables (names : List String) (p : Plan) : Prop :=
  p.tables.Pairwise (· < ·) ∧ ∀ name, name ∈ p.tables ↔ name ∈ names

theorem HasTables.congr (h : p.HasTables names) (hnames : ∀ name, name ∈ names ↔ name ∈ names') :
    p.HasTables names' :=
  ⟨h.1, fun name => (h.2 name).trans (hnames name)⟩

/-! ## One node -/

theorem mem_tableSet {name : String} {children : List Plan} :
    name ∈ tableSet c node children ↔
      node.ownTable? c = some name ∨ ∃ q ∈ children, name ∈ q.tables := by
  have hfold : ∀ set : List String,
      name ∈ children.foldl (fun set child => Sorted.union set child.tables) set ↔
        name ∈ set ∨ ∃ q ∈ children, name ∈ q.tables := by
    induction children with
    | nil => simp
    | cons q qs ih => simp [ih, or_assoc]
  rw [tableSet, hfold, Option.mem_toList]

theorem pairwise_tableSet (c : Catalog) (node : PlanNode) (children : List Plan) :
    (tableSet c node children).Pairwise (· < ·) := by
  have hfold : ∀ set : List String, set.Pairwise (· < ·) →
      (children.foldl (fun set child => Sorted.union set child.tables) set).Pairwise (· < ·) := by
    induction children with
    | nil => exact fun _ hset => hset
    | cons q qs ih => exact fun set hset => ih _ (Sorted.pairwise_union q.tables hset)
  apply hfold
  cases node.ownTable? c <;> simp

theorem hasTables_build {children : List Plan} (h : ∀ name,
      (node.ownTable? c = some name ∨ ∃ q ∈ children, name ∈ q.tables) ↔ name ∈ names) :
    (build c node children).HasTables names :=
  ⟨pairwise_tableSet c node children, fun name => mem_tableSet.trans (h name)⟩

theorem hasTables_leaf (h : node.ownTable? c = names.head?) (hlength : names.length ≤ 1) :
    (leaf c node).HasTables names := by
  apply hasTables_build
  intro name
  match names, hlength with
  | [], _ => simp [h]
  | [own], _ => simp [h, eq_comm]

theorem hasTables_over (h : p.HasTables names) (hnode : node.ownTable? c = none) :
    (build c node [p]).HasTables names := by
  apply hasTables_build
  intro name
  simp [hnode, h.2]

theorem hasTables_join (hl : l.HasTables names) (hp : p.HasTables names') :
    (build c .join [l, p]).HasTables (names ++ names') := by
  apply hasTables_build
  intro name
  simp [PlanNode.ownTable?, hl.2, hp.2]

/-! ## Trees that change -/

mutual

def subtrees : Plan → List Plan
  | ⟨node, children, tables⟩ => ⟨node, children, tables⟩ :: subtreesAll children

def subtreesAll : List Plan → List Plan
  | [] => []
  | p :: ps => p.subtrees ++ subtreesAll ps

end

theorem mem_subtreesAll {ps : List Plan} : q ∈ subtreesAll ps ↔ ∃ p ∈ ps, q ∈ p.subtrees := by
  induction ps with
  | nil => simp [subtreesAll]
  | cons p ps ih => simp [subtreesAll, ih]

theorem mem_nodesAll {ps : List Plan} : node ∈ nodesAll ps ↔ ∃ p ∈ ps, node ∈ p.nodes := by
  induction ps with
  | nil => simp [nodesAll]
  | cons p ps ih => simp [nodesAll, ih]

theorem self_mem_subtrees (p : Plan) : p ∈ p.subtrees := by
  cases p
  simp [subtrees]

theorem mem_subtrees_of_mem_children {child : Plan} (hchild : child ∈ p.children)
    (hq : q ∈ child.subtrees) : q ∈ p.subtrees := by
  cases p
  rw [subtrees]
  exact List.mem_cons_of_mem _ (mem_subtreesAll.mpr ⟨child, hchild, hq⟩)

/-- A tree that comes from making nodes and from attaching, replacing and detaching children, in any
order. The table of a node is called at each step as it is in `c`. -/
inductive Built (c : Catalog) : Plan → Prop
  | leaf {now : Catalog} {node : PlanNode} (hname : node.ownTable? now = node.ownTable? c) :
      Built c (leaf now node)
  | addChild {now : Catalog} {p child : Plan} (hname : p.node.ownTable? now = p.node.ownTable? c)
      (hp : Built c p) (hchild : Built c child) : Built c (p.addChild now child)
  | setChildren {now : Catalog} {p : Plan} {children : List Plan}
      (hname : p.node.ownTable? now = p.node.ownTable? c) (hp : Built c p)
      (hchildren : ∀ child ∈ children, Built c child) : Built c (p.setChildren now children)
  | bare {now : Catalog} {p : Plan} (hname : p.node.ownTable? now = p.node.ownTable? c)
      (hp : Built c p) : Built c (p.takeChildren now).1
  | detached {now : Catalog} {p child : Plan} (hp : Built c p)
      (hchild : child ∈ (p.takeChildren now).2) : Built c child

/-- All table sets of a tree are those of the nodes beneath. -/
def Tracks (c : Catalog) (p : Plan) : Prop :=
  ∀ q ∈ p.subtrees, q.HasTables (q.nodes.filterMap (·.ownTable? c))

theorem tracks_build {children : List Plan} (hname : node.ownTable? now = node.ownTable? c)
    (h : ∀ child ∈ children, child.Tracks c) : (build now node children).Tracks c := by
  intro q hq
  rw [build, subtrees] at hq
  rcases List.mem_cons.mp hq with rfl | hq
  · apply hasTables_build
    intro name
    have hbelow : (∃ child ∈ children, name ∈ child.tables) ↔
        ∃ below ∈ nodesAll children, below.ownTable? c = some name := by
      constructor
      · rintro ⟨child, hchild, hname⟩
        rw [(h child hchild child child.self_mem_subtrees).2, List.mem_filterMap] at hname
        obtain ⟨below, hbelow, hown⟩ := hname
        exact ⟨below, mem_nodesAll.mpr ⟨child, hchild, hbelow⟩, hown⟩
      · rintro ⟨below, hbelow, hown⟩
        obtain ⟨child, hchild, hbelow⟩ := mem_nodesAll.mp hbelow
        refine ⟨child, hchild, ?_⟩
        rw [(h child hchild child child.self_mem_subtrees).2, List.mem_filterMap]
        exact ⟨below, hbelow, hown⟩
    simp [nodes, hbelow, hname]
  · obtain ⟨child, hchild, hq⟩ := mem_subtreesAll.mp hq
    exact h child hchild q hq

theorem Tracks.child {child : Plan} (h : p.Tracks c) (hchild : child ∈ p.children) :
    child.Tracks c :=
  fun q hq => h q (mem_subtrees_of_mem_children hchild hq)

theorem tracks_of_built (h : Built c p) : p.Tracks c := by
  induction h with
  | leaf hname => exact tracks_build hname fun child hchild => by cases hchild
  | @addChild now p child hname _ _ ihp ihchild =>
    apply tracks_build hname
    intro q hq
    rcases List.mem_append.mp hq with hq | hq
    · exact ihp.child hq
    · rwa [List.mem_singleton.mp hq]
  | setChildren hname _ _ _ ih => exact tracks_build hname ih
  | bare hname _ _ => exact tracks_build hname fun child hchild => by cases hchild
  | detached _ hchild ih => exact ih.child hchild

/-! ## Plans of statements -/

variable {options : PlannerOptions} {s : Select}

private theorem hasTables_filtered {condition : Expr} (h : p.HasTables names) :
    (filtered c condition p).HasTables names := hasTables_over h rfl

private theorem hasTables_applyOn {on : Option Expr} (h : p.HasTables names)
    (hq : applyOn c on p = .ok q) : q.HasTables names := by
  cases on with
  | none =>
    cases hq
    exact h
  | some on =>
    obtain ⟨_, _, hq⟩ := bind_eq_ok.mp hq
    cases hq
    exact hasTables_filtered h

private theorem hasTables_attach {left : Option Plan} {isTable : Bool}
    (hleft : ∀ l, left = some l → l.HasTables names) (hnone : left = none → names = [])
    (h : p.HasTables names') : (attach c options isTable left p).HasTables (names ++ names') := by
  cases left with
  | none =>
    rw [hnone rfl]
    exact h
  | some l =>
    rw [attach]
    apply hasTables_join (hleft l rfl)
    split
    · exact hasTables_over h rfl
    · exact h

private theorem hasTables_ofSourceless (h : ofSourceless c s = .ok p) : p.HasTables [] := by
  rw [eq_of_ofSourceless h]
  exact hasTables_leaf rfl (Nat.zero_le 1)

private theorem hasTables_finish {rest : List Expr} (h : p.HasTables names)
    (hq : finish c s rest p = .ok q) : q.HasTables names :=
  finish_induction hq h (fun _ _ hp => hasTables_filtered hp) (fun _ hp => hasTables_over hp rfl)
    (fun hp => hasTables_over hp rfl) fun hp => hasTables_over hp rfl

mutual

private theorem hasTables_ofSelect : ∀ (s : Select) {p : Plan}, ofSelect c options s = .ok p →
    p.HasTables (s.tables.map c.tableName)
  | ⟨items, sources, filter, groupBy, having, orderBy⟩, p, h => by
    by_cases hsources : sources = []
    · subst hsources
      rw [ofSelect] at h
      split at h
      · cases h
      · exact hasTables_ofSourceless h
    · obtain ⟨needs, joins, _, _, hjoins, hfinish⟩ := ofSelect_eq_ok hsources h
      have hempty : ∀ l, (none : Option Plan) = some l → l.HasTables [] := fun l hl => by cases hl
      have hjoined := hasTables_ofSources sources hempty (fun _ => rfl) hjoins joins rfl
      rw [Select.tables]
      exact hasTables_finish hjoined hfinish

private theorem hasTables_ofSources : ∀ (sources : List FromItem) {left out : Option Plan}
    {parts : List (List Nat × List Expr)} {names : List String},
    (∀ l, left = some l → l.HasTables names) → (left = none → names = []) →
    ofSources c options left parts sources = .ok out →
    ∀ p, out = some p → p.HasTables (names ++ (Select.tablesOf sources).map c.tableName)
  | [], left, out, parts, names, hleft, _, h => by
    rw [ofSources] at h
    cases h
    rw [Select.tablesOf, List.map_nil, List.append_nil]
    exact hleft
  | ⟨.table id, on⟩ :: rest, left, out, parts, names, hleft, hnone, h => by
    rw [ofSources] at h
    obtain ⟨plan, hplan, h⟩ := bind_eq_ok.mp h
    have hscan : (leaf c (.tableGet id (parts.head?.getD ([], [])).1 .read
        (parts.head?.getD ([], [])).2)).HasTables [c.tableName id] := hasTables_leaf rfl (Nat.le_refl 1)
    have hjoined := hasTables_applyOn (hasTables_attach hleft hnone hscan) hplan
    have hrest := hasTables_ofSources rest (fun l hl => Option.some.inj hl ▸ hjoined)
      (fun hnone => by cases hnone) h
    rw [List.append_assoc] at hrest
    exact hrest
  | ⟨.query select qualifier, on⟩ :: rest, left, out, parts, names, hleft, hnone, h => by
    rw [ofSources] at h
    obtain ⟨inner, hinner, h⟩ := bind_eq_ok.mp h
    obtain ⟨plan, hplan, h⟩ := bind_eq_ok.mp h
    have hquery : (build c (.subQuery qualifier) [inner]).HasTables
        (select.tables.map c.tableName) := hasTables_over (hasTables_ofSelect select hinner) rfl
    have hjoined := hasTables_applyOn (hasTables_attach hleft hnone hquery) hplan
    have hrest := hasTables_ofSources rest (fun l hl => Option.some.inj hl ▸ hjoined)
      (fun hnone => by cases hnone) h
    rw [Select.tablesOf, List.map_append, ← List.append_assoc]
    exact hrest

end

private theorem hasTables_writeScan {table : TableId} {filter : Option Expr} {extra : List Expr}
    (h : writeScan c table filter extra = .ok p) : p.HasTables [c.tableName table] := by
  have hscan : (leaf c (.tableGet table (List.range (c.table table).schema.width) .write
      [])).HasTables [c.tableName table] := hasTables_leaf rfl (Nat.le_refl 1)
  obtain ⟨_, _, h⟩ := bind_eq_ok.mp h
  cases filter with
  | none =>
    cases h
    exact hscan
  | some filter =>
    obtain ⟨_, _, h⟩ := bind_eq_ok.mp h
    cases h
    exact hasTables_filtered hscan

private theorem hasTables_ofStatement : ∀ (stmt : Statement) {p : Plan},
    ofStatement c options stmt = .ok p → p.HasTables (stmt.tableNames c)
  | .compute _, p, h => by
    cases h
    exact hasTables_leaf rfl (Nat.zero_le 1)
  | .select query, p, h =>
    (hasTables_ofSelect query h).congr fun _ => Sorted.mem_ofList.symm
  | .insert _ _, p, h => by
    cases h
    exact hasTables_leaf rfl (Nat.le_refl 1)
  | .delete _ _, p, h => by
    obtain ⟨scan, hscan, h⟩ := bind_eq_ok.mp h
    cases h
    exact hasTables_over (hasTables_writeScan hscan) rfl
  | .update _ _ _, p, h => by
    obtain ⟨_, _, h⟩ := bind_eq_ok.mp h
    obtain ⟨scan, hscan, h⟩ := bind_eq_ok.mp h
    cases h
    exact hasTables_over (hasTables_writeScan hscan) rfl
  | .explain statement, p, h => by
    rw [ofStatement] at h
    obtain ⟨inner, hinner, h⟩ := bind_eq_ok.mp h
    cases h
    exact hasTables_over (hasTables_ofStatement statement hinner) rfl
  | .createTable _ _, p, h => by
    cases h
    exact hasTables_leaf rfl (Nat.le_refl 1)
  | .renameTable _ _, p, h => by
    cases h
    exact hasTables_leaf rfl (Nat.le_refl 1)

private theorem pairwise_tableNames (c : Catalog) :
    ∀ stmt : Statement, (stmt.tableNames c).Pairwise (· < ·)
  | .select _ => Sorted.pairwise_ofList _
  | .explain statement => pairwise_tableNames c statement
  | .insert _ _ | .delete _ _ | .update _ _ _ | .createTable _ _ | .renameTable _ _ =>
    List.pairwise_singleton _ _
  | .compute _ | .showTables | .begin | .commit | .rollback => .nil

/-- The tables at the root of a plan are those that its statement touches, and every node of a tree keeps
the tables of the nodes beneath it, however the tree was put together. -/
theorem tables_of_plans (c : Catalog) :
    (∀ options stmt p, ofStatement c options stmt = .ok p → p.tables = stmt.tableNames c) ∧
    ∀ p, Built c p → ∀ q ∈ p.subtrees, q.tables.Pairwise (· < ·) ∧
      ∀ name, name ∈ q.tables ↔ ∃ node ∈ q.nodes, node.ownTable? c = some name := by
  constructor
  · intro options stmt p h
    obtain ⟨hsorted, hnames⟩ := hasTables_ofStatement stmt h
    exact hsorted.eq_of_mem_iff (pairwise_tableNames c stmt) hnames
  · intro p hp q hq
    obtain ⟨hsorted, hnames⟩ := tracks_of_built hp q hq
    exact ⟨hsorted, fun name => (hnames name).trans List.mem_filterMap⟩

def tablesBA : Catalog where
  tables := #[.empty ⟨"b", [⟨"n", .integer, true⟩]⟩, .empty ⟨"a", [⟨"n", .integer, true⟩]⟩]

def explainPair : Statement :=
  let ref (table : String) : Expr := .field ⟨table, "n", .integer⟩
  .explain (.select {
    items := [⟨ref "b", none⟩]
    sources := [⟨.table ⟨0⟩, none⟩,
      ⟨.query ⟨[⟨ref "a", none⟩], [⟨.table ⟨1⟩, none⟩], none, [], none, []⟩ "s", none⟩]
    filter := none, groupBy := [], having := none, orderBy := [] })

def refilledJoin : Plan :=
  let scan (table : TableId) : Plan := leaf tablesBA (.tableGet table [0] .read [])
  (((leaf tablesBA .join).addChild tablesBA (scan ⟨0⟩)).takeChildren tablesBA).1.setChildren
    tablesBA [scan ⟨1⟩, scan ⟨0⟩]

theorem tables_of_plans_refilledJoin :
    (∃ p, ofStatement tablesBA {} explainPair = .ok p ∧ p.tables = explainPair.tableNames tablesBA) ∧
      Built tablesBA refilledJoin ∧ "a" ∈ refilledJoin.tables := by
  obtain ⟨hplans, htrees⟩ := tables_of_plans tablesBA
  have hleaf : ∀ node, Built tablesBA (leaf tablesBA node) := fun node => .leaf rfl
  have hbuilt : Built tablesBA refilledJoin := by
    apply Built.setChildren rfl (.bare rfl (.addChild rfl (hleaf _) (hleaf _)))
    simp [hleaf]
  refine ⟨⟨_, rfl, hplans {} explainPair _ rfl⟩, hbuilt, ?_⟩
  apply ((htrees refilledJoin hbuilt _ refilledJoin.self_mem_subtrees).2 "a").mpr
  exact ⟨.tableGet ⟨1⟩ [0] .read [], by simp [refilledJoin, setChildren, build, nodes, nodesAll, leaf], rfl⟩

end SnapshotSql.Plan
