import SnapshotSql.Proofs.Query.FilterAbove
/-! # The row that an operator lends -/

namespace SnapshotSql

variable {α σ : Type} {op : Operator} {db : Database} {c : Catalog} {n : Nat} {t : TxHandle}
  {env : RowView}

theorem Step.combine_ne_done (a b : Step) : a.combine b ≠ .done := by
  unfold combine
  split <;> decide

/-! ## Rows that are kept -/

namespace Buffer

def Proper (b : Buffer) : Prop := ∀ r ∈ b.rows, r.2 ≠ .done

structure Ended (b : Buffer) : Prop where
  passed : b.rows.size ≤ b.position
  left : b.current = none

theorem proper_empty : Proper {} := by simp [Proper]

theorem proper_clear (b : Buffer) : b.clear.Proper := by simp [Proper, clear]

theorem not_isSome_row? {b : Buffer} (h : b.current = none) : ¬b.row?.isSome := by simp [row?, h]

theorem next_of_ended {b : Buffer} (h : b.Ended) : b.next = (.done, b) := by
  obtain ⟨rows, position, current⟩ := b
  obtain ⟨hpassed, rfl⟩ := h
  have hnone : rows[position]? = none := Array.getElem?_eq_none hpassed
  simp [next, hnone]

theorem next_cases {b : Buffer} (h : b.Proper) :
    b.next.1 = .done ∧ b.next.2.Ended ∨ b.next.1 ≠ .done ∧ b.next.2.row?.isSome := by
  cases hrow : b.rows[b.position]? with
  | none =>
    left
    simp only [next, hrow, true_and]
    exact ⟨Array.getElem?_eq_none_iff.mp hrow, rfl⟩
  | some r =>
    right
    have hstep : r.2 ≠ .done := h r (Array.mem_of_getElem? hrow)
    simp [next, row?, hrow, hstep]

theorem proper_next {b : Buffer} (h : b.Proper) : b.next.2.Proper := by
  unfold next
  split
  · exact h
  · exact h

end Buffer

theorem StringList.proper_create (column : String) (strings : List String) :
    (StringList.create column strings).buffer.Proper := by
  intro r hr
  rw [StringList.quiet_create column strings r hr]
  decide

structure Emission.Ended (e : Emission) : Prop where
  emitted : e.emitted = true
  left : e.current = none

namespace Operator

/-! ## Lending -/

/-- The operator lends the row that it stopped on. -/
def Lends (op : Operator) : Prop := ∃ view, op.current = .ok view

private theorem owned_iff (kind : OperatorKind) (row : Option Row) :
    (∃ view, ownedRow kind row = .ok view) ↔ row.isSome := by
  cases row <;> simp [ownedRow]

private theorem mapped_iff (f : RowView → RowView) (x : Except ExecError RowView) :
    (∃ view, x.map f = .ok view) ↔ ∃ view, x = .ok view := by
  cases x <;> simp [Except.map]

@[simp] theorem lends_tableScan (s : TableScan) :
    (tableScan s).Lends ↔ s.current.isSome := by
  unfold Lends current
  cases s.current <;> simp

@[simp] theorem not_lends_predicate_nil (condition : Expr) (policy : ConflictPolicy) :
    ¬(predicate condition policy []).Lends := nofun

@[simp] theorem lends_predicate (condition : Expr) (policy : ConflictPolicy) (input : Operator)
    (rest : List Operator) : (predicate condition policy (input :: rest)).Lends ↔ input.Lends := by
  simp only [Lends, current]

@[simp] theorem not_lends_project_nil (items : List SelectItem) :
    ¬(project items [] none).Lends := nofun

@[simp] theorem lends_project_literal (items : List SelectItem) (literal : StringList) :
    (project items [] (some literal)).Lends ↔ literal.buffer.row?.isSome := by
  simp only [Lends, current, mapped_iff, owned_iff]

@[simp] theorem lends_project (items : List SelectItem) (input : Operator) (rest : List Operator)
    (literal : Option StringList) :
    (project items (input :: rest) literal).Lends ↔ input.Lends := by
  simp only [Lends, current, mapped_iff]

@[simp] theorem lends_compute (exprs : List Expr) (e : Emission) :
    (compute exprs e).Lends ↔ e.current.isSome := by
  simp only [Lends, current, owned_iff]

@[simp] theorem lends_join (left right : Operator) (state : JoinState) :
    (join left right state).Lends ↔ left.Lends ∧ right.Lends := by
  unfold Lends
  rw [current]
  cases left.current <;> cases right.current <;> simp [bind, Except.bind, pure, Except.pure]

@[simp] theorem not_lends_insert (table : TableId) (records : List (List Value))
    (affected : Option Nat) : ¬(insert table records affected).Lends := nofun

@[simp] theorem not_lends_delete (table : TableId) (input : Operator) (affected : Option Nat) :
    ¬(delete table input affected).Lends := nofun

@[simp] theorem not_lends_update (table : TableId) (assignments : List (Nat × Expr))
    (input : Operator) (affected : Option Nat) :
    ¬(update table assignments input affected).Lends := nofun

@[simp] theorem lends_explain (input : Operator) (e : Emission) :
    (explain input e).Lends ↔ e.current.isSome := by
  simp only [Lends, current, owned_iff]

@[simp] theorem not_lends_createTable (name : String) (columns : List Column) :
    ¬(createTable name columns).Lends := nofun

@[simp] theorem not_lends_rename (table : TableId) (newName : String) :
    ¬(rename table newName).Lends := nofun

@[simp] theorem lends_aggregate (groupBy : List Expr) (calls : List AggregateCall) (input : Operator)
    (b : Buffer) : (aggregate groupBy calls input b).Lends ↔ b.row?.isSome := by
  simp only [Lends, current, owned_iff]

@[simp] theorem lends_sort (keys : List SortKey) (input : Operator) (b : Buffer) :
    (sort keys input b).Lends ↔ b.row?.isSome := by
  simp only [Lends, current, owned_iff]

@[simp] theorem lends_subQuery (qualifier : String) (input : Operator) :
    (subQuery qualifier input).Lends ↔ input.Lends := by
  simp only [Lends, current, mapped_iff]

@[simp] theorem lends_cached (input : Operator) (b : Buffer) (owner : Option TxHandle) :
    (cached input b owner).Lends ↔ b.row?.isSome := by
  simp only [Lends, current, owned_iff]

@[simp] theorem lends_stringList (s : StringList) :
    (stringList s).Lends ↔ s.buffer.row?.isSome := by
  simp only [Lends, current, owned_iff]

/-! ## States -/

/-- The tree is as it was built: nothing in it has been opened, advanced or closed. -/
inductive Unused : Operator → Prop
  | tableScan {s : TableScan} (hopened : s.opened = none) (hcursor : s.cursor = 0)
      (hcurrent : s.current = none) : Unused (.tableScan s)
  | predicate {condition : Expr} {policy : ConflictPolicy} {inputs : List Operator}
      (h : ∀ input ∈ inputs, Unused input) : Unused (.predicate condition policy inputs)
  | project {items : List SelectItem} {inputs : List Operator} (h : ∀ input ∈ inputs, Unused input) :
      Unused (.project items inputs none)
  | compute (exprs : List Expr) : Unused (.compute exprs {})
  | join {left right : Operator} (hl : Unused left) (hr : Unused right) :
      Unused (.join left right {})
  | insert (table : TableId) (records : List (List Value)) : Unused (.insert table records none)
  | delete {table : TableId} {input : Operator} (h : Unused input) :
      Unused (.delete table input none)
  | update {table : TableId} {assignments : List (Nat × Expr)} {input : Operator} (h : Unused input) :
      Unused (.update table assignments input none)
  | explain {input : Operator} (h : Unused input) : Unused (.explain input {})
  | createTable (name : String) (columns : List Column) : Unused (.createTable name columns)
  | rename (table : TableId) (newName : String) : Unused (.rename table newName)
  | aggregate {groupBy : List Expr} {calls : List AggregateCall} {input : Operator}
      (h : Unused input) : Unused (.aggregate groupBy calls input {})
  | sort {keys : List SortKey} {input : Operator} (h : Unused input) : Unused (.sort keys input {})
  | subQuery {qualifier : String} {input : Operator} (h : Unused input) :
      Unused (.subQuery qualifier input)
  | cached {input : Operator} (h : Unused input) : Unused (.cached input {} none)
  | stringList (column : String) (strings : List String) :
      Unused (.stringList (.create column strings))

/-- What holds of a tree between two calls. Inputs that are read through while their parent is opened may
be in any state, as they are opened again before they are read again. -/
inductive Coherent : Operator → Prop
  | tableScan (s : TableScan) : Coherent (.tableScan s)
  | predicate {condition : Expr} {policy : ConflictPolicy} {inputs : List Operator}
      (h : ∀ input ∈ inputs, Coherent input) : Coherent (.predicate condition policy inputs)
  | project {items : List SelectItem} {inputs : List Operator} {literal : Option StringList}
      (h : ∀ input ∈ inputs, Coherent input) (hl : ∀ l ∈ literal, l.buffer.Proper) :
      Coherent (.project items inputs literal)
  | compute (exprs : List Expr) (e : Emission) : Coherent (.compute exprs e)
  /-- While partners of a left row are listed, that row is lent. -/
  | join {left right : Operator} {state : JoinState} (hl : Coherent left) (hr : Coherent right)
      (hs : state.leftStep ≠ none → left.Lends) : Coherent (.join left right state)
  | insert (table : TableId) (records : List (List Value)) (affected : Option Nat) :
      Coherent (.insert table records affected)
  | delete (table : TableId) (input : Operator) (affected : Option Nat) :
      Coherent (.delete table input affected)
  | update (table : TableId) (assignments : List (Nat × Expr)) (input : Operator)
      (affected : Option Nat) : Coherent (.update table assignments input affected)
  | explain (input : Operator) (e : Emission) : Coherent (.explain input e)
  | createTable (name : String) (columns : List Column) : Coherent (.createTable name columns)
  | rename (table : TableId) (newName : String) : Coherent (.rename table newName)
  | aggregate {groupBy : List Expr} {calls : List AggregateCall} {input : Operator} {b : Buffer}
      (hb : b.Proper) : Coherent (.aggregate groupBy calls input b)
  | sort {keys : List SortKey} {input : Operator} {b : Buffer} (hb : b.Proper) :
      Coherent (.sort keys input b)
  | subQuery {qualifier : String} {input : Operator} (h : Coherent input) :
      Coherent (.subQuery qualifier input)
  | cached {input : Operator} {b : Buffer} {owner : Option TxHandle} (hb : b.Proper) :
      Coherent (.cached input b owner)
  | stringList {s : StringList} (hb : s.buffer.Proper) : Coherent (.stringList s)

/-- The tree has come to its end, with the tables as long as they are in a catalog. -/
inductive Ended (c : Catalog) : Operator → Prop
  | tableScan {s : TableScan} (hopened : s.opened ≠ none)
      (hcursor : (c.table s.table).versions.size ≤ s.cursor) (hcurrent : s.current = none) :
      Ended c (.tableScan s)
  | predicate {condition : Expr} {policy : ConflictPolicy} {input : Operator} {rest : List Operator}
      (h : Ended c input) : Ended c (.predicate condition policy (input :: rest))
  | literal {items : List SelectItem} {l : StringList} (hb : l.buffer.Ended) :
      Ended c (.project items [] (some l))
  | project {items : List SelectItem} {input : Operator} {rest : List Operator}
      {literal : Option StringList} (h : Ended c input) :
      Ended c (.project items (input :: rest) literal)
  | compute {exprs : List Expr} {e : Emission} (he : e.Ended) : Ended c (.compute exprs e)
  | join {left right : Operator} {t : TxHandle} (h : Ended c left) :
      Ended c (.join left right { tx := some t })
  | insert (table : TableId) (records : List (List Value)) (affected : Option Nat) :
      Ended c (.insert table records affected)
  | delete (table : TableId) (input : Operator) (affected : Option Nat) :
      Ended c (.delete table input affected)
  | update (table : TableId) (assignments : List (Nat × Expr)) (input : Operator)
      (affected : Option Nat) : Ended c (.update table assignments input affected)
  | explain {input : Operator} {e : Emission} (he : e.Ended) : Ended c (.explain input e)
  | createTable (name : String) (columns : List Column) : Ended c (.createTable name columns)
  | rename (table : TableId) (newName : String) : Ended c (.rename table newName)
  | aggregate {groupBy : List Expr} {calls : List AggregateCall} {input : Operator} {b : Buffer}
      (hb : b.Ended) : Ended c (.aggregate groupBy calls input b)
  | sort {keys : List SortKey} {input : Operator} {b : Buffer} (hb : b.Ended) :
      Ended c (.sort keys input b)
  | subQuery {qualifier : String} {input : Operator} (h : Ended c input) :
      Ended c (.subQuery qualifier input)
  | cached {input : Operator} {b : Buffer} {owner : Option TxHandle} (hb : b.Ended) :
      Ended c (.cached input b owner)
  | stringList {s : StringList} (hb : s.buffer.Ended) : Ended c (.stringList s)

theorem coherent_of_unused (h : op.Unused) : op.Coherent := by
  induction h with
  | tableScan => exact .tableScan _
  | predicate _ ih => exact .predicate ih
  | project _ ih => exact .project ih nofun
  | compute exprs => exact .compute exprs {}
  | join _ _ ihl ihr => exact .join ihl ihr (absurd rfl)
  | insert table records => exact .insert table records none
  | delete _ _ => exact .delete _ _ none
  | update _ _ => exact .update _ _ _ none
  | explain _ _ => exact .explain _ {}
  | createTable name columns => exact .createTable name columns
  | rename table newName => exact .rename table newName
  | aggregate _ _ => exact .aggregate Buffer.proper_empty
  | sort _ _ => exact .sort Buffer.proper_empty
  | subQuery _ ih => exact .subQuery ih
  | cached _ _ => exact .cached Buffer.proper_empty
  | stringList column strings => exact .stringList (StringList.proper_create column strings)

theorem not_lends_of_unused (h : op.Unused) : ¬op.Lends := by
  induction h with
  | tableScan _ _ hcurrent => simp [hcurrent]
  | @predicate _ _ inputs _ ih => cases inputs <;> simp_all
  | @project _ inputs _ ih => cases inputs <;> simp_all
  | join _ _ ihl _ => simp [ihl]
  | subQuery _ ih => simpa using ih
  | aggregate | sort | cached | stringList => simp [Buffer.row?, StringList.create]
  | _ => simp

theorem not_lends_of_ended (h : op.Ended c) : ¬op.Lends := by
  induction h with
  | tableScan _ _ hcurrent => simp [hcurrent]
  | predicate _ ih => simpa using ih
  | project _ ih => simpa using ih
  | subQuery _ ih => simpa using ih
  | join _ ih => simp [ih]
  | compute he => simp [he.left]
  | explain he => simp [he.left]
  | literal hb | aggregate hb | sort hb | cached hb | stringList hb =>
    simpa using Buffer.not_isSome_row? hb.left
  | _ => simp

theorem ended_congr {c' : Catalog} (h : op.Ended c)
    (hsize : ∀ table, (c'.table table).versions.size = (c.table table).versions.size) :
    op.Ended c' := by
  induction h with
  | tableScan hopened hcursor hcurrent => exact .tableScan hopened (hsize _ ▸ hcursor) hcurrent
  | predicate _ ih => exact .predicate ih
  | literal hb => exact .literal hb
  | project _ ih => exact .project ih
  | compute he => exact .compute he
  | join _ ih => exact .join ih
  | insert table records affected => exact .insert table records affected
  | delete table input affected => exact .delete table input affected
  | update table assignments input affected => exact .update table assignments input affected
  | explain he => exact .explain he
  | createTable name columns => exact .createTable name columns
  | rename table newName => exact .rename table newName
  | aggregate hb => exact .aggregate hb
  | sort hb => exact .sort hb
  | subQuery _ ih => exact .subQuery ih
  | cached hb => exact .cached hb
  | stringList hb => exact .stringList hb

end Operator

end SnapshotSql
