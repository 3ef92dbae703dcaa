import SnapshotSql.Expr.Fields
import SnapshotSql.Proofs.Row.Alike
/-! # The failures of an evaluation -/

namespace SnapshotSql

variable {α β : Type} {P Q : ExecError → Prop}

/-- If the evaluation fails, it is with such an error. -/
def Raises (P : ExecError → Prop) (x : Except ExecError α) : Prop := ∀ e, x = .error e → P e

namespace Raises

theorem ok (a : α) : Raises P (.ok a) := by
  rintro e ⟨⟩

theorem error {e : ExecError} (h : P e) : Raises P (.error e : Except ExecError α) := by
  rintro e ⟨⟩
  exact h

theorem mono {x : Except ExecError α} (h : Raises P x) (hPQ : ∀ e, P e → Q e) : Raises Q x :=
  fun e he => hPQ e (h e he)

theorem bind {x : Except ExecError α} {f : α → Except ExecError β} (hx : Raises P x)
    (hf : ∀ a, x = .ok a → Raises P (f a)) : Raises P (x >>= f) := by
  cases x with
  | error e => exact error (hx e rfl)
  | ok a => exact hf a rfl

theorem map {x : Except ExecError α} {f : α → β} (hx : Raises P x) : Raises P (x.map f) := by
  cases x with
  | error e => exact error (hx e rfl)
  | ok a => exact ok (f a)

theorem mapM {f : α → Except ExecError β} {xs : List α} (hf : ∀ x ∈ xs, Raises P (f x)) :
    Raises P (xs.mapM f) := by
  induction xs with
  | nil => exact ok []
  | cons x xs ih =>
    rw [List.mapM_cons]
    exact (hf x List.mem_cons_self).bind fun _ _ =>
      (ih fun y hy => hf y (List.mem_cons_of_mem x hy)).bind fun _ _ => ok _

end Raises

/-! ## Values -/

/-- The failures of computing with values and of reading cells by their index. -/
inductive ExecError.Computing : ExecError → Prop
  | notNumeric (actual : DataType) : Computing (.notNumeric actual)
  | divisionByZero : Computing .divisionByZero
  | overflow (operation : Overflow) : Computing (.overflow operation)
  | negateTwoOperands : Computing (.internal .negateTwoOperands)
  | cellOutOfRange (index count : Nat) : Computing (.internal (.cellOutOfRange index count))

namespace Value

theorem raises_negate (a : Value) : Raises ExecError.Computing a.negate := by
  unfold negate
  split
  · exact .ok _
  · split
    · exact .ok _
    · exact .error (.overflow _)
  · exact .ok _
  · exact .error (.notNumeric _)

private theorem raises_toDouble (a : Value) : Raises ExecError.Computing a.toDouble := by
  unfold toDouble
  split
  · exact .ok _
  · exact .error (.notNumeric _)

private theorem raises_floatArith (op : ArithOp) (x y : Double) :
    Raises ExecError.Computing (floatArith op x y) := by
  unfold floatArith
  split
  · exact .ok _
  · exact .ok _
  · exact .ok _
  · split
    · exact .error .divisionByZero
    · exact .ok _
  · exact .error .negateTwoOperands

theorem raises_arith (op : ArithOp) (a b : Value) : Raises ExecError.Computing (a.arith op b) := by
  unfold arith
  split
  · exact .ok _
  · exact .ok _
  · split
    · exact (raises_floatArith _ _ _).map
    · split
      · exact .ok _
      · exact .error (.overflow _)
  · exact (raises_toDouble _).bind fun _ _ => (raises_toDouble _).bind fun _ _ =>
      (raises_floatArith _ _ _).map

end Value

/-! ## Expressions -/

theorem Lookup.raises_require {find : Lookup} {name : CellName} (hfind : Raises P (find name))
    (hmissing : find name = .ok none → P (.fieldNotFound name)) : Raises P (find.require name) := by
  refine hfind.bind fun found hfound => ?_
  cases found with
  | none => exact .error (hmissing hfound)
  | some v => exact .ok v

namespace Expr

/-- The names that an expression looks up are among these. -/
structure Within (N : CellName → Prop) (e : Expr) : Prop where
  field : ∀ ref ∈ e.plainFields, N (.qualified ref.table ref.field)
  call : ∀ call ∈ e.calls, N (.plain call.render)

theorem within_all (e : Expr) : e.Within fun _ => True :=
  ⟨fun _ _ => trivial, fun _ _ => trivial⟩

variable {N : CellName → Prop} {find : Lookup}

theorem within_junction {es : List Expr} (h : ∀ e ∈ es, e.Within N) (kind : Junction) :
    (junction kind es).Within N := by
  have hall : (∀ ref ∈ plainFieldsAll es, N (.qualified ref.table ref.field)) ∧
      ∀ call ∈ callsAll es, N (.plain call.render) := by
    induction es with
    | nil => simp [plainFieldsAll, callsAll]
    | cons e es ih =>
      rw [List.forall_mem_cons] at h
      rw [plainFieldsAll, callsAll, List.forall_mem_append, List.forall_mem_append]
      exact ⟨⟨h.1.field, (ih h.2).1⟩, h.1.call, (ih h.2).2⟩
  exact ⟨by rw [plainFields]; exact hall.1, by rw [calls]; exact hall.2⟩

theorem within_ofConjuncts? {es : List Expr} {e : Expr} (h : ∀ t ∈ es, t.Within N)
    (he : ofConjuncts? es = some e) : e.Within N := by
  match es, he with
  | [_], he =>
    cases he
    exact h e List.mem_cons_self
  | _ :: _ :: _, he =>
    cases he
    exact within_junction h .all

mutual

/-- An expression fails in its computations or in looking up one of its names. -/
theorem raises_eval (hP : ∀ e, ExecError.Computing e → P e)
    (hfind : ∀ name, N name → Raises P (find.require name)) : ∀ {e : Expr},
    (∀ ref ∈ e.plainFields, N (.qualified ref.table ref.field)) →
    (∀ call ∈ e.calls, N (.plain call.render)) → Raises P (e.eval find)
  | .field ref, hfields, _ => by
    rw [eval]
    exact hfind _ (hfields ref (by rw [plainFields]; exact List.mem_singleton_self ref))
  | .literal v, _, _ => by
    rw [eval]
    exact .ok v
  | .comparison op l r, hfields, hcalls => by
    rw [plainFields, List.forall_mem_append] at hfields
    rw [calls, List.forall_mem_append] at hcalls
    rw [eval]
    exact (raises_eval hP hfind hfields.1 hcalls.1).bind fun _ _ =>
      (raises_eval hP hfind hfields.2 hcalls.2).bind fun _ _ => .ok _
  | .junction kind terms, hfields, hcalls => by
    rw [plainFields] at hfields
    rw [calls] at hcalls
    rw [eval]
    exact (raises_evalUntil hP hfind _ hfields hcalls).bind fun _ _ => .ok _
  | .arithmetic op e none, hfields, hcalls => by
    rw [plainFields] at hfields
    rw [calls] at hcalls
    rw [eval]
    exact (raises_eval hP hfind hfields hcalls).bind fun a _ => (Value.raises_negate a).mono hP
  | .arithmetic op l (some r), hfields, hcalls => by
    rw [plainFields, List.forall_mem_append] at hfields
    rw [calls, List.forall_mem_append] at hcalls
    rw [eval]
    exact (raises_eval hP hfind hfields.1 hcalls.1).bind fun a _ =>
      (raises_eval hP hfind hfields.2 hcalls.2).bind fun b _ => (Value.raises_arith op a b).mono hP
  | .isNull e negated, hfields, hcalls => by
    rw [plainFields] at hfields
    rw [calls] at hcalls
    rw [eval]
    exact (raises_eval hP hfind hfields hcalls).bind fun _ _ => .ok _
  | .aggregate fn arg, _, hcalls => by
    rw [eval]
    exact hfind _ (hcalls ⟨fn, arg⟩ (by rw [calls]; exact List.mem_singleton_self _))

theorem raises_evalUntil (hP : ∀ e, ExecError.Computing e → P e)
    (hfind : ∀ name, N name → Raises P (find.require name)) (stop : Bool) : ∀ {es : List Expr},
    (∀ ref ∈ plainFieldsAll es, N (.qualified ref.table ref.field)) →
    (∀ call ∈ callsAll es, N (.plain call.render)) → Raises P (evalUntil find stop es)
  | [], _, _ => by
    rw [evalUntil]
    exact .ok false
  | e :: es, hfields, hcalls => by
    rw [plainFieldsAll, List.forall_mem_append] at hfields
    rw [callsAll, List.forall_mem_append] at hcalls
    rw [evalUntil]
    refine (raises_eval hP hfind hfields.1 hcalls.1).bind fun _ _ => ?_
    split
    · exact .ok true
    · exact raises_evalUntil hP hfind stop hfields.2 hcalls.2

end

end Expr

/-! ## Rows -/

namespace RowView

private theorem raises_cellOf (cells : List α) (i count : Nat) :
    Raises ExecError.Computing (cellOf cells i count) := by
  unfold cellOf
  split
  · exact .ok _
  · exact .error (.cellOutOfRange i count)

theorem raises_nameAt (v : RowView) (i : Nat) : Raises ExecError.Computing (v.nameAt i) := by
  induction v generalizing i with
  | empty => exact .error (.cellOutOfRange i 0)
  | owned row => exact raises_cellOf _ _ _
  | stored names indexes version => exact raises_cellOf _ _ _
  | joined l r ihl ihr =>
    rw [nameAt]
    split
    · exact ihl i
    · exact ihr _
  | projected items inner _ => exact (raises_cellOf _ _ _).map
  | qualified qualifier inner ih => exact (ih i).map

private theorem raises_firstAnswer {nameAt : Nat → Except ExecError CellName}
    {cellAt : Nat → Except ExecError Value} (hname : ∀ i, Raises P (nameAt i))
    (hcell : ∀ i, Raises P (cellAt i)) (wanted : CellName) (is : List Nat) :
    Raises P (firstAnswer nameAt cellAt wanted is) := by
  induction is with
  | nil => exact .ok none
  | cons i is ih =>
    rw [firstAnswer]
    refine (hname i).bind fun name _ => ?_
    split
    · exact (hcell i).map
    · exact ih

private theorem firstAnswer_ne_none {nameAt : Nat → Except ExecError CellName}
    {cellAt : Nat → Except ExecError Value} {wanted name : CellName} {i : Nat} {is : List Nat}
    (hi : i ∈ is) (hname : nameAt i = .ok name) (hanswers : name.answers wanted = true) :
    firstAnswer nameAt cellAt wanted is ≠ .ok none := by
  induction is with
  | nil => cases hi
  | cons j is ih =>
    intro hnone
    rw [firstAnswer] at hnone
    obtain ⟨other, hother, hnone⟩ := bind_eq_ok.mp hnone
    split at hnone
    · obtain ⟨x, _, hx⟩ := map_eq_ok.mp hnone
      cases hx
    · rename_i hj
      rcases List.mem_cons.mp hi with rfl | hi
      · cases hname.symm.trans hother
        exact hj hanswers
      · exact ih hi hnone

private theorem firstAnswer_of_take {cellAt : Nat → Except ExecError Value} {wanted cell : CellName}
    {names : List CellName} {n : Nat} (hcell : cell ∈ names.take n)
    (hanswers : cell.answers wanted = true) :
    firstAnswer (fun i => cellOf names i names.length) cellAt wanted (List.range n) ≠ .ok none := by
  obtain ⟨i, hi, rfl⟩ := List.getElem_of_mem hcell
  rw [List.length_take, Nat.lt_min] at hi
  rw [List.getElem_take] at hanswers
  refine firstAnswer_ne_none (List.mem_range.mpr hi.1) ?_ hanswers
  rw [cellOf, List.getElem?_eq_getElem hi.2]

/-- Reading the view fails in these ways only, also where one of the names is looked up. -/
structure Supplies (P : ExecError → Prop) (N : CellName → Prop) (v : RowView) : Prop where
  cell : ∀ i, Raises P (v.cellAt i)
  find : ∀ name, Raises P (v.find name)
  missing : ∀ name, N name → v.find name = .ok none → P (.fieldNotFound name)

variable {N M : CellName → Prop} {v l r : RowView}

namespace Supplies

theorem weaken (h : v.Supplies P N) (hNM : ∀ name, M name → N name) : v.Supplies P M :=
  ⟨h.cell, h.find, fun name hname => h.missing name (hNM name hname)⟩

theorem all (h : v.Supplies P N) (hP : ∀ name, P (.fieldNotFound name)) : v.Supplies P M :=
  ⟨h.cell, h.find, fun name _ _ => hP name⟩

theorem eval (hP : ∀ e, ExecError.Computing e → P e) (h : v.Supplies P N) {e : Expr}
    (he : e.Within N) : Raises P (v.eval e) :=
  Expr.raises_eval hP (fun name hname => Lookup.raises_require (h.find name) (h.missing name hname))
    he.field he.call

theorem holds (hP : ∀ e, ExecError.Computing e → P e) (h : v.Supplies P N) {e : Expr}
    (he : e.Within N) : Raises P (v.holds e) :=
  (h.eval hP he).bind fun _ _ => .ok _

theorem holdsAll (hP : ∀ e, ExecError.Computing e → P e) (h : v.Supplies P N) {es : List Expr}
    (hes : ∀ e ∈ es, e.Within N) : Raises P (v.holdsAll es) := by
  induction es with
  | nil => exact .ok true
  | cons e es ih =>
    rw [List.forall_mem_cons] at hes
    refine (h.holds hP hes.1).bind fun held _ => ?_
    split
    · exact ih hes.2
    · exact .ok false

theorem evalAll (hP : ∀ e, ExecError.Computing e → P e) (h : v.Supplies P N) {es : List Expr}
    (hes : ∀ e ∈ es, e.Within N) : Raises P (v.evalAll es) :=
  .mapM fun e he => h.eval hP (hes e he)

theorem values (h : v.Supplies P N) : Raises P v.values := .mapM fun i _ => h.cell i

theorem copy (hP : ∀ e, ExecError.Computing e → P e) (h : v.Supplies P N) : Raises P v.copy := by
  have hnames : Raises P v.names := .mapM fun i _ => (v.raises_nameAt i).mono hP
  exact hnames.bind fun _ _ => h.values.bind fun _ _ => .ok _

end Supplies

section

variable (hP : ∀ e, ExecError.Computing e → P e)
include hP

theorem supplies_empty : RowView.empty.Supplies P fun _ => False where
  cell i := .error (hP _ (.cellOutOfRange i 0))
  find _ := .ok none
  missing _ h := h.elim

theorem supplies_owned (row : Row) : (owned row).Supplies P
    fun name => ∃ cell ∈ row.names.take row.values.length, cell.answers name = true where
  cell i := (raises_cellOf _ _ _).mono hP
  find name := by
    rw [RowView.find]
    exact raises_firstAnswer (fun i => (raises_cellOf _ _ _).mono hP)
      (fun i => (raises_cellOf _ _ _).mono hP) name _
  missing name hname hnone := by
    obtain ⟨cell, hcell, hanswers⟩ := hname
    rw [RowView.find] at hnone
    exact absurd hnone (firstAnswer_of_take hcell hanswers)

theorem supplies_stored (names : List CellName) (indexes : List Nat) (version : Version) :
    (stored names indexes version).Supplies P
      fun name => ∃ cell ∈ names.take indexes.length, cell.answers name = true := by
  have hcell : ∀ i, Raises P ((stored names indexes version).cellAt i) := by
    intro i
    rw [cellAt]
    split
    · exact .ok _
    · exact .error (hP _ (.cellOutOfRange _ _))
  constructor
  case cell => exact hcell
  case find =>
    intro name
    rw [RowView.find]
    exact raises_firstAnswer (fun i => (raises_cellOf _ _ _).mono hP) hcell name _
  case missing =>
    rintro name ⟨cell, hmem, hanswers⟩ hnone
    rw [RowView.find] at hnone
    exact absurd hnone (firstAnswer_of_take hmem hanswers)

theorem supplies_projected {items : List SelectItem} {inner : RowView}
    (hitems : ∀ item ∈ items, Raises P (inner.eval item.expr)) :
    (projected items inner).Supplies P
      fun name => ∃ item ∈ items, item.cellName.answers name = true where
  cell i := by
    rw [cellAt]
    refine ((raises_cellOf items i items.length).mono hP).bind fun item hitem => hitems item ?_
    unfold cellOf at hitem
    split at hitem
    · cases hitem
      exact List.mem_of_getElem? ‹_›
    · cases hitem
  find name := by
    rw [RowView.find]
    split
    · exact .ok none
    · rename_i item hitem
      exact (hitems item (List.mem_of_find?_eq_some hitem)).map
  missing name hname hnone := by
    obtain ⟨item, hitem, hanswers⟩ := hname
    rw [RowView.find] at hnone
    split at hnone
    · rename_i hfind
      exact absurd hanswers (List.find?_eq_none.mp hfind item hitem)
    · obtain ⟨x, _, hx⟩ := map_eq_ok.mp hnone
      cases hx

theorem supplies_qualified (qualifier : String) (h : v.Supplies P N) :
    (qualified qualifier v).Supplies P fun name => ∃ i < v.cellCount, ∃ cell,
      v.nameAt i = .ok cell ∧ (CellName.qualified qualifier cell.field).answers name = true where
  cell := h.cell
  find name := by
    rw [RowView.find]
    exact raises_firstAnswer (fun i => ((v.raises_nameAt i).mono hP).map) h.cell name _
  missing name hname hnone := by
    obtain ⟨i, hi, cell, hcell, hanswers⟩ := hname
    rw [RowView.find] at hnone
    refine absurd hnone (firstAnswer_ne_none (List.mem_range.mpr hi) ?_ hanswers)
    rw [hcell]
    rfl

end

theorem Supplies.joined (hl : l.Supplies P N) (hr : r.Supplies P M) :
    (joined l r).Supplies P fun name => N name ∨ M name where
  cell i := by
    rw [cellAt]
    split
    · exact hl.cell i
    · exact hr.cell _
  find name := by
    rw [RowView.find]
    refine (hl.find name).bind fun found _ => ?_
    cases found with
    | none => exact hr.find name
    | some a => exact .ok _
  missing name hname hnone := by
    rw [RowView.find] at hnone
    obtain ⟨found, hfound, hnone⟩ := bind_eq_ok.mp hnone
    cases found with
    | some a => cases hnone
    | none =>
      rcases hname with hname | hname
      · exact hl.missing name hname hfound
      · exact hr.missing name hname hnone

theorem Supplies.owned (hP : ∀ e, ExecError.Computing e → P e) {row : Row} (h : v.Supplies P N)
    (hrow : v.copy = .ok row) : (RowView.owned row).Supplies P N where
  cell i := (raises_cellOf _ _ _).mono hP
  find name := by
    rw [← (alike_copy hrow).find]
    exact h.find name
  missing name hname := by
    rw [← (alike_copy hrow).find]
    exact h.missing name hname

/-- Where empty lookups are among the failures, every view supplies all names. -/
theorem supplies_any (hP : ∀ e, ExecError.Computing e → P e) (hmissing : ∀ name, P (.fieldNotFound name))
    (v : RowView) : v.Supplies P fun _ => True := by
  induction v with
  | empty => exact (supplies_empty hP).all hmissing
  | owned row => exact (supplies_owned hP row).all hmissing
  | stored names indexes version => exact (supplies_stored hP names indexes version).all hmissing
  | joined l r ihl ihr => exact (ihl.joined ihr).all hmissing
  | projected items inner ih =>
    exact (supplies_projected hP fun item _ => ih.eval hP item.expr.within_all).all hmissing
  | qualified qualifier inner ih => exact (supplies_qualified hP qualifier ih).all hmissing

end RowView

end SnapshotSql
