import SnapshotSql.Proofs.Query.Yields
/-! # Failures of evaluation -/

namespace SnapshotSql

variable {α β : Type}

/-- The failure is not about what was evaluated: the steps have run out, or a transaction refuses. -/
inductive ExecError.Foreign : ExecError → Prop
  | stepLimit : Foreign (.internal .stepLimit)
  | transaction (cause : TxError) : Foreign (.transaction cause)

/-- If the evaluation fails, it does so over what is evaluated. -/
def Genuine (x : Except ExecError α) : Prop := ∀ e : ExecError, x = .error e → ¬e.Foreign

theorem genuine_ok (a : α) : Genuine (.ok a : Except ExecError α) := Raises.ok a

theorem genuine_bind {x : Except ExecError α} {f : α → Except ExecError β} (hx : Genuine x)
    (hf : ∀ a, Genuine (f a)) : Genuine (x >>= f) :=
  Raises.bind hx fun a _ => hf a

theorem genuine_map {x : Except ExecError α} {f : α → β} (hx : Genuine x) : Genuine (x.map f) :=
  Raises.map hx

private theorem not_foreign_of_computing (e : ExecError) (h : e.Computing) : ¬e.Foreign := by
  cases h <;> rintro ⟨⟩

private theorem not_foreign_sortPanic : ¬ExecError.sortPanic.Foreign := nofun

private theorem not_foreign_fieldNotFound (name : CellName) : ¬(ExecError.fieldNotFound name).Foreign := by
  rintro ⟨⟩

/-! ## Rows -/

namespace RowView

private theorem supplies_genuine (v : RowView) : v.Supplies (¬·.Foreign) fun _ => True :=
  v.supplies_any not_foreign_of_computing not_foreign_fieldNotFound

theorem genuine_values (v : RowView) : Genuine v.values := v.supplies_genuine.values

theorem genuine_copy (v : RowView) : Genuine v.copy :=
  v.supplies_genuine.copy not_foreign_of_computing

theorem genuine_holds (v : RowView) (e : Expr) : Genuine (v.holds e) :=
  v.supplies_genuine.holds not_foreign_of_computing e.within_all

theorem genuine_holdsAll (v : RowView) (es : List Expr) : Genuine (v.holdsAll es) :=
  v.supplies_genuine.holdsAll not_foreign_of_computing fun e _ => e.within_all

theorem genuine_evalAll (v : RowView) (es : List Expr) : Genuine (v.evalAll es) :=
  v.supplies_genuine.evalAll not_foreign_of_computing fun e _ => e.within_all

theorem genuine_valueOf (v : RowView) (e : Expr) : Genuine (v.eval e) :=
  v.supplies_genuine.eval not_foreign_of_computing e.within_all

end RowView

/-! ## Collected rows -/

theorem genuine_feedGroups (groupBy : List Expr) (calls : List AggregateCall)
    (groups : Array Group) (view : RowView) (step : Step) :
    Genuine (Group.feedGroups groupBy calls groups view step) :=
  Group.raises_feedGroups not_foreign_of_computing (view.genuine_evalAll groupBy)
    (fun _ _ arg _ => view.genuine_valueOf arg) groups step

theorem genuine_collectKeyed (keys : List SortKey) (db : Database) (rows : Array KeyedRow)
    (v : RowView) (step : Step) : Genuine (Operator.collectKeyed keys db rows v step) := by
  refine genuine_bind ?_ fun _ => genuine_ok _
  exact genuine_bind (v.genuine_evalAll _) fun _ => genuine_bind v.genuine_copy fun _ => genuine_ok _

theorem genuine_sorted (keys : List SortKey) (rows : List KeyedRow) :
    Genuine (KeyedRow.sorted keys rows) :=
  (KeyedRow.raises_sorted keys rows).mono fun _ he => he ▸ not_foreign_sortPanic

/-! ## Queries -/

/-- Neither opening a query nor reading what it yields ends for want of steps. -/
theorem QueryTree.yields_genuine (R : Reader) (q : QueryTree) :
    q.Yields R (·.Supplies (¬·.Foreign) fun _ => True) (¬·.Foreign) :=
  yields_any not_foreign_of_computing not_foreign_fieldNotFound (.inl not_foreign_sortPanic)

end SnapshotSql
