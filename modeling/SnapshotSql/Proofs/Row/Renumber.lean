import SnapshotSql.Operator.Scan
import SnapshotSql.Proofs.Evaluation
/-! # Renumbered rows -/

namespace SnapshotSql

def anyRid (_ : RowId) : RowId := ⟨0⟩

variable (g : RowId → RowId)

def Version.renumber (v : Version) : Version := ⟨g v.rid, v.values, default, none⟩

def Row.renumber (r : Row) : Row := { r with rid := r.rid.map g }

namespace RowView

def renumber : RowView → RowView
  | empty => empty
  | owned row => owned (row.renumber g)
  | stored names indexes v => stored names indexes (v.renumber g)
  | joined l r => joined l.renumber r.renumber
  | projected items inner => projected items inner.renumber
  | qualified qualifier inner => qualified qualifier inner.renumber

variable (view : RowView)

@[simp] theorem cellCount_renumber : (view.renumber g).cellCount = view.cellCount := by
  induction view with
  | joined l r ihl ihr => simp only [renumber, cellCount, ihl, ihr]
  | qualified qualifier inner ih => exact ih
  | _ => rfl

@[simp] theorem rid_renumber : (view.renumber g).rid = view.rid.map g := by
  induction view with
  | projected items inner ih => exact ih
  | qualified qualifier inner ih => exact ih
  | _ => rfl

private theorem nameAt_renumber (i : Nat) : (view.renumber g).nameAt i = view.nameAt i := by
  induction view generalizing i with
  | joined l r ihl ihr => simp only [renumber, nameAt, cellCount_renumber, ihl, ihr]
  | qualified qualifier inner ih => simp only [renumber, nameAt, ih]
  | _ => rfl

private theorem cells_renumber :
    (view.renumber g).cellAt = view.cellAt ∧ (view.renumber g).find = view.find := by
  induction view with
  | empty => exact ⟨rfl, rfl⟩
  | owned row => exact ⟨rfl, rfl⟩
  | stored names indexes v => exact ⟨rfl, rfl⟩
  | joined l r ihl ihr =>
    constructor
    · funext i
      simp only [renumber, cellAt, cellCount_renumber, ihl.1, ihr.1]
    · funext wanted
      simp only [renumber, find, ihl.2, ihr.2]
  | projected items inner ih =>
    constructor
    · funext i
      simp only [renumber, cellAt, ih.2]
    · funext wanted
      simp only [renumber, find, ih.2]
  | qualified qualifier inner ih =>
    constructor
    · funext i
      simp only [renumber, cellAt, ih.1]
    · funext wanted
      simp only [renumber, find, ih.1, cellCount_renumber, nameAt_renumber]

@[simp] theorem eval_renumber (e : Expr) : (view.renumber g).eval e = view.eval e := by
  rw [eval, eval, (view.cells_renumber g).2]

@[simp] theorem holds_renumber (e : Expr) : (view.renumber g).holds e = view.holds e := by
  rw [holds, holds, (view.cells_renumber g).2]

@[simp] theorem holdsAll_renumber (es : List Expr) :
    (view.renumber g).holdsAll es = view.holdsAll es := by
  induction es with
  | nil => rfl
  | cons e es ih => rw [holdsAll, holdsAll, holds_renumber, ih]

@[simp] theorem evalAll_renumber (es : List Expr) :
    (view.renumber g).evalAll es = view.evalAll es := by
  have heval : (view.renumber g).eval = view.eval := by
    funext e
    exact view.eval_renumber g e
  rw [evalAll, evalAll, heval]

@[simp] theorem values_renumber : (view.renumber g).values = view.values := by
  rw [values, values, cellCount_renumber, (view.cells_renumber g).1]

theorem copy_renumber : (view.renumber g).copy = view.copy.map (Row.renumber g) := by
  have hnames : (view.renumber g).names = view.names := by
    have hname : (view.renumber g).nameAt = view.nameAt := by
      funext i
      exact view.nameAt_renumber g i
    rw [names, names, cellCount_renumber, hname]
  rw [copy, copy, hnames, values_renumber, rid_renumber]
  cases view.names with
  | error e => rfl
  | ok names => cases view.values <;> rfl

end RowView

end SnapshotSql
