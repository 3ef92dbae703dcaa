import SnapshotSql.Proofs.Row.Copy
/-! # Views that look alike -/

namespace SnapshotSql.RowView

/-- The views have the same cells and answer every lookup alike. -/
structure Alike (v w : RowView) : Prop where
  count : v.cellCount = w.cellCount
  rid : v.rid = w.rid
  name : ∀ i < v.cellCount, v.nameAt i = w.nameAt i
  cell : ∀ i < v.cellCount, v.cellAt i = w.cellAt i
  find : v.find = w.find

namespace Alike

variable {v w l l' r r' : RowView}

theorem refl (v : RowView) : v.Alike v := ⟨rfl, rfl, fun _ _ => rfl, fun _ _ => rfl, rfl⟩

theorem eval (h : v.Alike w) (e : Expr) : v.eval e = w.eval e := by
  rw [RowView.eval, RowView.eval, h.find]

theorem holds (h : v.Alike w) (e : Expr) : v.holds e = w.holds e := by
  rw [RowView.holds, RowView.holds, h.find]

theorem evalAll (h : v.Alike w) (es : List Expr) : v.evalAll es = w.evalAll es :=
  mapM_congr fun e _ => h.eval e

theorem copy (h : v.Alike w) : v.copy = w.copy := by
  have hnames : v.names = w.names := by
    rw [names, names, ← h.count]
    exact mapM_congr fun i hi => h.name i (List.mem_range.mp hi)
  have hvalues : v.values = w.values := by
    rw [values, values, ← h.count]
    exact mapM_congr fun i hi => h.cell i (List.mem_range.mp hi)
  rw [RowView.copy, RowView.copy, hnames, hvalues, h.rid]

theorem joined (hl : l.Alike l') (hr : r.Alike r') : (joined l r).Alike (joined l' r') where
  count := by rw [cellCount, cellCount, hl.count, hr.count]
  rid := rfl
  name i hi := by
    rw [cellCount] at hi
    rw [nameAt, nameAt, ← hl.count]
    split
    · exact hl.name i ‹_›
    · exact hr.name _ (by omega)
  cell i hi := by
    rw [cellCount] at hi
    rw [cellAt, cellAt, ← hl.count]
    split
    · exact hl.cell i ‹_›
    · exact hr.cell _ (by omega)
  find := by
    funext wanted
    rw [RowView.find, RowView.find, hl.find, hr.find]

theorem projected (items : List SelectItem) (h : v.Alike w) :
    (projected items v).Alike (projected items w) where
  count := rfl
  rid := h.rid
  name _ _ := rfl
  cell i _ := by rw [cellAt, cellAt, h.find]
  find := by
    funext wanted
    rw [RowView.find, RowView.find, h.find]

private theorem firstAnswer_congr {nameAt nameAt' : Nat → Except ExecError CellName}
    {cellAt cellAt' : Nat → Except ExecError Value} {is : List Nat}
    (hname : ∀ i ∈ is, nameAt i = nameAt' i) (hcell : ∀ i ∈ is, cellAt i = cellAt' i)
    (wanted : CellName) : firstAnswer nameAt cellAt wanted is = firstAnswer nameAt' cellAt' wanted is := by
  induction is with
  | nil => rfl
  | cons i is ih =>
    rw [firstAnswer, firstAnswer, hname i List.mem_cons_self, hcell i List.mem_cons_self,
      ih (fun j hj => hname j (List.mem_cons_of_mem i hj))
        fun j hj => hcell j (List.mem_cons_of_mem i hj)]

theorem qualified (qualifier : String) (h : v.Alike w) :
    (qualified qualifier v).Alike (qualified qualifier w) where
  count := h.count
  rid := h.rid
  name i hi := by rw [nameAt, nameAt, h.name i hi]
  cell i hi := by
    rw [cellAt, cellAt]
    exact h.cell i hi
  find := by
    funext wanted
    rw [RowView.find, RowView.find, ← h.count]
    refine firstAnswer_congr ?_ ?_ wanted
    · intro i hi
      rw [h.name i (List.mem_range.mp hi)]
    · intro i hi
      exact h.cell i (List.mem_range.mp hi)

end Alike

private theorem cellOf_of_mapM {α : Type} {f : Nat → Except ExecError α} {n : Nat} {xs : List α}
    (h : (List.range n).mapM f = .ok xs) {i : Nat} (hi : i < n) : f i = cellOf xs i xs.length := by
  obtain ⟨x, hx, hfx⟩ := getElem?_of_mapM h (List.getElem?_range hi)
  rw [cellOf, hx, hfx]

theorem alike_copy {v : RowView} {row : Row} (h : v.copy = .ok row) : v.Alike (.owned row) := by
  obtain ⟨hnames, hvalues, hrid⟩ := copy_eq_ok.mp h
  have hcount : v.cellCount = row.values.length := by rw [length_of_mapM hvalues, List.length_range]
  refine ⟨hcount, hrid.symm, ?_, ?_, ?_⟩
  · intro i hi
    exact cellOf_of_mapM hnames hi
  · intro i hi
    rw [cellAt]
    exact cellOf_of_mapM hvalues hi
  · rw [find_of_copy h, find_of_copy (copy_owned (length_of_copy h))]

end SnapshotSql.RowView
