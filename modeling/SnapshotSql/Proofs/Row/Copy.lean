import SnapshotSql.Operator.Scan
import SnapshotSql.Proofs.Evaluation
/-! # Copies of rows -/

namespace SnapshotSql

namespace Row

/-- The first cell under a name that answers a lookup. -/
def cell? (r : Row) (wanted : CellName) : Option Value :=
  ((r.names.zip r.values).find? fun cell => cell.1.answers wanted).map (·.2)

def find (r : Row) : Lookup := fun wanted => .ok (r.cell? wanted)

def eval (r : Row) (e : Expr) : Except ExecError Value := e.eval r.find

def holds (r : Row) (e : Expr) : Except ExecError Bool := e.holds r.find

/-- Whether all conditions hold; none after the first that fails is evaluated. -/
def holdsAll (r : Row) : List Expr → Except ExecError Bool
  | [] => .ok true
  | e :: es => do
    if ← r.holds e then r.holdsAll es else pure false

def evalAll (r : Row) (es : List Expr) : Except ExecError (List Value) := es.mapM r.eval

end Row

namespace RowView

section

variable {α β : Type}

private theorem mapM_cellOf_from (g : α → Except ExecError β) (count : Nat) (front cells : List α) :
    ((List.range cells.length).mapM fun i =>
      cellOf (front ++ cells) (front.length + i) count >>= g) = cells.mapM g := by
  induction cells generalizing front with
  | nil => rfl
  | cons x cells ih =>
    have hhead : cellOf (front ++ x :: cells) (front.length + 0) count = .ok x := by simp [cellOf]
    have htail := ih (front ++ [x])
    have hshift : (fun i => cellOf (front ++ x :: cells) (front.length + (i + 1)) count >>= g) =
        fun i => cellOf (front ++ [x] ++ cells) ((front ++ [x]).length + i) count >>= g := by
      funext i
      rw [List.length_append, List.length_singleton, List.append_assoc, List.singleton_append,
        Nat.add_comm i 1, Nat.add_assoc]
    rw [List.length_cons, List.range_succ_eq_map, List.mapM_cons, List.mapM_map, List.mapM_cons,
      hhead, ← htail, ← hshift]
    rfl

theorem mapM_cellOf (cells : List α) (g : α → Except ExecError β) :
    ((List.range cells.length).mapM fun i => cellOf cells i cells.length >>= g) = cells.mapM g := by
  have hall := mapM_cellOf_from g cells.length [] cells
  simpa using hall

end

private theorem firstAnswer_eq {nameAt : Nat → Except ExecError CellName}
    {cellAt : Nat → Except ExecError Value} {is : List Nat} {names : List CellName}
    {values : List Value} (hnames : is.mapM nameAt = .ok names) (hvalues : is.mapM cellAt = .ok values)
    (wanted : CellName) :
    firstAnswer nameAt cellAt wanted is =
      .ok (((names.zip values).find? fun cell => cell.1.answers wanted).map (·.2)) := by
  induction is generalizing names values with
  | nil =>
    cases hnames
    rfl
  | cons i is ih =>
    obtain ⟨name, names', hname, hnames', rfl⟩ := mapM_eq_ok_cons hnames
    obtain ⟨v, values', hv, hvalues', rfl⟩ := mapM_eq_ok_cons hvalues
    rw [firstAnswer, hname]
    simp only [bind, Except.bind]
    rw [List.zip_cons_cons, List.find?_cons]
    split
    · rename_i hanswers
      simp only [hv, hanswers]
      rfl
    · rename_i hanswers
      simp only [hanswers]
      exact ih hnames' hvalues'

/-! ## Cells of composed views -/

private theorem mapM_range_add {β : Type} (f g : Nat → Except ExecError β) (a b : Nat) :
    ((List.range (a + b)).mapM fun i => if i < a then f i else g (i - a)) = (do
      let xs ← (List.range a).mapM f
      let ys ← (List.range b).mapM g
      pure (xs ++ ys)) := by
  have hleft : ((List.range a).mapM fun i => if i < a then f i else g (i - a)) =
      (List.range a).mapM f := by
    apply mapM_congr
    intro i hi
    rw [if_pos (List.mem_range.mp hi)]
  have hright : ((List.range b).mapM fun i => if a + i < a then f (a + i) else g (a + i - a)) =
      (List.range b).mapM g := by
    apply mapM_congr
    intro i _
    rw [if_neg (by omega), Nat.add_sub_cancel_left]
  rw [List.range_add, List.mapM_append, List.mapM_map, hleft]
  simp only [Function.comp_def, hright]

theorem names_joined (l r : RowView) : (joined l r).names = (do
    let ns ← l.names
    let ms ← r.names
    pure (ns ++ ms)) :=
  mapM_range_add l.nameAt r.nameAt l.cellCount r.cellCount

theorem values_joined (l r : RowView) : (joined l r).values = (do
    let ns ← l.values
    let ms ← r.values
    pure (ns ++ ms)) :=
  mapM_range_add l.cellAt r.cellAt l.cellCount r.cellCount

theorem values_projected (items : List SelectItem) (v : RowView) :
    (projected items v).values = items.mapM fun item => v.eval item.expr :=
  mapM_cellOf items fun item => v.eval item.expr

theorem names_projected (items : List SelectItem) (v : RowView) :
    (projected items v).names = .ok (items.map (·.cellName)) := by
  have hmap : ∀ x : Except ExecError SelectItem,
      x.map (·.cellName) = x >>= fun item => .ok item.cellName := by
    intro x
    cases x <;> rfl
  have hpure : items.mapM (fun item => (Except.ok item.cellName : Except ExecError CellName)) =
      .ok (items.map (·.cellName)) := List.mapM_pure
  rw [← hpure, ← mapM_cellOf items]
  exact mapM_congr fun i _ => hmap _

theorem names_qualified (qualifier : String) (v : RowView) : (qualified qualifier v).names =
    v.names.map (·.map fun name => .qualified qualifier name.field) := by
  change ((List.range v.cellCount).mapM fun i =>
    (v.nameAt i).map fun name => CellName.qualified qualifier name.field) = _
  rw [names]
  induction List.range v.cellCount with
  | nil => rfl
  | cons i is ih =>
    rw [List.mapM_cons, List.mapM_cons, ih]
    cases v.nameAt i with
    | error e => rfl
    | ok name => cases is.mapM v.nameAt <;> rfl

private theorem find_projected {items : List SelectItem} {v : RowView} {values : List Value}
    (hvalues : (items.mapM fun item => v.eval item.expr) = .ok values) (wanted : CellName) :
    (projected items v).find wanted =
      .ok ((((items.map (·.cellName)).zip values).find? fun cell =>
        cell.1.answers wanted).map (·.2)) := by
  rw [find]
  induction items generalizing values with
  | nil => rfl
  | cons item items ih =>
    obtain ⟨x, rest, hx, hrest, rfl⟩ := mapM_eq_ok_cons hvalues
    rw [List.map_cons, List.zip_cons_cons, List.find?_cons, List.find?_cons]
    cases hanswers : item.cellName.answers wanted with
    | true =>
      have heval : (item.expr.eval fun name => v.find name) = .ok x := hx
      simp only [heval]
      rfl
    | false =>
      simp only
      exact ih hrest

private theorem find_of_cells {v : RowView} {names : List CellName} {values : List Value}
    (hnames : v.names = .ok names) (hvalues : v.values = .ok values) (wanted : CellName) :
    v.find wanted = .ok (((names.zip values).find? fun cell => cell.1.answers wanted).map (·.2)) := by
  induction v generalizing names values with
  | empty =>
    cases hnames
    rfl
  | owned row =>
    rw [find]
    exact firstAnswer_eq hnames hvalues wanted
  | stored ns indexes version =>
    rw [find]
    exact firstAnswer_eq hnames hvalues wanted
  | joined l r ihl ihr =>
    rw [names_joined] at hnames
    rw [values_joined] at hvalues
    obtain ⟨ns, hns, hnames⟩ := bind_eq_ok.mp hnames
    obtain ⟨ms, hms, hnames⟩ := bind_eq_ok.mp hnames
    obtain ⟨xs, hxs, hvalues⟩ := bind_eq_ok.mp hvalues
    obtain ⟨ys, hys, hvalues⟩ := bind_eq_ok.mp hvalues
    cases hnames
    cases hvalues
    have hlen : ns.length = xs.length := (length_of_mapM hns).trans (length_of_mapM hxs).symm
    rw [find, ihl hns hxs, ihr hms hys, List.zip_append hlen, List.find?_append]
    cases (ns.zip xs).find? fun cell => cell.1.answers wanted <;> rfl
  | projected items inner _ =>
    rw [names_projected] at hnames
    rw [values_projected] at hvalues
    cases hnames
    exact find_projected hvalues wanted
  | qualified qualifier inner _ =>
    rw [find]
    exact firstAnswer_eq hnames hvalues wanted

/-! ## Copies -/

variable {v l r : RowView} {row lrow rrow : Row}

theorem copy_eq_ok : v.copy = .ok row ↔
    v.names = .ok row.names ∧ v.values = .ok row.values ∧ row.rid = v.rid := by
  rw [copy, bind_eq_ok]
  constructor
  · rintro ⟨names, hnames, h⟩
    obtain ⟨values, hvalues, h⟩ := bind_eq_ok.mp h
    cases h
    exact ⟨hnames, hvalues, rfl⟩
  · rintro ⟨hnames, hvalues, hrid⟩
    refine ⟨row.names, hnames, bind_eq_ok.mpr ⟨row.values, hvalues, ?_⟩⟩
    rw [← hrid]
    rfl

theorem length_of_copy (h : v.copy = .ok row) : row.names.length = row.values.length := by
  obtain ⟨hnames, hvalues, _⟩ := copy_eq_ok.mp h
  rw [length_of_mapM hnames, length_of_mapM hvalues]

theorem find_of_copy (h : v.copy = .ok row) : v.find = row.find := by
  obtain ⟨hnames, hvalues, _⟩ := copy_eq_ok.mp h
  funext wanted
  exact find_of_cells hnames hvalues wanted

theorem eval_of_copy (h : v.copy = .ok row) (e : Expr) : v.eval e = row.eval e := by
  rw [eval, Row.eval, find_of_copy h]

theorem holds_of_copy (h : v.copy = .ok row) (e : Expr) : v.holds e = row.holds e := by
  rw [holds, Row.holds, find_of_copy h]

theorem holdsAll_of_copy (h : v.copy = .ok row) (es : List Expr) :
    v.holdsAll es = row.holdsAll es := by
  induction es with
  | nil => rfl
  | cons e es ih => rw [holdsAll, Row.holdsAll, holds_of_copy h, ih]

theorem evalAll_of_copy (h : v.copy = .ok row) (es : List Expr) :
    v.evalAll es = row.evalAll es :=
  mapM_congr fun e _ => eval_of_copy h e

theorem find_joined_empty (v : RowView) : (joined v .empty).find = v.find := by
  funext wanted
  rw [find]
  cases v.find wanted with
  | error e => rfl
  | ok found => cases found <;> rfl

theorem holds_joined_empty (v : RowView) (e : Expr) : (joined v .empty).holds e = v.holds e := by
  rw [holds, holds, find_joined_empty]

theorem holdsAll_joined_empty (v : RowView) (es : List Expr) :
    (joined v .empty).holdsAll es = v.holdsAll es := by
  induction es with
  | nil => rfl
  | cons e es ih => rw [holdsAll, holdsAll, holds_joined_empty, ih]

theorem mapM_cellOf_range {α : Type} (cells : List α) :
    ((List.range cells.length).mapM fun i => cellOf cells i cells.length) = .ok cells := by
  have hall := mapM_cellOf cells fun a => (.ok a : Except ExecError α)
  have hbind : ∀ x : Except ExecError α, (x >>= fun a => .ok a) = x := fun x => by cases x <;> rfl
  simp only [hbind] at hall
  rw [hall]
  exact (List.mapM_pure (f := fun a : α => a)).trans (by rw [List.map_id']; rfl)

theorem copy_owned (h : row.names.length = row.values.length) : (owned row).copy = .ok row := by
  refine copy_eq_ok.mpr ⟨?_, mapM_cellOf_range row.values, rfl⟩
  show ((List.range row.values.length).mapM fun i => cellOf row.names i row.names.length) = _
  rw [← h]
  exact mapM_cellOf_range row.names

theorem copy_joined (hl : l.copy = .ok lrow) (hr : r.copy = .ok rrow) :
    (joined l r).copy =
      .ok { names := lrow.names ++ rrow.names, values := lrow.values ++ rrow.values } := by
  obtain ⟨hln, hlv, _⟩ := copy_eq_ok.mp hl
  obtain ⟨hrn, hrv, _⟩ := copy_eq_ok.mp hr
  refine copy_eq_ok.mpr ⟨?_, ?_, rfl⟩
  · rw [names_joined, hln, hrn]
    rfl
  · rw [values_joined, hlv, hrv]
    rfl

theorem copy_qualified (qualifier : String) (h : v.copy = .ok row) :
    (qualified qualifier v).copy =
      .ok { row with names := row.names.map fun name => .qualified qualifier name.field } := by
  obtain ⟨hnames, hvalues, hrid⟩ := copy_eq_ok.mp h
  refine copy_eq_ok.mpr ⟨?_, hvalues, hrid⟩
  rw [names_qualified, hnames]
  rfl

theorem copy_projected {items : List SelectItem} {values : List Value} (h : v.copy = .ok row)
    (hvalues : row.evalAll (items.map (·.expr)) = .ok values) :
    (projected items v).copy =
      .ok { names := items.map (·.cellName), values, rid := row.rid } := by
  refine copy_eq_ok.mpr ⟨names_projected items v, ?_, (copy_eq_ok.mp h).2.2⟩
  rw [values_projected, ← hvalues, Row.evalAll, List.mapM_map]
  exact mapM_congr fun item _ => eval_of_copy h item.expr

theorem cells_of_copy (h : v.copy = .ok row) {i : Nat} (hi : i < v.cellCount) :
    (owned row).nameAt i = v.nameAt i ∧ (owned row).cellAt i = v.cellAt i := by
  obtain ⟨hnames, hvalues, _⟩ := copy_eq_ok.mp h
  have hrange : (List.range v.cellCount)[i]? = some i := List.getElem?_range hi
  obtain ⟨name, hname, hnameAt⟩ := getElem?_of_mapM hnames hrange
  obtain ⟨a, ha, hcellAt⟩ := getElem?_of_mapM hvalues hrange
  rw [nameAt, cellAt, cellOf, cellOf, hname, ha, hnameAt, hcellAt]
  exact ⟨rfl, rfl⟩

/-- Nothing that is asked of a view tells it from its copy: the copy has the same cells and shows the same
stored row, every lookup finds the same in it, every expression comes to the same value or error, and a copy
of the copy is the copy. -/
theorem copy_indistinguishable (h : v.copy = .ok row) :
    (owned row).cellCount = v.cellCount ∧ (owned row).rid = v.rid ∧
      (∀ i < v.cellCount,
        (owned row).nameAt i = v.nameAt i ∧ (owned row).cellAt i = v.cellAt i) ∧
      (∀ wanted, (owned row).find wanted = v.find wanted) ∧
      (∀ e, (owned row).eval e = v.eval e) ∧ (owned row).copy = .ok row := by
  obtain ⟨_, hvalues, hrid⟩ := copy_eq_ok.mp h
  have hagain : (owned row).copy = .ok row := copy_owned (length_of_copy h)
  have hcount : row.values.length = v.cellCount := by
    rw [length_of_mapM hvalues, List.length_range]
  have hfind : (owned row).find = v.find := (find_of_copy hagain).trans (find_of_copy h).symm
  refine ⟨hcount, hrid, fun i hi => cells_of_copy h hi, fun wanted => ?_, fun e => ?_, hagain⟩
  · rw [hfind]
  · rw [eval, eval, hfind]

/-- A stored row under the name of a sub-query that computes one of its two cells, beside a row with a
name too many. -/
def nestedView : RowView :=
  .joined
    (.qualified "q" (.projected
      [⟨.field ⟨"t", "b", .integer⟩, none⟩,
        ⟨.arithmetic .negate (.field ⟨"t", "a", .integer⟩) none, some "n"⟩]
      (.stored [.qualified "t" "b", .qualified "t" "a"] [1, 0]
        ⟨⟨0⟩, [.integer 7, .text "x"], ⟨1⟩, none⟩)))
    (.joined (.owned ⟨[.qualified "u" "c", .plain "d"], [.null], none⟩) .empty)

def nestedCopy : Row where
  names := [.qualified "q" "b", .qualified "q" "n", .qualified "u" "c"]
  values := [.text "x", .integer (-7), .null]

theorem copy_indistinguishable_nested :
    nestedView.copy = .ok nestedCopy ∧
      (∀ wanted, (owned nestedCopy).find wanted = nestedView.find wanted) ∧
      (∀ e, (owned nestedCopy).eval e = nestedView.eval e) ∧
      (owned nestedCopy).copy = .ok nestedCopy := by
  have hcopy : nestedView.copy = .ok nestedCopy := rfl
  obtain ⟨_, _, _, hfind, heval, hagain⟩ := copy_indistinguishable hcopy
  exact ⟨hcopy, hfind, heval, hagain⟩

end RowView

end SnapshotSql
