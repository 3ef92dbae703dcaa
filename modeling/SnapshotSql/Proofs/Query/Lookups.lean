import SnapshotSql.Proofs.Query.Planned
import SnapshotSql.Proofs.Query.Scope
/-! # What evaluation looks up -/

namespace SnapshotSql

namespace Expr

variable {find find' : Lookup}

mutual

/-- The value of an expression depends only on what its fields and its calls are answered with. -/
theorem eval_congr : ∀ {e : Expr},
    (∀ ref ∈ e.plainFields, find (.qualified ref.table ref.field) =
      find' (.qualified ref.table ref.field)) →
    (∀ call ∈ e.calls, find (.plain call.render) = find' (.plain call.render)) →
    e.eval find = e.eval find'
  | .field ref, hfields, _ => by
    rw [eval, eval, Lookup.require, Lookup.require, hfields ref (List.mem_singleton_self ref)]
  | .literal v, _, _ => by rw [eval, eval]
  | .comparison op l r, hfields, hcalls => by
    rw [plainFields, List.forall_mem_append] at hfields
    rw [calls, List.forall_mem_append] at hcalls
    rw [eval, eval, eval_congr hfields.1 hcalls.1, eval_congr hfields.2 hcalls.2]
  | .junction kind terms, hfields, hcalls => by
    rw [eval, eval, evalUntil_congr _ hfields hcalls]
  | .arithmetic op e none, hfields, hcalls => by
    rw [eval, eval, eval_congr (e := e) hfields hcalls]
  | .arithmetic op l (some r), hfields, hcalls => by
    rw [plainFields, List.forall_mem_append] at hfields
    rw [calls, List.forall_mem_append] at hcalls
    rw [eval, eval, eval_congr hfields.1 hcalls.1, eval_congr hfields.2 hcalls.2]
  | .isNull e negated, hfields, hcalls => by
    rw [eval, eval, eval_congr (e := e) hfields hcalls]
  | .aggregate fn arg, _, hcalls => by
    have hcall := hcalls ⟨fn, arg⟩ (List.mem_singleton_self _)
    rw [AggregateCall.render] at hcall
    rw [eval, eval, Lookup.require, Lookup.require, hcall]

theorem evalUntil_congr (stop : Bool) : ∀ {es : List Expr},
    (∀ ref ∈ plainFieldsAll es, find (.qualified ref.table ref.field) =
      find' (.qualified ref.table ref.field)) →
    (∀ call ∈ callsAll es, find (.plain call.render) = find' (.plain call.render)) →
    evalUntil find stop es = evalUntil find' stop es
  | [], _, _ => rfl
  | e :: es, hfields, hcalls => by
    rw [plainFieldsAll, List.forall_mem_append] at hfields
    rw [callsAll, List.forall_mem_append] at hcalls
    rw [evalUntil, evalUntil, eval_congr hfields.1 hcalls.1, evalUntil_congr stop hfields.2 hcalls.2]

end

private theorem append_subset_append {α : Type} {xs xs' ys ys' : List α} (hx : xs ⊆ xs')
    (hy : ys ⊆ ys') : xs ++ ys ⊆ xs' ++ ys' :=
  List.append_subset.mpr ⟨List.subset_append_of_subset_left _ hx,
    List.subset_append_of_subset_right _ hy⟩

mutual

theorem plainFields_subset : ∀ e : Expr, e.plainFields ⊆ e.fields
  | .field _ => List.Subset.refl _
  | .literal _ => List.Subset.refl _
  | .comparison _ l r => append_subset_append (plainFields_subset l) (plainFields_subset r)
  | .junction _ terms => plainFieldsAll_subset terms
  | .arithmetic _ e none => plainFields_subset e
  | .arithmetic _ l (some r) =>
    append_subset_append (plainFields_subset l) (plainFields_subset r)
  | .isNull e _ => plainFields_subset e
  | .aggregate _ none => List.nil_subset _
  | .aggregate _ (some _) => List.nil_subset _

theorem plainFieldsAll_subset : ∀ es : List Expr, plainFieldsAll es ⊆ fieldsAll es
  | [] => List.Subset.refl _
  | e :: es => append_subset_append (plainFields_subset e) (plainFieldsAll_subset es)

end

theorem hasAggregate_eq_false {e : Expr} : e.hasAggregate = false ↔ e.calls = [] := by
  simp [hasAggregate]

mutual

theorem plainFields_of_calls : ∀ {e : Expr}, e.calls = [] → e.plainFields = e.fields
  | .field _, _ | .literal _, _ => rfl
  | .comparison _ l r, h => by
    rw [calls, List.append_eq_nil_iff] at h
    rw [plainFields, fields, plainFields_of_calls h.1, plainFields_of_calls h.2]
  | .junction _ terms, h => by
    rw [plainFields, fields, plainFieldsAll_of_calls h]
  | .arithmetic _ e none, h => plainFields_of_calls (e := e) h
  | .arithmetic _ l (some r), h => by
    rw [calls, List.append_eq_nil_iff] at h
    rw [plainFields, fields, plainFields_of_calls h.1, plainFields_of_calls h.2]
  | .isNull e _, h => plainFields_of_calls (e := e) h
  | .aggregate _ _, h => nomatch h

theorem plainFieldsAll_of_calls : ∀ {es : List Expr}, callsAll es = [] → plainFieldsAll es = fieldsAll es
  | [], _ => rfl
  | e :: es, h => by
    rw [callsAll, List.append_eq_nil_iff] at h
    rw [plainFieldsAll, fieldsAll, plainFields_of_calls h.1, plainFieldsAll_of_calls h.2]

end

theorem holds_congr {e : Expr} (he : e.hasAggregate = false)
    (h : ∀ ref ∈ e.fields, find (.qualified ref.table ref.field) =
      find' (.qualified ref.table ref.field)) : e.holds find = e.holds find' := by
  have hcalls := hasAggregate_eq_false.mp he
  rw [holds, holds, eval_congr (fun ref href => h ref (plainFields_subset e href))]
  rw [hcalls]
  exact nofun

/-- A lookup that also finds what another one finds. -/
def Extends (e : Expr) (find find' : Lookup) : Prop :=
  ∀ ref ∈ e.plainFields, ∀ v, find (.qualified ref.table ref.field) = .ok (some v) →
    find' (.qualified ref.table ref.field) = .ok (some v)

private theorem require_mono {name : CellName} {v : Value}
    (h : ∀ v, find name = .ok (some v) → find' name = .ok (some v))
    (hv : find.require name = .ok v) : find'.require name = .ok v := by
  obtain ⟨found, hfound, hv⟩ := bind_eq_ok.mp hv
  cases found with
  | none => cases hv
  | some x =>
    cases hv
    rw [Lookup.require, h v hfound]
    rfl

mutual

/-- What an expression evaluates to by a lookup it evaluates to by every lookup that also finds the
fields found there. -/
theorem eval_mono : ∀ {e : Expr} {v : Value}, e.calls = [] → e.Extends find find' →
    e.eval find = .ok v → e.eval find' = .ok v
  | .field ref, v, _, hfields, h => by
    rw [eval] at h ⊢
    exact require_mono (hfields ref (List.mem_singleton_self ref)) h
  | .literal x, v, _, _, h => by
    rw [eval] at h ⊢
    exact h
  | .comparison op l r, v, hcalls, hfields, h => by
    rw [calls, List.append_eq_nil_iff] at hcalls
    rw [Extends, plainFields, List.forall_mem_append] at hfields
    rw [eval] at h ⊢
    obtain ⟨a, ha, h⟩ := bind_eq_ok.mp h
    obtain ⟨b, hb, h⟩ := bind_eq_ok.mp h
    rw [eval_mono hcalls.1 hfields.1 ha, eval_mono hcalls.2 hfields.2 hb]
    exact h
  | .junction kind terms, v, hcalls, hfields, h => by
    rw [eval] at h ⊢
    obtain ⟨stopped, hstopped, h⟩ := bind_eq_ok.mp h
    rw [evalUntil_mono hcalls hfields hstopped]
    exact h
  | .arithmetic op e none, v, hcalls, hfields, h => by
    rw [eval] at h ⊢
    obtain ⟨a, ha, h⟩ := bind_eq_ok.mp h
    rw [eval_mono (e := e) hcalls hfields ha]
    exact h
  | .arithmetic op l (some r), v, hcalls, hfields, h => by
    rw [calls, List.append_eq_nil_iff] at hcalls
    rw [Extends, plainFields, List.forall_mem_append] at hfields
    rw [eval] at h ⊢
    obtain ⟨a, ha, h⟩ := bind_eq_ok.mp h
    obtain ⟨b, hb, h⟩ := bind_eq_ok.mp h
    rw [eval_mono hcalls.1 hfields.1 ha, eval_mono hcalls.2 hfields.2 hb]
    exact h
  | .isNull e negated, v, hcalls, hfields, h => by
    rw [eval] at h ⊢
    obtain ⟨a, ha, h⟩ := bind_eq_ok.mp h
    rw [eval_mono (e := e) hcalls hfields ha]
    exact h
  | .aggregate fn arg, v, hcalls, _, _ => by
    rw [calls] at hcalls
    cases hcalls

theorem evalUntil_mono : ∀ {es : List Expr} {stop stopped : Bool}, callsAll es = [] →
    (∀ ref ∈ plainFieldsAll es, ∀ v, find (.qualified ref.table ref.field) = .ok (some v) →
      find' (.qualified ref.table ref.field) = .ok (some v)) →
    evalUntil find stop es = .ok stopped → evalUntil find' stop es = .ok stopped
  | [], stop, stopped, _, _, h => h
  | e :: es, stop, stopped, hcalls, hfields, h => by
    rw [callsAll, List.append_eq_nil_iff] at hcalls
    rw [plainFieldsAll, List.forall_mem_append] at hfields
    rw [evalUntil] at h ⊢
    obtain ⟨a, ha, h⟩ := bind_eq_ok.mp h
    rw [eval_mono hcalls.1 hfields.1 ha]
    simp only [bind, Except.bind] at h ⊢
    split
    · rename_i hstop
      rwa [if_pos hstop] at h
    · rename_i hstop
      rw [if_neg hstop] at h
      exact evalUntil_mono hcalls.2 hfields.2 h

end

theorem holds_mono {e : Expr} {b : Bool} (he : e.hasAggregate = false)
    (h : e.Extends find find') (hb : e.holds find = .ok b) : e.holds find' = .ok b := by
  have hcalls := hasAggregate_eq_false.mp he
  obtain ⟨a, ha, hb⟩ := bind_eq_ok.mp hb
  rw [holds, eval_mono hcalls h ha]
  exact hb

end Expr

/-! ## Columns of stored versions -/

namespace TableSchema

variable {s : TableSchema} {field : String} {column i : Nat} {col : Column}

theorem columnIndex?_name (h : s.columnIndex? field = some column) :
    ∃ col, s.columns[column]? = some col ∧ col.name = field := by
  obtain ⟨hlt, hname, _⟩ := List.findIdx?_eq_some_iff_getElem.mp h
  exact ⟨s.columns[column], List.getElem?_eq_getElem hlt, eq_of_beq hname⟩

theorem columnIndex?_of_first (h : s.First i) (hcol : s.columns[i]? = some col) :
    s.columnIndex? col.name = some i := by
  obtain ⟨field, hfield⟩ := h
  obtain ⟨col', hcol', rfl⟩ := columnIndex?_name hfield
  rw [hcol] at hcol'
  rwa [Option.some.inj hcol']

end TableSchema

theorem CellName.field_of_answers {name wanted : CellName} (h : name.answers wanted = true) :
    name.field = wanted.field := by
  rw [answers, Bool.and_eq_true] at h
  exact eq_of_beq h.1

namespace RowView

private theorem firstAnswer_append {nameAt : Nat → Except ExecError CellName}
    {cellAt : Nat → Except ExecError Value} {wanted : CellName} {before : List Nat}
    (hbefore : ∀ j ∈ before, ∃ name, nameAt j = .ok name ∧ name.answers wanted = false)
    (is : List Nat) :
    firstAnswer nameAt cellAt wanted (before ++ is) = firstAnswer nameAt cellAt wanted is := by
  induction before with
  | nil => rfl
  | cons j before ih =>
    obtain ⟨name, hname, hanswers⟩ := hbefore j List.mem_cons_self
    rw [List.cons_append, firstAnswer, hname]
    simp only [bind, Except.bind, hanswers]
    exact ih fun i hi => hbefore i (List.mem_cons_of_mem j hi)

theorem firstAnswer_none {nameAt : Nat → Except ExecError CellName}
    {cellAt : Nat → Except ExecError Value} {wanted : CellName} {is : List Nat}
    (h : ∀ j ∈ is, ∃ name, nameAt j = .ok name ∧ name.answers wanted = false) :
    firstAnswer nameAt cellAt wanted is = .ok none := by
  rw [← List.append_nil is, firstAnswer_append h, firstAnswer]

theorem firstAnswer_range {nameAt : Nat → Except ExecError CellName}
    {cellAt : Nat → Except ExecError Value} {wanted name : CellName} {k n : Nat} (hk : k < n)
    (hbefore : ∀ j < k, ∃ name, nameAt j = .ok name ∧ name.answers wanted = false)
    (hname : nameAt k = .ok name) (hanswers : name.answers wanted = true) :
    firstAnswer nameAt cellAt wanted (List.range n) = (cellAt k).map some := by
  obtain ⟨m, rfl⟩ : ∃ m, n = k + (m + 1) := ⟨n - k - 1, by omega⟩
  rw [List.range_add, List.range_succ_eq_map, List.map_cons,
    firstAnswer_append fun j hj => hbefore j (List.mem_range.mp hj), firstAnswer, Nat.add_zero, hname]
  simp only [bind, Except.bind, hanswers, if_true]

def Shows (schema : TableSchema) (names : List CellName) (columns : List Nat) : Prop :=
  ∀ k i : Nat, columns[k]? = some i → ∃ col : Column, schema.columns[i]? = some col ∧
    names[k]? = some (CellName.qualified schema.name col.name)

variable {schema : TableSchema} {names : List CellName} {columns : List Nat} {field : String}
  {column : Nat} {v : Version}

private theorem nameAt_of_shows (hnames : Shows schema names columns) {j i : Nat}
    (hj : columns[j]? = some i) : ∃ col : Column, schema.columns[i]? = some col ∧
      cellOf names j names.length = .ok (.qualified schema.name col.name) := by
  obtain ⟨col, hcol, hname⟩ := hnames j i hj
  exact ⟨col, hcol, by rw [cellOf, hname]⟩

theorem find_silent {wanted : CellName} (hnames : Shows schema names columns)
    (h : ∀ i ∈ columns, ∀ col, schema.columns[i]? = some col →
      (CellName.qualified schema.name col.name).answers wanted = false) (v : Version) :
    (RowView.stored names columns v).find wanted = .ok none := by
  rw [find]
  refine firstAnswer_none fun j hj => ?_
  have hj := List.getElem?_eq_getElem (List.mem_range.mp hj)
  obtain ⟨col, hcol, hname⟩ := nameAt_of_shows hnames hj
  exact ⟨_, hname, h _ (List.mem_of_getElem? hj) col hcol⟩

private theorem find_stored_at {wanted : CellName} {col : Column} {k : Nat}
    (hnames : Shows schema names columns) (hk : columns[k]? = some column)
    (hcol : schema.columns[column]? = some col)
    (hanswers : (CellName.qualified schema.name col.name).answers wanted = true)
    (hbefore : ∀ j < k, ∀ i col, columns[j]? = some i → schema.columns[i]? = some col →
      (CellName.qualified schema.name col.name).answers wanted = false)
    (hwidth : v.values.length = schema.width) :
    (RowView.stored names columns v).find wanted = .ok v.values[column]? := by
  obtain ⟨hlt, _⟩ := List.getElem?_eq_some_iff.mp hk
  obtain ⟨col', hcol', hname⟩ := nameAt_of_shows hnames hk
  rw [hcol] at hcol'
  obtain rfl := Option.some.inj hcol'
  have hvalue : column < v.values.length := by
    rw [hwidth]
    exact (List.getElem?_eq_some_iff.mp hcol).1
  rw [find, firstAnswer_range hlt ?_ hname hanswers]
  · rw [hk]
    simp only [Option.bind_some, List.getElem?_eq_getElem hvalue]
    rfl
  · intro j hj
    have hjlt : j < columns.length := by omega
    obtain ⟨col', hcol', hname'⟩ := nameAt_of_shows hnames (List.getElem?_eq_getElem hjlt)
    exact ⟨_, hname', hbefore j hj _ _ (List.getElem?_eq_getElem hjlt) hcol'⟩

/-- Among columns that are the first of their names, a lookup is answered with the one that answers. -/
theorem find_answering {wanted : CellName} {col : Column} (hnames : Shows schema names columns)
    (hfirst : ∀ i ∈ columns, schema.First i) (hmem : column ∈ columns)
    (hcol : schema.columns[column]? = some col)
    (hanswers : (CellName.qualified schema.name col.name).answers wanted = true)
    (hwidth : v.values.length = schema.width) :
    (RowView.stored names columns v).find wanted = .ok v.values[column]? := by
  have hk : columns[columns.idxOf column]? = some column := List.getElem?_idxOf hmem
  refine find_stored_at hnames hk hcol hanswers ?_ hwidth
  intro j hj i col' hji hcol'
  rw [Bool.eq_false_iff]
  intro hanswers'
  have hfield : col'.name = col.name :=
    (CellName.field_of_answers hanswers').trans (CellName.field_of_answers hanswers).symm
  have hi := TableSchema.columnIndex?_of_first (hfirst i (List.mem_of_getElem? hji)) hcol'
  rw [hfield, TableSchema.columnIndex?_of_first (hfirst column hmem) hcol] at hi
  obtain rfl := Option.some.inj hi
  obtain ⟨hlt, hget⟩ := List.getElem?_eq_some_iff.mp hji
  have hbefore : (columns[j] == column) = false := List.not_of_lt_findIdx hj
  simp [hget] at hbefore

private theorem answers_column (col : Column) :
    (CellName.qualified schema.name col.name).answers (.qualified schema.name field) =
      (col.name == field) := by
  simp [CellName.answers, CellName.qualified]

/-- A scan of columns that are the first of their names answers with the column of a name. -/
theorem find_scan (hnames : Shows schema names columns) (hfirst : ∀ i ∈ columns, schema.First i)
    (hmem : column ∈ columns) (hcolumn : schema.columnIndex? field = some column)
    (hwidth : v.values.length = schema.width) :
    (RowView.stored names columns v).find (.qualified schema.name field) =
      .ok v.values[column]? := by
  obtain ⟨col, hcol, rfl⟩ := TableSchema.columnIndex?_name hcolumn
  exact find_answering hnames hfirst hmem hcol (by rw [answers_column, beq_self_eq_true]) hwidth

theorem find_all (hnames : Shows schema names (List.range schema.width))
    (hcolumn : schema.columnIndex? field = some column)
    (hwidth : v.values.length = schema.width) :
    (RowView.stored names (List.range schema.width) v).find (.qualified schema.name field) =
      .ok v.values[column]? := by
  obtain ⟨hlt, _, hnot⟩ := List.findIdx?_eq_some_iff_getElem.mp hcolumn
  obtain ⟨col, hcol, rfl⟩ := TableSchema.columnIndex?_name hcolumn
  refine find_stored_at hnames (List.getElem?_range hlt) hcol
    (by rw [answers_column, beq_self_eq_true]) ?_ hwidth
  intro j hj i col' hji hcol'
  rw [TableSchema.width, List.getElem?_range (Nat.lt_trans hj hlt)] at hji
  obtain rfl := Option.some.inj hji
  obtain ⟨hjlt, hget⟩ := List.getElem?_eq_some_iff.mp hcol'
  have hne := hnot j hj
  rw [hget] at hne
  rw [answers_column]
  simpa using hne

end RowView

end SnapshotSql
