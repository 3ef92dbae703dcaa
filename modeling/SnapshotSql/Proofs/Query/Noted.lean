import SnapshotSql.Proofs.Query.Scope
/-! # Noted columns -/

namespace SnapshotSql

variable {scope known : List ScopeEntry} {needs needs' : Needs} {i column : Nat}

/-- The reference names a column of the `i`-th source, which is the first of its name. -/
def FieldRef.Names (scope : List ScopeEntry) (ref : FieldRef) (i column : Nat) : Prop :=
  scope.findIdx? (·.name == ref.table) = some i ∧ ∃ entry schema, scope[i]? = some entry ∧
    entry.offer = .columns schema ∧ schema.columnIndex? ref.field = some column

theorem FieldRef.names_congr {ref ref' : FieldRef} (htable : ref.table = ref'.table)
    (hfield : ref.field = ref'.field) : ref.Names scope i column ↔ ref'.Names scope i column := by
  rw [Names, Names, htable, hfield]

/-- The column is to be read from the `i`-th source. -/
def Needs.Has (needs : Needs) (i column : Nat) : Prop :=
  ∃ columns, needs[i]? = some columns ∧ column ∈ columns

theorem Needs.has_of_offers {ref : FieldRef} {j : Nat} (ho : needs.Offers scope j ref)
    (hnames : ref.Names scope i column) : needs.Has i column := by
  obtain ⟨hfirst, entry, hentry, hoffer⟩ := ho
  obtain ⟨hfirst', entry', schema, hentry', hschema, hcolumn⟩ := hnames
  obtain rfl := Option.some.inj (hfirst.symm.trans hfirst')
  obtain rfl := Option.some.inj (hentry.symm.trans hentry')
  rw [hschema] at hoffer
  obtain ⟨column', columns, hcolumn', hcolumns, hmem⟩ := hoffer
  obtain rfl := Option.some.inj (hcolumn.symm.trans hcolumn')
  exact ⟨columns, hcolumns, hmem⟩

/-! ## What resolution adds -/

private theorem FieldRef.has_resolve {ref : FieldRef} (hknown : known <+: scope)
    (h : ref.resolve known needs = .ok needs') (hhas : needs'.Has i column) :
    needs.Has i column ∨ ref.Names scope i column := by
  obtain ⟨j, _, hfirst, entry, hentry, hoffer⟩ := resolve_eq_ok hknown h
  cases ho : entry.offer with
  | outputs names =>
    rw [ho] at hoffer
    rw [hoffer.2] at hhas
    exact .inl hhas
  | columns schema =>
    rw [ho] at hoffer
    obtain ⟨new, hnew, rfl⟩ := hoffer
    obtain ⟨columns, hcolumns, hmem⟩ := hhas
    rw [List.getElem?_modify, Option.map_eq_map, Option.map_eq_some_iff] at hcolumns
    obtain ⟨old, hold, rfl⟩ := hcolumns
    by_cases hij : j = i
    · subst hij
      rw [if_pos rfl, Sorted.mem_insert] at hmem
      rcases hmem with rfl | hmem
      · exact .inr ⟨hfirst, entry, schema, hentry, ho, hnew⟩
      · exact .inl ⟨old, hold, hmem⟩
    · rw [if_neg hij] at hmem
      exact .inl ⟨old, hold, hmem⟩

private theorem Expr.has_resolve {e : Expr} (hknown : known <+: scope)
    (h : e.resolve known needs = .ok needs') (hhas : needs'.Has i column) :
    needs.Has i column ∨ ∃ ref ∈ e.fields, ref.Names scope i column := by
  refine foldlM_keeps (P := fun found : Needs => found.Has i column →
    needs.Has i column ∨ ∃ ref ∈ e.fields, ref.Names scope i column) ?_ .inl h hhas
  intro before ref href after hbefore hr hafter
  rcases FieldRef.has_resolve hknown hr hafter with hhas | hnames
  · exact hbefore hhas
  · exact .inr ⟨ref, href, hnames⟩

private theorem has_resolveJoins {sources : List FromItem} {k : Nat}
    (h : Select.resolveJoins scope k sources needs = .ok needs') (hhas : needs'.Has i column) :
    needs.Has i column ∨ ∃ item ∈ sources, ∃ on ∈ item.on, ∃ ref ∈ on.fields,
      ref.Names scope i column := by
  induction sources generalizing k needs with
  | nil =>
    cases h
    exact .inl hhas
  | cons item sources ih =>
    obtain ⟨source, on⟩ := item
    cases on with
    | none =>
      refine (ih h).imp_right ?_
      rintro ⟨item, hitem, hrest⟩
      exact ⟨item, List.mem_cons_of_mem _ hitem, hrest⟩
    | some on =>
      obtain ⟨needs₁, hon, h⟩ := bind_eq_ok.mp h
      rcases ih h with hhas | ⟨item, hitem, hrest⟩
      · refine (Expr.has_resolve (List.take_prefix _ scope) hon hhas).imp_right ?_
        exact fun hnames => ⟨_, List.mem_cons_self, on, rfl, hnames⟩
      · exact .inr ⟨item, List.mem_cons_of_mem _ hitem, hrest⟩

namespace Select

def references (s : Select) : List FieldRef :=
  s.clauses.flatMap Expr.fields ++ s.sources.flatMap fun item => item.on.toList.flatMap Expr.fields

variable {s s' : Select}

theorem mem_references {ref : FieldRef} : ref ∈ s.references ↔
    (∃ e ∈ s.clauses, ref ∈ e.fields) ∨ ∃ item ∈ s.sources, ∃ on ∈ item.on, ref ∈ on.fields := by
  simp [references]

theorem offers_reference (hscope : s.sources.length = scope.length) (h : s.resolve scope = .ok needs)
    {ref : FieldRef} (href : ref ∈ s.references) : ∃ i, needs.Offers scope i ref := by
  obtain ⟨_, hclauses, hons⟩ := offers_resolve hscope h
  rcases mem_references.mp href with ⟨e, he, href⟩ | ⟨⟨source, on⟩, hitem, on', hon, href⟩
  · exact hclauses e he ref href
  · obtain rfl := hon
    obtain ⟨k, hk⟩ := List.mem_iff_getElem?.mp hitem
    obtain ⟨i, _, ho⟩ := hons k source on' hk ref href
    exact ⟨i, ho⟩

theorem has_iff (hscope : s.sources.length = scope.length) (h : s.resolve scope = .ok needs) :
    needs.Has i column ↔ ∃ ref ∈ s.references, ref.Names scope i column := by
  constructor
  · intro hhas
    obtain ⟨needs₁, hclauses, h⟩ := bind_eq_ok.mp h
    rcases has_resolveJoins h hhas with hhas | ⟨item, hitem, on, hon, ref, href, hnames⟩
    · refine foldlM_keeps (P := fun found : Needs => found.Has i column →
        ∃ ref ∈ s.references, ref.Names scope i column) ?_ ?_ hclauses hhas
      · intro before e he after hbefore hr hafter
        rcases Expr.has_resolve List.prefix_rfl hr hafter with hhas | ⟨ref, href, hnames⟩
        · exact hbefore hhas
        · exact ⟨ref, mem_references.mpr (.inl ⟨e, he, href⟩), hnames⟩
      · rintro ⟨columns, hcolumns, hmem⟩
        rw [List.getElem?_map, Option.map_eq_some_iff] at hcolumns
        obtain ⟨_, _, rfl⟩ := hcolumns
        cases hmem
    · exact ⟨ref, mem_references.mpr (.inr ⟨item, hitem, on, hon, href⟩), hnames⟩
  · rintro ⟨ref, href, hnames⟩
    obtain ⟨j, ho⟩ := offers_reference hscope h href
    exact Needs.has_of_offers ho hnames

end Select

/-! ## Equal needs -/

def Needs.Sorted (needs : Needs) : Prop := ∀ columns ∈ needs, columns.Pairwise (· < ·)

private theorem Needs.sorted_notes (h : needs.Sorted) (hnotes : needs.Notes scope needs') :
    needs'.Sorted := by
  cases hnotes with
  | nothing => exact h
  | @column k _ _ column _ _ _ _ =>
    intro columns hcolumns
    obtain ⟨j, hj⟩ := List.mem_iff_getElem?.mp hcolumns
    rw [List.getElem?_modify, Option.map_eq_map, Option.map_eq_some_iff] at hj
    obtain ⟨old, hold, rfl⟩ := hj
    have hsorted := h old (List.mem_of_getElem? hold)
    split
    · exact Sorted.pairwise_insert column hsorted
    · exact hsorted

theorem Select.sorted_resolve {s : Select} (h : s.resolve scope = .ok needs) : needs.Sorted := by
  refine Select.resolve_induction (fun _ _ => Needs.sorted_notes) ?_ h
  intro columns hcolumns
  obtain ⟨_, _, rfl⟩ := List.mem_map.mp hcolumns
  exact .nil

/-- Queries over the same sources with references to the same columns read the same. -/
theorem Select.resolve_unique {s t : Select} (hscope : s.sources.length = scope.length)
    (hscope' : t.sources.length = scope.length) (h : s.resolve scope = .ok needs)
    (h' : t.resolve scope = .ok needs') (hnames : ∀ i column,
      (∃ ref ∈ s.references, ref.Names scope i column) ↔ ∃ ref ∈ t.references, ref.Names scope i column) :
    needs = needs' := by
  have hlength := (offers_resolve hscope h).1.trans (offers_resolve hscope' h').1.symm
  refine List.ext_getElem hlength fun k hk hk' => ?_
  refine List.Pairwise.eq_of_mem_iff (sorted_resolve h _ (List.getElem_mem hk))
    (sorted_resolve h' _ (List.getElem_mem hk')) fun column => ?_
  have hmem : ∀ {needs : Needs} (hk : k < needs.length), column ∈ needs[k] ↔ needs.Has k column := by
    intro needs hk
    rw [Needs.Has, List.getElem?_eq_getElem hk]
    simp
  rw [hmem hk, hmem hk', has_iff hscope h, has_iff hscope' h', hnames]

end SnapshotSql
