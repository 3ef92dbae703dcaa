import SnapshotSql.Plan.OfStatement
import SnapshotSql.Proofs.Evaluation
import SnapshotSql.Proofs.Sorted
/-! # What queries take from their sources -/

namespace SnapshotSql

def TableSchema.First (s : TableSchema) (column : Nat) : Prop :=
  ∃ field, s.columnIndex? field = some column

theorem TableSchema.lt_width_of_first {s : TableSchema} {column : Nat} (h : s.First column) :
    column < s.width := by
  obtain ⟨field, hfield⟩ := h
  exact (List.findIdx?_eq_some_iff_getElem.mp hfield).1

/-- A column of the first source of some name is noted, or nothing is. -/
inductive Needs.Notes (scope : List ScopeEntry) (needs : Needs) : Needs → Prop
  | nothing : Notes scope needs needs
  | column {i : Nat} {entry : ScopeEntry} {schema : TableSchema} {column : Nat}
      (hfirst : scope.findIdx? (·.name == entry.name) = some i) (hentry : scope[i]? = some entry)
      (hoffer : entry.offer = .columns schema) (hcolumn : schema.First column) :
      Notes scope needs (needs.modify i (Sorted.insert column))

variable {scope known : List ScopeEntry} {needs needs' : Needs}

private theorem findIdx?_of_prefix {name : String} {i : Nat} (hknown : known <+: scope)
    (h : known.findIdx? (·.name == name) = some i) :
    scope.findIdx? (·.name == name) = some i := by
  obtain ⟨rest, rfl⟩ := hknown
  rw [List.findIdx?_append, h, Option.some_or]

/-- A reference that is resolved names the first source of its name. If that is a table, its column is
noted, and otherwise nothing is. -/
theorem FieldRef.resolve_eq_ok {ref : FieldRef} (hknown : known <+: scope)
    (h : ref.resolve known needs = .ok needs') : ∃ i < known.length,
      scope.findIdx? (·.name == ref.table) = some i ∧ ∃ entry, scope[i]? = some entry ∧
        match entry.offer with
        | .columns schema => ∃ column, schema.columnIndex? ref.field = some column ∧
            needs' = needs.modify i (Sorted.insert column)
        | .outputs names => ref.field ∈ names ∧ needs' = needs := by
  rw [resolve] at h
  cases hi : known.findIdx? (·.name == ref.table) with
  | none =>
    rw [hi] at h
    cases h
  | some i =>
    rw [hi] at h
    obtain ⟨hlt, _, _⟩ := List.findIdx?_eq_some_iff_getElem.mp hi
    have hentry : known[i]? = some known[i] := List.getElem?_eq_getElem hlt
    have hscope : scope[i]? = some known[i] := List.prefix_iff_getElem?.mp hknown i hlt
    refine ⟨i, hlt, findIdx?_of_prefix hknown hi, known[i], hscope, ?_⟩
    generalize known[i] = entry at hentry
    obtain ⟨name, offer⟩ := entry
    simp only [hentry] at h
    cases offer with
    | columns schema =>
      cases hcolumn : schema.columnIndex? ref.field with
      | none =>
        simp only [hcolumn] at h
        cases h
      | some column =>
        simp only [hcolumn] at h
        cases h
        exact ⟨column, hcolumn, rfl⟩
    | outputs names =>
      simp only at h
      split at h
      · rename_i hmem
        cases h
        exact ⟨List.contains_iff_mem.mp hmem, rfl⟩
      · cases h

theorem FieldRef.notes_resolve {ref : FieldRef} (hknown : known <+: scope)
    (h : ref.resolve known needs = .ok needs') : needs.Notes scope needs' := by
  obtain ⟨i, _, hfirst, entry, hentry, hoffer⟩ := resolve_eq_ok hknown h
  have hname : entry.name = ref.table := by
    obtain ⟨hlt, hname, _⟩ := List.findIdx?_eq_some_iff_getElem.mp hfirst
    rw [List.getElem?_eq_getElem hlt] at hentry
    rw [← Option.some.inj hentry, eq_of_beq hname]
  cases ho : entry.offer with
  | columns schema =>
    rw [ho] at hoffer
    obtain ⟨column, hcolumn, rfl⟩ := hoffer
    exact .column (hname ▸ hfirst) hentry ho ⟨ref.field, hcolumn⟩
  | outputs names =>
    rw [ho] at hoffer
    obtain ⟨_, rfl⟩ := hoffer
    exact .nothing

section

variable {P : Needs → Prop}

theorem Expr.resolve_induction {e : Expr} (hknown : known <+: scope)
    (hstep : ∀ needs needs', P needs → needs.Notes scope needs' → P needs') (hstart : P needs)
    (h : e.resolve known needs = .ok needs') : P needs' :=
  foldlM_keeps (fun _ _ _ _ hn hr => hstep _ _ hn (FieldRef.notes_resolve hknown hr)) hstart h

private theorem resolveJoins_induction (sources : List FromItem) {i : Nat}
    (hstep : ∀ needs needs', P needs → needs.Notes scope needs' → P needs') (hstart : P needs)
    (h : Select.resolveJoins scope i sources needs = .ok needs') : P needs' := by
  induction sources generalizing i needs with
  | nil =>
    cases h
    exact hstart
  | cons source sources ih =>
    obtain ⟨source, on⟩ := source
    cases on with
    | none => exact ih hstart h
    | some on =>
      obtain ⟨needs₁, hon, h⟩ := bind_eq_ok.mp h
      exact ih (Expr.resolve_induction (List.take_prefix _ scope) hstep hstart hon) h

theorem Select.resolve_induction {s : Select}
    (hstep : ∀ needs needs', P needs → needs.Notes scope needs' → P needs')
    (hstart : P (s.sources.map fun _ => [])) (h : s.resolve scope = .ok needs) : P needs := by
  obtain ⟨needs₁, hclauses, h⟩ := bind_eq_ok.mp h
  refine resolveJoins_induction s.sources hstep ?_ h
  exact foldlM_keeps (fun _ _ _ _ hn he => Expr.resolve_induction List.prefix_rfl hstep hn he)
    hstart hclauses

end

/-- The columns read from each table are columns of it, each the first of its name. -/
def Needs.Within (scope : List ScopeEntry) (needs : Needs) : Prop :=
  ∀ (k : Nat) (columns : List Nat) (entry : ScopeEntry) (schema : TableSchema),
    needs[k]? = some columns → scope[k]? = some entry → entry.offer = .columns schema →
    ∀ i ∈ columns, schema.First i

private theorem Needs.within_notes (h : needs.Within scope) (hnotes : needs.Notes scope needs') :
    needs'.Within scope := by
  cases hnotes with
  | nothing => exact h
  | @column k entry schema column _ hentry hoffer hcolumn =>
    intro k' columns entry' schema' hk' hentry' hoffer' i hi
    rw [List.getElem?_modify, Option.map_eq_map, Option.map_eq_some_iff] at hk'
    obtain ⟨old, hold, rfl⟩ := hk'
    by_cases hkk : k = k'
    · subst hkk
      rw [if_pos rfl] at hi
      rcases Sorted.mem_insert.mp hi with rfl | hi
      · rw [hentry] at hentry'
        cases hentry'
        rw [hoffer] at hoffer'
        cases hoffer'
        exact hcolumn
      · exact h k old entry' schema' hold hentry' hoffer' i hi
    · rw [if_neg hkk] at hi
      exact h k' old entry' schema' hold hentry' hoffer' i hi

theorem Select.within_resolve {s : Select} (h : s.resolve scope = .ok needs) :
    needs.Within scope := by
  refine Select.resolve_induction (fun _ _ => Needs.within_notes) ?_ h
  intro k columns entry schema hk _ _ i hi
  rw [List.getElem?_map, Option.map_eq_some_iff] at hk
  obtain ⟨_, _, rfl⟩ := hk
  cases hi

def Needs.OfFirst (scope : List ScopeEntry) (needs : Needs) : Prop :=
  ∀ (k : Nat) (columns : List Nat) (entry : ScopeEntry), needs[k]? = some columns → columns ≠ [] →
    scope[k]? = some entry → scope.findIdx? (·.name == entry.name) = some k

private theorem Needs.ofFirst_notes (h : needs.OfFirst scope) (hnotes : needs.Notes scope needs') :
    needs'.OfFirst scope := by
  cases hnotes with
  | nothing => exact h
  | @column i entry _ _ hfirst hentry _ _ =>
    intro k columns entry' hk hne hentry'
    rw [List.getElem?_modify, Option.map_eq_map, Option.map_eq_some_iff] at hk
    obtain ⟨old, hold, rfl⟩ := hk
    by_cases hik : i = k
    · subst hik
      rw [hentry] at hentry'
      cases hentry'
      exact hfirst
    · rw [if_neg hik] at hne
      exact h k old entry' hold hne hentry'

theorem Select.ofFirst_resolve {s : Select} (h : s.resolve scope = .ok needs) :
    needs.OfFirst scope := by
  refine Select.resolve_induction (fun _ _ => Needs.ofFirst_notes) ?_ h
  intro k columns entry hk hne _
  rw [List.getElem?_map, Option.map_eq_some_iff] at hk
  obtain ⟨_, _, rfl⟩ := hk
  exact absurd rfl hne

/-! ## References -/

/-- A reference names the `i`-th source, which is the first of its name and offers the field; if it is
a table, the column has been noted. -/
def Needs.Offers (scope : List ScopeEntry) (i : Nat) (ref : FieldRef) (needs : Needs) : Prop :=
  scope.findIdx? (·.name == ref.table) = some i ∧ ∃ entry, scope[i]? = some entry ∧
    match entry.offer with
    | .columns schema => ∃ column columns, schema.columnIndex? ref.field = some column ∧
        needs[i]? = some columns ∧ column ∈ columns
    | .outputs names => ref.field ∈ names

theorem Needs.length_notes (h : needs.Notes scope needs') : needs'.length = needs.length := by
  cases h with
  | nothing => rfl
  | column => exact List.length_modify ..

theorem Needs.offers_notes (h : needs.Notes scope needs') {i : Nat} {ref : FieldRef}
    (ho : Offers scope i ref needs) : Offers scope i ref needs' := by
  obtain ⟨hfirst, entry, hentry, hoffer⟩ := ho
  refine ⟨hfirst, entry, hentry, ?_⟩
  cases ho : entry.offer with
  | outputs names =>
    rw [ho] at hoffer
    exact hoffer
  | columns schema =>
    rw [ho] at hoffer
    obtain ⟨column, columns, hcolumn, hcolumns, hmem⟩ := hoffer
    cases h with
    | nothing => exact ⟨column, columns, hcolumn, hcolumns, hmem⟩
    | @column k _ _ new _ _ _ _ =>
      refine ⟨column, if k = i then Sorted.insert new columns else columns, hcolumn, ?_, ?_⟩
      · rw [List.getElem?_modify, hcolumns]
        split <;> rfl
      · split
        · exact Sorted.subset_insert new columns hmem
        · exact hmem

theorem FieldRef.offers_resolve {ref : FieldRef} (hknown : known <+: scope)
    (hlength : needs.length = scope.length) (h : ref.resolve known needs = .ok needs') :
    ∃ i < known.length, needs'.Offers scope i ref := by
  obtain ⟨i, hlt, hfirst, entry, hentry, hoffer⟩ := resolve_eq_ok hknown h
  refine ⟨i, hlt, hfirst, entry, hentry, ?_⟩
  cases ho : entry.offer with
  | columns schema =>
    rw [ho] at hoffer
    obtain ⟨column, hcolumn, rfl⟩ := hoffer
    have hneeds : i < needs.length := by
      have := hknown.length_le
      omega
    refine ⟨column, Sorted.insert column needs[i], hcolumn, ?_, Sorted.mem_insert_self _ _⟩
    rw [List.getElem?_modify, List.getElem?_eq_getElem hneeds]
    simp
  | outputs names =>
    rw [ho] at hoffer
    exact hoffer.1

theorem Expr.offers_resolve {e : Expr} (hknown : known <+: scope)
    (hlength : needs.length = scope.length) (h : e.resolve known needs = .ok needs') :
    needs'.length = scope.length ∧
      (∀ ref ∈ e.fields, ∃ i < known.length, needs'.Offers scope i ref) ∧
      ∀ i ref, needs.Offers scope i ref → needs'.Offers scope i ref := by
  have hstep : ∀ (needs : Needs) (ref : FieldRef) (needs' : Needs), needs.length = scope.length →
      ref.resolve known needs = .ok needs' → needs'.length = scope.length ∧
        (∃ i < known.length, needs'.Offers scope i ref) ∧
        ∀ ref', (∃ i < known.length, needs.Offers scope i ref') →
          ∃ i < known.length, needs'.Offers scope i ref' := by
    intro needs ref needs' hlength hr
    have hnotes := FieldRef.notes_resolve hknown hr
    refine ⟨(Needs.length_notes hnotes).trans hlength, FieldRef.offers_resolve hknown hlength hr, ?_⟩
    rintro ref' ⟨i, hi, ho⟩
    exact ⟨i, hi, Needs.offers_notes hnotes ho⟩
  obtain ⟨hlength', hall, _⟩ := foldlM_establishes hstep hlength h
  refine ⟨hlength', hall, fun i ref ho => ?_⟩
  exact foldlM_keeps (P := Needs.Offers scope i ref)
    (fun _ _ _ _ ho hr => Needs.offers_notes (FieldRef.notes_resolve hknown hr) ho) ho h

private theorem offers_resolveJoins (sources : List FromItem) {i : Nat}
    (hlength : needs.length = scope.length)
    (h : Select.resolveJoins scope i sources needs = .ok needs') : needs'.length = scope.length ∧
    (∀ j ref, needs.Offers scope j ref → needs'.Offers scope j ref) ∧
    ∀ (k : Nat) (source : Source) (on : Expr), sources[k]? = some ⟨source, some on⟩ →
      ∀ ref ∈ on.fields, ∃ j ≤ i + k, needs'.Offers scope j ref := by
  induction sources generalizing i needs with
  | nil =>
    cases h
    exact ⟨hlength, fun _ _ ho => ho, nofun⟩
  | cons item sources ih =>
    obtain ⟨source, on⟩ := item
    cases on with
    | none =>
      obtain ⟨hlength', hkeep, hons⟩ := ih (i := i + 1) hlength h
      refine ⟨hlength', hkeep, ?_⟩
      intro k source' on hk ref href
      cases k with
      | zero => cases hk
      | succ k =>
        obtain ⟨j, hj, ho⟩ := hons k source' on hk ref href
        exact ⟨j, by omega, ho⟩
    | some on =>
      obtain ⟨needs₁, hon, h⟩ := bind_eq_ok.mp h
      obtain ⟨hlength₁, hfields, hkeep₁⟩ :=
        Expr.offers_resolve (List.take_prefix _ scope) hlength hon
      obtain ⟨hlength', hkeep, hons⟩ := ih (i := i + 1) hlength₁ h
      refine ⟨hlength', fun j ref ho => hkeep j ref (hkeep₁ j ref ho), ?_⟩
      intro k source' on' hk ref href
      cases k with
      | zero =>
        cases hk
        obtain ⟨j, hj, ho⟩ := hfields ref href
        rw [List.length_take] at hj
        exact ⟨j, by omega, hkeep j ref ho⟩
      | succ k =>
        obtain ⟨j, hj, ho⟩ := hons k source' on' hk ref href
        exact ⟨j, by omega, ho⟩

/-- The references of the clauses above the joins name sources, and those of an ON condition sources
up to its own. -/
theorem Select.offers_resolve {s : Select} (hscope : s.sources.length = scope.length)
    (h : s.resolve scope = .ok needs) : needs.length = scope.length ∧
    (∀ e ∈ s.clauses, ∀ ref ∈ e.fields, ∃ i, needs.Offers scope i ref) ∧
    ∀ (k : Nat) (source : Source) (on : Expr), s.sources[k]? = some ⟨source, some on⟩ →
      ∀ ref ∈ on.fields, ∃ i ≤ k, needs.Offers scope i ref := by
  obtain ⟨needs₁, hclauses, h⟩ := bind_eq_ok.mp h
  have hstep : ∀ (needs : Needs) (e : Expr) (needs' : Needs), needs.length = scope.length →
      e.resolve scope needs = .ok needs' → needs'.length = scope.length ∧
        (∀ ref ∈ e.fields, ∃ i, needs'.Offers scope i ref) ∧
        ∀ e' : Expr, (∀ ref ∈ e'.fields, ∃ i, needs.Offers scope i ref) →
          ∀ ref ∈ e'.fields, ∃ i, needs'.Offers scope i ref := by
    intro needs e needs' hlength he
    obtain ⟨hlength', hfields, hkeep⟩ := Expr.offers_resolve List.prefix_rfl hlength he
    refine ⟨hlength', fun ref href => ?_, fun e' he' ref href => ?_⟩
    · obtain ⟨i, _, ho⟩ := hfields ref href
      exact ⟨i, ho⟩
    · obtain ⟨i, ho⟩ := he' ref href
      exact ⟨i, hkeep i ref ho⟩
  obtain ⟨hlength₁, hall, _⟩ := foldlM_establishes hstep
    (show (s.sources.map fun _ => ([] : List Nat)).length = scope.length by
      rw [List.length_map, hscope]) hclauses
  obtain ⟨hlength, hkeep, hons⟩ := offers_resolveJoins s.sources hlength₁ h
  refine ⟨hlength, fun e he ref href => ?_, ?_⟩
  · obtain ⟨i, ho⟩ := hall e he ref href
    exact ⟨i, hkeep i ref ho⟩
  · intro k source on hk ref href
    obtain ⟨i, hi, ho⟩ := hons k source on hk ref href
    exact ⟨i, by omega, ho⟩

/-! ## Conjuncts -/

theorem Expr.pushTarget?_eq_some {e : Expr} {i : Nat} (h : e.pushTarget? scope = some i) :
    ∃ entry, scope[i]? = some entry ∧ entry.isTable = true ∧
      ∀ ref ∈ e.fields, ref.table = entry.name := by
  unfold pushTarget? at h
  split at h
  · rename_i name htables
    obtain ⟨hlt, hentry, _⟩ := List.findIdx?_eq_some_iff_getElem.mp h
    rw [Bool.and_eq_true, beq_iff_eq] at hentry
    refine ⟨scope[i], List.getElem?_eq_getElem hlt, hentry.2, fun ref href => ?_⟩
    have hmem : ref.table ∈ e.tables := Sorted.mem_ofList.mpr (List.mem_map_of_mem href)
    rw [htables] at hmem
    rw [hentry.1, List.mem_singleton.mp hmem]
  · cases h

namespace Plan

theorem pushed_place (es : List Expr) (s : FilterSplit) (i : Nat) :
    (es.foldl (FilterSplit.place scope) s).pushed[i]? =
      s.pushed[i]?.map (· ++ es.filter fun e => e.pushTarget? scope = some i) := by
  induction es generalizing s with
  | nil => simp
  | cons e es ih =>
    rw [List.foldl_cons, ih, FilterSplit.place]
    cases htarget : e.pushTarget? scope with
    | none => simp [htarget]
    | some k =>
      rw [List.getElem?_modify]
      by_cases hk : k = i
      · simp [htarget, hk, Function.comp_def]
      · simp [htarget, hk]

theorem rest_place (es : List Expr) (s : FilterSplit) :
    (es.foldl (FilterSplit.place scope) s).rest =
      s.rest ++ es.filter fun e => e.pushTarget? scope = none := by
  induction es generalizing s with
  | nil => simp
  | cons e es ih =>
    rw [List.foldl_cons, ih, FilterSplit.place]
    cases htarget : e.pushTarget? scope with
    | none => simp [htarget]
    | some k => simp [htarget]

theorem splitFilter_single (filter : Option Expr) (h : scope.length = 1) :
    splitFilter scope filter = ⟨scope.map fun _ => [], filter.toList⟩ := by
  cases filter with
  | none => rfl
  | some e => rw [splitFilter, if_pos h, Option.toList_some]

theorem pushed_splitFilter (filter : Option Expr) (h : scope.length ≠ 1) (i : Nat) :
    (splitFilter scope filter).pushed[i]? = scope[i]?.map fun _ =>
      (filter.toList.flatMap Expr.conjuncts).filter fun e => e.pushTarget? scope = some i := by
  cases filter with
  | none => exact List.getElem?_map
  | some e =>
    rw [splitFilter, if_neg h, pushed_place, List.getElem?_map, Option.map_map, Option.toList_some,
      List.flatMap_singleton]
    rfl

theorem rest_splitFilter (filter : Option Expr) (h : scope.length ≠ 1) :
    (splitFilter scope filter).rest =
      (filter.toList.flatMap Expr.conjuncts).filter fun e => e.pushTarget? scope = none := by
  cases filter with
  | none => rfl
  | some e =>
    rw [splitFilter, if_neg h, rest_place]
    simp

theorem length_splitFilter (filter : Option Expr) :
    (splitFilter scope filter).pushed.length = scope.length := by
  have hplace : ∀ (es : List Expr) (s : FilterSplit),
      (es.foldl (FilterSplit.place scope) s).pushed.length = s.pushed.length := by
    intro es
    induction es with
    | nil => exact fun _ => rfl
    | cons e es ih =>
      intro s
      rw [List.foldl_cons, ih, FilterSplit.place]
      cases e.pushTarget? scope with
      | none => rfl
      | some i => exact List.length_modify ..
  cases filter with
  | none => exact List.length_map _
  | some e =>
    rw [splitFilter]
    split
    · exact List.length_map _
    · rw [hplace, List.length_map]

theorem mem_splitFilter (filter : Option Expr) (h : scope.length ≠ 1) (e : Expr) :
    e ∈ (splitFilter scope filter).pushed.flatten ++ (splitFilter scope filter).rest ↔
      e ∈ filter.toList.flatMap Expr.conjuncts := by
  rw [List.mem_append, rest_splitFilter filter h, List.mem_filter, decide_eq_true_iff]
  constructor
  · rintro (hpushed | ⟨he, _⟩)
    · obtain ⟨terms, hterms, he⟩ := List.mem_flatten.mp hpushed
      obtain ⟨i, hi⟩ := List.mem_iff_getElem?.mp hterms
      rw [pushed_splitFilter filter h] at hi
      obtain ⟨_, _, rfl⟩ := Option.map_eq_some_iff.mp hi
      exact (List.mem_filter.mp he).1
    · exact he
  · intro he
    cases htarget : e.pushTarget? scope with
    | none => exact .inr ⟨he, rfl⟩
    | some i =>
      obtain ⟨entry, hentry, _⟩ := Expr.pushTarget?_eq_some htarget
      have hpushed := pushed_splitFilter filter h i
      rw [hentry, Option.map_some] at hpushed
      refine .inl (List.mem_flatten.mpr ⟨_, List.mem_of_getElem? hpushed, ?_⟩)
      exact List.mem_filter.mpr ⟨he, by rw [decide_eq_true_iff, htarget]⟩

theorem exists_of_mem_splitFilter {filter : Option Expr} {e : Expr}
    (h : e ∈ (splitFilter scope filter).pushed.flatten ++ (splitFilter scope filter).rest) :
    ∃ condition, filter = some condition ∧ (e = condition ∨ e ∈ condition.conjuncts) := by
  by_cases hsingle : scope.length = 1
  · rw [splitFilter_single filter hsingle, List.map_const', List.flatten_replicate_nil, List.nil_append,
      Option.mem_toList] at h
    exact ⟨e, h, .inl rfl⟩
  · rw [mem_splitFilter filter hsingle, List.mem_flatMap] at h
    obtain ⟨condition, hfilter, he⟩ := h
    exact ⟨condition, Option.mem_toList.mp hfilter, .inr he⟩

end Plan

end SnapshotSql
