import SnapshotSql.Proofs.Query.Lookups
import SnapshotSql.Proofs.Row.Rejoined
/-! # Conditions and their terms -/

namespace SnapshotSql

namespace Expr

variable {find find' : Lookup}

/-! ## Truth -/

private theorem evalUntil_false {es : List Expr} :
    evalUntil find false es = .ok false ↔ ∀ e ∈ es, e.holds find = .ok true := by
  induction es with
  | nil => simp [evalUntil]
  | cons e es ih =>
    rw [List.forall_mem_cons, ← ih, evalUntil, holds]
    cases he : e.eval find with
    | error x => simp [bind, Except.bind]
    | ok a => cases ha : a.truth <;> simp [bind, Except.bind, pure, Except.pure, ha]

theorem holds_all {es : List Expr} :
    (junction .all es).holds find = .ok true ↔ ∀ e ∈ es, e.holds find = .ok true := by
  rw [← evalUntil_false, holds_conjunction, map_eq_ok]
  simp

theorem holds_conjuncts (e : Expr) :
    (∀ t ∈ e.conjuncts, t.holds find = .ok true) ↔ e.holds find = .ok true := by
  rw [← evalUntil_false, evalUntil_conjuncts, map_eq_ok]
  simp

theorem holds_ofConjuncts? {es : List Expr} {e : Expr} (h : ofConjuncts? es = some e) :
    e.holds find = .ok true ↔ ∀ t ∈ es, t.holds find = .ok true := by
  have hholds : e.holds find = (evalUntil find false es).map (!·) := by
    rw [← holds_ofConjuncts, h, Option.elim_some]
  rw [← evalUntil_false, hholds, map_eq_ok]
  simp

/-! ## What terms read -/

section

variable {P : Expr → Prop}

mutual

/-- What a conjunction passes on to its terms holds of all terms of a condition. -/
theorem conjuncts_induction (h : ∀ terms, P (.junction .all terms) → ∀ t ∈ terms, P t) :
    ∀ {e : Expr}, P e → ∀ t ∈ e.conjuncts, P t
  | .junction .all terms, he => conjunctsAll_induction h (h terms he)
  | .junction .any _, he | .field _, he | .literal _, he | .comparison .., he | .arithmetic .., he
  | .isNull .., he | .aggregate .., he => List.forall_mem_singleton.mpr he

theorem conjunctsAll_induction (h : ∀ terms, P (.junction .all terms) → ∀ t ∈ terms, P t) :
    ∀ {es : List Expr}, (∀ e ∈ es, P e) → ∀ t ∈ conjunctsAll es, P t
  | [], _ => nofun
  | e :: es, hes => by
    rw [List.forall_mem_cons] at hes
    rw [conjunctsAll, List.forall_mem_append]
    exact ⟨conjuncts_induction h hes.1, conjunctsAll_induction h hes.2⟩

end

end

theorem fields_subset_fieldsAll {t : Expr} {es : List Expr} (h : t ∈ es) :
    t.fields ⊆ fieldsAll es := by
  induction es with
  | nil => cases h
  | cons e es ih =>
    rw [fieldsAll]
    rcases List.mem_cons.mp h with rfl | h
    · exact List.subset_append_left _ _
    · exact List.subset_append_of_subset_right _ (ih h)

theorem calls_subset_callsAll {t : Expr} {es : List Expr} (h : t ∈ es) :
    t.calls ⊆ callsAll es := by
  induction es with
  | nil => cases h
  | cons e es ih =>
    rw [callsAll]
    rcases List.mem_cons.mp h with rfl | h
    · exact List.subset_append_left _ _
    · exact List.subset_append_of_subset_right _ (ih h)

theorem fields_conjuncts {e t : Expr} (h : t ∈ e.conjuncts) : t.fields ⊆ e.fields := by
  refine conjuncts_induction (P := fun t => t.fields ⊆ e.fields) ?_ (List.Subset.refl _) t h
  intro terms hterms t ht
  exact List.Subset.trans (fields_subset_fieldsAll ht) hterms

theorem hasAggregate_conjuncts {e t : Expr} (he : e.hasAggregate = false) (h : t ∈ e.conjuncts) :
    t.hasAggregate = false := by
  have hcalls : ∀ {t : Expr}, t.hasAggregate = false ↔ t.calls ⊆ [] := by
    intro t
    rw [hasAggregate, List.subset_nil, Bool.not_eq_false', List.isEmpty_iff]
  refine conjuncts_induction (P := fun t => t.hasAggregate = false) ?_ he t h
  intro terms hterms t ht
  rw [hcalls] at hterms ⊢
  exact List.Subset.trans (calls_subset_callsAll ht) hterms

end Expr

end SnapshotSql
