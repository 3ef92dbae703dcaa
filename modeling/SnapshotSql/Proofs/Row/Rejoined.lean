import SnapshotSql.Expr.Fields
import SnapshotSql.Proofs.Evaluation
import SnapshotSql.Row
/-! # Conditions taken apart and put together -/

namespace SnapshotSql

namespace Expr

variable {find : Lookup}

def IsConjunction (e : Expr) : Prop := ∃ terms, e = .junction .all terms

/-! ## Evaluation -/

theorem evalUntil_append (stop : Bool) (es es' : List Expr) : evalUntil find stop (es ++ es') = (do
    let stopped ← evalUntil find stop es
    if stopped then pure true else evalUntil find stop es') := by
  induction es with
  | nil => rfl
  | cons e es ih =>
    rw [List.cons_append, evalUntil, evalUntil, ih]
    cases e.eval find with
    | error x => rfl
    | ok a =>
      simp only [bind, Except.bind]
      split <;> rfl

theorem evalUntil_singleton (e : Expr) : evalUntil find false [e] = (e.holds find).map (!·) := by
  rw [evalUntil, holds]
  cases e.eval find with
  | error x => rfl
  | ok a => cases ha : a.truth <;> simp [bind, Except.bind, pure, Except.pure, Except.map, ha, evalUntil]

theorem holds_conjunction (terms : List Expr) :
    (junction .all terms).holds find = (evalUntil find false terms).map (!·) := by
  rw [holds, eval, show ((.all : Junction) == .any) = false from rfl]
  cases evalUntil find false terms with
  | error x => rfl
  | ok stopped => cases stopped <;> rfl

theorem map_not_not (x : Except ExecError Bool) : (x.map (!·)).map (!·) = x := by
  cases x with
  | error e => rfl
  | ok b => cases b <;> rfl

mutual

theorem evalUntil_conjuncts : ∀ e : Expr,
    evalUntil find false e.conjuncts = (e.holds find).map (!·)
  | .junction .all terms => by
    rw [conjuncts, evalUntil_conjunctsAll terms, holds_conjunction, map_not_not]
  | .junction .any _ => evalUntil_singleton _
  | .field _ => evalUntil_singleton _
  | .literal _ => evalUntil_singleton _
  | .comparison .. => evalUntil_singleton _
  | .arithmetic .. => evalUntil_singleton _
  | .isNull .. => evalUntil_singleton _
  | .aggregate .. => evalUntil_singleton _

theorem evalUntil_conjunctsAll : ∀ es : List Expr,
    evalUntil find false (conjunctsAll es) = evalUntil find false es
  | [] => rfl
  | e :: es => by
    rw [conjunctsAll, evalUntil_append, evalUntil_conjuncts e, evalUntil_conjunctsAll es,
      ← List.singleton_append, evalUntil_append, evalUntil_singleton]

end

/-- One condition for some terms is decided as the terms are, and no condition is true. -/
theorem holds_ofConjuncts (es : List Expr) :
    ((ofConjuncts? es).elim (.ok true) fun e => e.holds find) =
      (evalUntil find false es).map (!·) := by
  match es with
  | [] => rfl
  | [e] => rw [evalUntil_singleton, map_not_not]; rfl
  | e :: e' :: es => exact holds_conjunction _

/-! ## Terms -/

theorem conjuncts_of_term {e : Expr} (h : ¬e.IsConjunction) : e.conjuncts = [e] := by
  cases e with
  | junction kind terms =>
    cases kind with
    | all => exact absurd ⟨terms, rfl⟩ h
    | any => rfl
  | _ => rfl

theorem conjunctsAll_of_terms {es : List Expr} (h : ∀ e ∈ es, ¬e.IsConjunction) :
    conjunctsAll es = es := by
  induction es with
  | nil => rfl
  | cons e es ih =>
    rw [List.forall_mem_cons] at h
    rw [conjunctsAll, conjuncts_of_term h.1, ih h.2, List.singleton_append]

theorem conjuncts_ofConjuncts {es : List Expr} (h : ∀ e ∈ es, ¬e.IsConjunction) :
    (ofConjuncts? es).elim [] conjuncts = es := by
  match es with
  | [] => rfl
  | [e] => exact conjuncts_of_term (h e (List.mem_singleton_self e))
  | e :: e' :: es => exact conjunctsAll_of_terms h

end Expr

namespace RowView

/-- A condition is taken apart and put together again without a difference: on every row it has the same
truth or fails for the same reason. No condition is taken for a true one. Terms that are no conjunctions
themselves are put together and taken apart again without a difference. -/
theorem holds_rejoined :
    (∀ (view : RowView) (e : Expr),
      (Expr.ofConjuncts? e.conjuncts).elim (.ok true) view.holds = view.holds e) ∧
    ∀ terms : List Expr, (∀ e ∈ terms, ¬e.IsConjunction) →
      (Expr.ofConjuncts? terms).elim [] Expr.conjuncts = terms := by
  constructor
  · intro view e
    calc (Expr.ofConjuncts? e.conjuncts).elim (.ok true) view.holds
        = (Expr.evalUntil view.find false e.conjuncts).map (!·) := Expr.holds_ofConjuncts e.conjuncts
      _ = ((e.holds view.find).map (!·)).map (!·) := by rw [Expr.evalUntil_conjuncts]
      _ = view.holds e := Expr.map_not_not _
  · intro terms hterms
    exact Expr.conjuncts_ofConjuncts hterms

/-- `5 AND NULL`, between a conjunction of nothing and `1 / 0`, which is never evaluated. -/
def nestedConjunction : Expr :=
  .junction .all [.junction .all [], .junction .all [.literal (.integer 5), .literal .null],
    .arithmetic .div (.literal (.integer 1)) (some (.literal (.integer 0)))]

theorem holds_rejoined_nested :
    (Expr.ofConjuncts? nestedConjunction.conjuncts).elim (.ok true) RowView.empty.holds = .ok false ∧
      (∀ e ∈ nestedConjunction.conjuncts, ¬e.IsConjunction) ∧
      (Expr.ofConjuncts? nestedConjunction.conjuncts).elim [] Expr.conjuncts =
        nestedConjunction.conjuncts := by
  have hterms : ∀ e ∈ nestedConjunction.conjuncts, ¬e.IsConjunction := by
    simp [nestedConjunction, Expr.conjuncts, Expr.conjunctsAll, Expr.IsConjunction]
  refine ⟨?_, hterms, holds_rejoined.2 _ hterms⟩
  rw [holds_rejoined.1]
  rfl

end RowView

end SnapshotSql
