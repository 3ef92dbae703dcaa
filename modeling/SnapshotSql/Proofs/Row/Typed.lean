import Mathlib.Data.List.Basic
import SnapshotSql.Expr.Fields
import SnapshotSql.Proofs.Evaluation
import SnapshotSql.Row
/-! # Types of values -/

namespace SnapshotSql

namespace DataType

theorem admits_null (t : DataType) : t.admits .null = true := by cases t <;> rfl

theorem admits_self (v : Value) : v.dataType.admits v = true := by cases v <;> rfl

theorem integer_admits {v : Value} :
    integer.admits v = true ↔ v = .null ∨ ∃ n, v = .integer n := by
  cases v <;> simp [admits]

theorem boolean_admits {v : Value} :
    boolean.admits v = true ↔ v = .null ∨ ∃ b, v = .boolean b := by
  cases v <;> simp [admits]

theorem undefined_admits {v : Value} : undefined.admits v = true ↔ v = .null := by
  cases v <;> simp [admits]

theorem admits_integer {t : DataType} {n : Int64} :
    t.admits (.integer n) = true ↔ t = .integer ∨ t = .float := by
  cases t <;> simp [admits]

theorem admits_float {t : DataType} {x : Double} : t.admits (.float x) = true ↔ t = .float := by
  cases t <;> simp [admits]

end DataType

/-! ## Arithmetic -/

namespace Value

variable {a b v : Value} {op : ArithOp}

theorem float_admits_arith (h : a.arith op b = .ok v) : DataType.float.admits v = true := by
  unfold arith at h
  split at h
  · cases h
    rfl
  · cases h
    rfl
  · split at h
    · obtain ⟨x, _, rfl⟩ := map_eq_ok.mp h
      rfl
    · split at h
      · cases h
        rfl
      · cases h
  · obtain ⟨x, _, h⟩ := bind_eq_ok.mp h
    obtain ⟨y, _, h⟩ := bind_eq_ok.mp h
    obtain ⟨z, _, rfl⟩ := map_eq_ok.mp h
    rfl

theorem integer_admits_arith (hop : op ≠ .div) (ha : DataType.integer.admits a = true)
    (hb : DataType.integer.admits b = true) (h : a.arith op b = .ok v) :
    DataType.integer.admits v = true := by
  rcases DataType.integer_admits.mp ha with rfl | ⟨m, rfl⟩
  · cases h
    rfl
  rcases DataType.integer_admits.mp hb with rfl | ⟨n, rfl⟩
  · cases h
    rfl
  rw [arith, if_neg hop] at h
  split at h
  · cases h
    rfl
  · cases h

theorem arith_negate (h : a.arith .negate b = .ok v) : v = .null := by
  unfold arith at h
  split at h
  · cases h
    rfl
  · cases h
    rfl
  · cases h
  · obtain ⟨x, _, h⟩ := bind_eq_ok.mp h
    obtain ⟨y, _, h⟩ := bind_eq_ok.mp h
    obtain ⟨z, hz, _⟩ := map_eq_ok.mp h
    cases hz

theorem admits_negate {t : DataType} (ht : t.admits a = true) (h : a.negate = .ok v) :
    t.admits v = true := by
  cases a with
  | null =>
    cases h
    exact ht
  | integer n =>
    rw [negate] at h
    split at h
    · cases h
      exact DataType.admits_integer.mpr (DataType.admits_integer.mp ht)
    · cases h
  | float x =>
    cases h
    exact DataType.admits_float.mpr (DataType.admits_float.mp ht)
  | boolean b => cases h
  | text s => cases h

theorem float_admits_negate (h : a.negate = .ok v) : DataType.float.admits v = true := by
  refine admits_negate ?_ h
  cases a with
  | null => rfl
  | integer n => rfl
  | float x => rfl
  | boolean b => cases h
  | text s => cases h

end Value

/-! ## Expressions -/

/-- Where the lookup answers a field or a call of the expression, it does so with a value of its type. -/
structure Lookup.Respects (find : Lookup) (e : Expr) : Prop where
  field : ∀ ref ∈ e.plainFields, ∀ v, find (.qualified ref.table ref.field) = .ok (some v) →
    ref.type.admits v = true
  call : ∀ call ∈ e.calls, ∀ v, find (.plain call.render) = .ok (some v) →
    call.dataType.admits v = true

theorem Lookup.require_eq_ok {find : Lookup} {name : CellName} {v : Value}
    (h : find.require name = .ok v) : find name = .ok (some v) := by
  obtain ⟨found, hfound, h⟩ := bind_eq_ok.mp h
  cases found with
  | none => cases h
  | some w =>
    cases h
    exact hfound

namespace Lookup.Respects

variable {find : Lookup} {op : ArithOp} {l r : Expr}

theorem operands (h : find.Respects (.arithmetic op l (some r))) :
    find.Respects l ∧ find.Respects r := by
  obtain ⟨hfield, hcall⟩ := h
  rw [Expr.plainFields, List.forall_mem_append] at hfield
  rw [Expr.calls, List.forall_mem_append] at hcall
  exact ⟨⟨hfield.1, hcall.1⟩, ⟨hfield.2, hcall.2⟩⟩

theorem operand (h : find.Respects (.arithmetic op l none)) : find.Respects l := ⟨h.field, h.call⟩

end Lookup.Respects

namespace Expr

variable {find : Lookup}

/-- The type of an operation is that of its operands if both are integers, and a float otherwise. -/
private theorem admits_operation {op : ArithOp} {l r : Expr} {a b v : Value}
    (ha : l.dataType.admits a = true) (hb : r.dataType.admits b = true) (h : a.arith op b = .ok v) :
    (arithmetic op l (some r)).dataType.admits v = true := by
  have hmixed : op ≠ .div → (if l.dataType = .integer ∧ r.dataType = .integer then DataType.integer
      else .float).admits v = true := by
    intro hop
    split
    · rename_i htypes
      rw [htypes.1] at ha
      rw [htypes.2] at hb
      exact Value.integer_admits_arith hop ha hb h
    · exact Value.float_admits_arith h
  cases op with
  | div => exact Value.float_admits_arith h
  | negate =>
    rw [Value.arith_negate h]
    exact DataType.admits_null _
  | add => exact hmixed nofun
  | sub => exact hmixed nofun
  | mul => exact hmixed nofun

/-- An expression comes to a value of its type. The terms of a comparison, a junction or a test for NULL
do not matter for that, since the result is a boolean whatever they come to. -/
theorem eval_admits : ∀ {e : Expr} {v : Value}, find.Respects e → e.eval find = .ok v →
    e.dataType.admits v = true
  | .field ref, v, hfind, h => by
    rw [eval] at h
    exact hfind.field ref (List.mem_singleton_self ref) v (Lookup.require_eq_ok h)
  | .literal w, v, _, h => by
    rw [eval] at h
    cases h
    exact DataType.admits_self w
  | .comparison op l r, v, _, h => by
    rw [eval] at h
    obtain ⟨a, _, h⟩ := bind_eq_ok.mp h
    obtain ⟨b, _, h⟩ := bind_eq_ok.mp h
    cases h
    rfl
  | .junction kind terms, v, _, h => by
    rw [eval] at h
    obtain ⟨stopped, _, h⟩ := bind_eq_ok.mp h
    cases h
    rfl
  | .arithmetic op e none, v, hfind, h => by
    rw [eval] at h
    obtain ⟨a, ha, h⟩ := bind_eq_ok.mp h
    have hoperand := eval_admits hfind.operand ha
    cases op with
    | div => exact Value.float_admits_negate h
    | _ => exact Value.admits_negate hoperand h
  | .arithmetic op l (some r), v, hfind, h => by
    rw [eval] at h
    obtain ⟨a, ha, h⟩ := bind_eq_ok.mp h
    obtain ⟨b, hb, h⟩ := bind_eq_ok.mp h
    exact admits_operation (eval_admits hfind.operands.1 ha) (eval_admits hfind.operands.2 hb) h
  | .isNull e negated, v, _, h => by
    rw [eval] at h
    obtain ⟨a, _, h⟩ := bind_eq_ok.mp h
    cases h
    rfl
  | .aggregate fn arg, v, hfind, h => by
    rw [eval] at h
    exact hfind.call ⟨fn, arg⟩ (List.mem_singleton_self _) v (Lookup.require_eq_ok h)

end Expr

namespace RowView

/-- On a row whose cells have the types of the fields and calls that are looked up, every expression
comes to a value of its own type, or to NULL, which is of every type. An integer expression does not yield
a float, a condition yields a boolean or NULL, and an untyped expression yields NULL. -/
theorem eval_typed {view : RowView} {e : Expr} {v : Value} (hview : Lookup.Respects view.find e)
    (h : view.eval e = .ok v) : e.dataType.admits v = true ∧
      (e.dataType = .integer → v = .null ∨ ∃ n, v = .integer n) ∧
      (e.dataType = .boolean → v = .null ∨ ∃ b, v = .boolean b) ∧
      (e.dataType = .undefined → v = .null) := by
  have hadmits := Expr.eval_admits hview h
  refine ⟨hadmits, fun htype => ?_, fun htype => ?_, fun htype => ?_⟩
  · rw [htype] at hadmits
    exact DataType.integer_admits.mp hadmits
  · rw [htype] at hadmits
    exact DataType.boolean_admits.mp hadmits
  · rw [htype] at hadmits
    exact DataType.undefined_admits.mp hadmits

def typedGroup : RowView := .owned {
  names := [.qualified "t" "f", .qualified "t" "n", .plain "COUNT(*)"]
  values := [.integer 2, .integer 3, .integer 5] }

/-- `t.f * -t.n + COUNT(*)`. -/
def mixedTerms : Expr :=
  .arithmetic .add
    (.arithmetic .mul (.field ⟨"t", "f", .float⟩)
      (some (.arithmetic .negate (.field ⟨"t", "n", .integer⟩) none)))
    (some (.aggregate .count none))

theorem eval_typed_mixedTerms : Lookup.Respects typedGroup.find mixedTerms ∧
    typedGroup.eval mixedTerms = .ok (.integer (-1)) ∧
    mixedTerms.dataType.admits (.integer (-1)) = true := by
  have hgroup : Lookup.Respects typedGroup.find mixedTerms := by
    constructor
    · intro ref href v hv
      rcases List.mem_pair.mp href with rfl | rfl
      · cases hv
        rfl
      · cases hv
        rfl
    · intro call hcall v hv
      cases List.mem_singleton.mp (show call ∈ [⟨.count, none⟩] from hcall)
      cases hv
      rfl
  have heval : typedGroup.eval mixedTerms = .ok (.integer (-1)) := rfl
  exact ⟨hgroup, heval, (eval_typed hgroup heval).1⟩

end RowView

end SnapshotSql
