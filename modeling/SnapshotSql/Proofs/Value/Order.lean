import SnapshotSql.Proofs.Number.Rounding
import SnapshotSql.Value
import Mathlib.Order.Compare
/-! # How far the total order is one -/

namespace SnapshotSql.Value

variable {a b c : Value}

/-- Two integers that differ, and a double to which both of them round. -/
def Blurs (a b c : Value) : Prop :=
  ∃ m n : Int64, ∃ x : Double, a = integer m ∧ b = float x ∧ c = integer n ∧ m ≠ n ∧
    Double.ofInt m.toInt = x ∧ Double.ofInt n.toInt = x

theorem Blurs.symm (h : Blurs a b c) : Blurs c b a := by
  obtain ⟨m, n, x, ha, hb, hc, hne, hm, hn⟩ := h
  exact ⟨n, m, x, hc, hb, ha, hne.symm, hn, hm⟩

theorem totalCompare_swap (a b : Value) : a.totalCompare b = (b.totalCompare a).swap := by
  have hswap {α : Type} [Ord α] [Std.OrientedOrd α] (x y : α) :
      compare x y = (compare y x).swap := Std.OrientedOrd.eq_swap
  cases a <;> cases b <;> exact hswap _ _

/-! ## Kinds -/

theorem totalCompare_of_kindRank_lt (h : a.kindRank < b.kindRank) : a.totalCompare b = .lt := by
  cases a <;> cases b <;> first | rfl | exact absurd h (by simp [kindRank])

theorem kindRank_le (h : a.totalCompare b ≠ .gt) : a.kindRank ≤ b.kindRank := by
  by_contra hlt
  rw [totalCompare_swap, totalCompare_of_kindRank_lt (by omega)] at h
  exact h rfl

theorem boolean_of_kindRank (h : a.kindRank = 1) : ∃ x, a = boolean x := by
  cases a with
  | boolean x => exact ⟨x, rfl⟩
  | null | integer | float | text => cases h

theorem text_of_kindRank (h : a.kindRank = 3) : ∃ s, a = text s := by
  cases a with
  | text s => exact ⟨s, rfl⟩
  | null | boolean | integer | float => cases h

/-! ## Numbers -/

def doubleRank (a : Value) : Int := (a.asDouble?.getD .zero).totalRank

theorem doubleRank_integer (n : Int64) :
    (integer n).doubleRank = (Double.ofInt n.toInt).totalRank := rfl

theorem doubleRank_float (x : Double) : (float x).doubleRank = x.totalRank := rfl

theorem totalCompare_double {x : Double} (h : a.kindRank = 2) :
    a.totalCompare (float x) = compare a.doubleRank (float x).doubleRank := by
  cases a <;> first | rfl | cases h

theorem doubleRank_mono (ha : a.kindRank = 2) (hb : b.kindRank = 2)
    (h : a.totalCompare b ≠ .gt) : a.doubleRank ≤ b.doubleRank := by
  cases b with
  | integer n =>
    cases a with
    | integer m => exact Double.totalRank_ofInt_mono (compare_le_iff_le.mp h)
    | float x => exact compare_le_iff_le.mp h
    | null | boolean | text => cases ha
  | float y => exact compare_le_iff_le.mp (totalCompare_double ha ▸ h)
  | null | boolean | text => cases hb

private theorem totalCompare_trans_number (ha : a.kindRank = 2) (hb : b.kindRank = 2)
    (hc : c.kindRank = 2) (hblurs : ¬Blurs a b c) (hab : a.totalCompare b ≠ .gt)
    (hbc : b.totalCompare c ≠ .gt) : a.totalCompare c ≠ .gt := by
  have hrank : a.doubleRank ≤ c.doubleRank :=
    (doubleRank_mono ha hb hab).trans (doubleRank_mono hb hc hbc)
  cases c with
  | float z => exact totalCompare_double ha ▸ compare_le_iff_le.mpr hrank
  | integer n =>
    cases a with
    | float x => exact compare_le_iff_le.mpr hrank
    | integer m =>
      by_contra hgt
      have hlt : n.toInt < m.toInt := compare_gt_iff_gt.mp hgt
      cases b with
      | integer k =>
        have hmk : m.toInt ≤ k.toInt := compare_le_iff_le.mp hab
        have hkn : k.toInt ≤ n.toInt := compare_le_iff_le.mp hbc
        omega
      | float y =>
        -- The larger integer is no further than the double, and the double no further than the
        -- smaller one, so that all three have one place.
        have hmy := doubleRank_mono ha hb hab
        have hyn := doubleRank_mono hb hc hbc
        rw [doubleRank_integer, doubleRank_float] at hmy
        rw [doubleRank_float, doubleRank_integer] at hyn
        have hnm := Double.totalRank_ofInt_mono hlt.le
        have hm : Double.ofInt m.toInt = y := Double.totalRank_injective (by omega)
        have hn : Double.ofInt n.toInt = y := Double.totalRank_injective (by omega)
        have hne : m ≠ n := by
          rintro rfl
          omega
        exact hblurs ⟨m, n, y, rfl, rfl, rfl, hne, hm, hn⟩
      | null | boolean | text => cases hb
    | null | boolean | text => cases ha
  | null | boolean | text => cases hc

/-! ## All values -/

theorem totalCompare_trans (hblurs : ¬Blurs a b c) (hab : a.totalCompare b ≠ .gt)
    (hbc : b.totalCompare c ≠ .gt) : a.totalCompare c ≠ .gt := by
  have hkab := kindRank_le hab
  have hkbc := kindRank_le hbc
  rcases Nat.lt_or_eq_of_le (hkab.trans hkbc) with hlt | heq
  · rw [totalCompare_of_kindRank_lt hlt]
    decide
  have hkb : b.kindRank = c.kindRank := by omega
  have hle {α : Type} [Ord α] [Std.TransOrd α] {x y z : α} (hxy : compare x y ≠ .gt)
      (hyz : compare y z ≠ .gt) : compare x z ≠ .gt :=
    Ordering.isLE_iff_ne_gt.mp
      (Std.TransCmp.isLE_trans (Ordering.isLE_iff_ne_gt.mpr hxy) (Ordering.isLE_iff_ne_gt.mpr hyz))
  cases c with
  | null =>
    cases a with
    | null => decide
    | _ => cases heq
  | boolean =>
    obtain ⟨x, rfl⟩ := boolean_of_kindRank heq
    obtain ⟨y, rfl⟩ := boolean_of_kindRank hkb
    exact hle hab hbc
  | text =>
    obtain ⟨x, rfl⟩ := text_of_kindRank heq
    obtain ⟨y, rfl⟩ := text_of_kindRank hkb
    exact hle hab hbc
  | integer | float => exact totalCompare_trans_number heq hkb rfl hblurs hab hbc

theorem totalCompare_self (a : Value) : a.totalCompare a = .eq := by
  have h := totalCompare_swap a a
  cases hc : a.totalCompare a <;> rw [hc] at h <;> first | rfl | cases h

theorem totalCompare_eq_trans (hblurs : ¬Blurs a b c) (hab : a.totalCompare b = .eq)
    (hbc : b.totalCompare c = .eq) : a.totalCompare c = .eq := by
  have hle : a.totalCompare c ≠ .gt := totalCompare_trans hblurs (by simp [hab]) (by simp [hbc])
  have hge : c.totalCompare a ≠ .gt := by
    refine totalCompare_trans (fun h => hblurs h.symm) ?_ ?_
    · rw [totalCompare_swap, hbc]
      decide
    · rw [totalCompare_swap, hab]
      decide
  rw [totalCompare_swap] at hge
  cases h : a.totalCompare c <;> simp_all

/-- The integers of such a triple are equal to the double and not to each other. -/
theorem Blurs.totalCompare (h : Blurs a b c) :
    a.totalCompare b = .eq ∧ b.totalCompare c = .eq ∧ a.totalCompare c ≠ .eq := by
  obtain ⟨m, n, x, rfl, rfl, rfl, hne, hm, hn⟩ := h
  refine ⟨?_, ?_, ?_⟩
  · exact compare_eq_iff_eq.mpr (congrArg Double.totalRank hm)
  · exact compare_eq_iff_eq.mpr (congrArg Double.totalRank hn.symm)
  · intro heq
    exact hne (Int64.toInt_inj.mp (compare_eq_iff_eq.mp heq))

theorem Blurs.beyond (h : Blurs a b c) :
    ∃ m n : Int64, a = integer m ∧ c = integer n ∧
      (2 ^ 53 < m.toInt.natAbs ∨ 2 ^ 53 < n.toInt.natAbs) := by
  obtain ⟨m, n, x, ha, -, hc, hne, hm, hn⟩ := h
  refine ⟨m, n, ha, hc, ?_⟩
  by_contra hsmall
  simp only [not_or, not_lt] at hsmall
  have hrank : (Double.ofInt m.toInt).totalRank = (Double.ofInt n.toInt).totalRank := by
    rw [hm, hn]
  rcases lt_trichotomy m.toInt n.toInt with hlt | heq | hgt
  · exact absurd hrank (Double.totalRank_ofInt_lt hlt hsmall.1 hsmall.2).ne
  · exact hne (Int64.toInt_inj.mp heq)
  · exact absurd hrank (Double.totalRank_ofInt_lt hgt hsmall.2 hsmall.1).ne'

/-- The comparison is a total preorder but for blurred triples: it reverses with its arguments, and
a triple obeys both laws of transitivity exactly when it is not blurred. A blurred triple needs an
integer of more than 53 bits. -/
theorem totalCompare_preorder (a b c : Value) :
    a.totalCompare b = (b.totalCompare a).swap ∧
    (((a.totalCompare b ≠ .gt → b.totalCompare c ≠ .gt → a.totalCompare c ≠ .gt) ∧
        (a.totalCompare b = .eq → b.totalCompare c = .eq → a.totalCompare c = .eq)) ↔
      ¬Blurs a b c) ∧
    (Blurs a b c → ∃ m n : Int64, a = integer m ∧ c = integer n ∧
      (2 ^ 53 < m.toInt.natAbs ∨ 2 ^ 53 < n.toInt.natAbs)) := by
  refine ⟨totalCompare_swap a b, ⟨?_, ?_⟩, Blurs.beyond⟩
  · rintro ⟨-, heq⟩ hblurs
    obtain ⟨hab, hbc, hac⟩ := hblurs.totalCompare
    exact hac (heq hab hbc)
  · intro hblurs
    exact ⟨totalCompare_trans hblurs, totalCompare_eq_trans hblurs⟩

/-- Two integers past 2^53 equal one double, and the first of them is larger than the second. -/
theorem totalCompare_blurred :
    (integer 9007199254740993).totalCompare (float (.ofInt 9007199254740992)) = .eq ∧
    (float (.ofInt 9007199254740992)).totalCompare (integer 9007199254740992) = .eq ∧
    (integer 9007199254740993).totalCompare (integer 9007199254740992) = .gt := by
  decide +kernel

/-! ## Columns of one kind of number -/

/-- No two different integers are equal to one double. -/
def Unblurred (column : List Value) : Prop := ∀ a ∈ column, ∀ b ∈ column, ∀ c ∈ column, ¬Blurs a b c

/-- No integer stands beside a double. -/
def Unmixed (column : List Value) : Prop :=
  ∀ n x, integer n ∈ column → float x ∉ column

instance (column : List Value) : Decidable (Unmixed column) :=
  decidable_of_iff (∀ v ∈ column, ∀ w ∈ column, ¬(v.dataType = .integer ∧ w.dataType = .float)) <| by
    constructor
    · intro h n x hn hx
      exact h _ hn _ hx ⟨rfl, rfl⟩
    · rintro h v hv w hw ⟨hvtype, hwtype⟩
      cases v <;> cases hvtype
      cases w <;> cases hwtype
      exact h _ _ hv hw

namespace Unmixed

variable {column : List Value}

theorem not_blurs (h : Unmixed column) (ha : a ∈ column) (hb : b ∈ column) : ¬Blurs a b c := by
  rintro ⟨m, n, x, rfl, rfl, -⟩
  exact h m x ha hb

theorem mono {others : List Value} (h : Unmixed column) (hsub : others ⊆ column) :
    Unmixed others :=
  fun n x hn hx => h n x (hsub hn) (hsub hx)

theorem unblurred (h : Unmixed column) : Unblurred column := fun _ ha _ hb _ _ => h.not_blurs ha hb

end Unmixed

theorem Unblurred.mono {column others : List Value} (h : Unblurred column) (hsub : others ⊆ column) :
    Unblurred others :=
  fun a ha b hb c hc => h a (hsub ha) b (hsub hb) c (hsub hc)

theorem totalCompare_eq_symm (h : a.totalCompare b = .eq) : b.totalCompare a = .eq := by
  rw [totalCompare_swap, h]
  rfl

/-- Along rising values of a column, the outer two compare as the first pair that differs. -/
theorem totalCompare_chain (h : Unblurred [a, b, c]) (hab : a.totalCompare b ≠ .gt)
    (hbc : b.totalCompare c ≠ .gt) :
    a.totalCompare c = (a.totalCompare b).then (b.totalCompare c) := by
  have hac : a.totalCompare c ≠ .gt :=
    totalCompare_trans (h a (by simp) b (by simp) c (by simp)) hab hbc
  -- If the outer two are equal, each value is between the other two in both directions.
  have hback : a.totalCompare c = .eq → a.totalCompare b = .eq ∧ b.totalCompare c = .eq := by
    intro heq
    have hca : c.totalCompare a ≠ .gt := by simp [totalCompare_eq_symm heq]
    have hba : b.totalCompare a ≠ .gt :=
      totalCompare_trans (h b (by simp) c (by simp) a (by simp)) hbc hca
    have hcb : c.totalCompare b ≠ .gt :=
      totalCompare_trans (h c (by simp) a (by simp) b (by simp)) hca hab
    rw [totalCompare_swap] at hba hcb
    constructor
    · cases ho : a.totalCompare b <;> simp_all
    · cases ho : b.totalCompare c <;> simp_all
  have heq : a.totalCompare b = .eq → b.totalCompare c = .eq → a.totalCompare c = .eq :=
    totalCompare_eq_trans (h a (by simp) b (by simp) c (by simp))
  cases hoab : a.totalCompare b <;> cases hobc : b.totalCompare c <;>
    cases hoac : a.totalCompare c <;> simp_all

end SnapshotSql.Value
