import SnapshotSql.Expr.Eval
import SnapshotSql.Proofs.Value.Order
/-! # Where the two comparisons part -/

namespace SnapshotSql

namespace Double

variable {x y : Double} {o : Ordering}

def negativeZero : Double := zero.neg

theorem totalRank_zero : zero.totalRank = 0 := by decide

theorem totalRank_negativeZero : negativeZero.totalRank = -1 := by decide

theorem rank_of_isNegative (h : x.isNegative = true) : x.rank = x.totalRank + 1 ∧ x.totalRank < 0 := by
  simp only [rank, totalRank, h, if_true]
  omega

theorem rank_of_not_isNegative (h : x.isNegative = false) : x.rank = x.totalRank ∧ 0 ≤ x.totalRank := by
  simp only [rank, totalRank, h, Bool.false_eq_true, if_false, true_and]
  exact Int.natCast_nonneg _

theorem compare_of_places {a b a' b' : Int} (hlt : a < b ↔ a' < b') (hgt : b < a ↔ b' < a') :
    Ord.compare a b = Ord.compare a' b' := by
  rcases lt_trichotomy a b with h | h | h
  · rw [compare_lt_iff_lt.mpr h, compare_lt_iff_lt.mpr (hlt.mp h)]
  · rw [compare_eq_iff_eq.mpr h, compare_eq_iff_eq.mpr (by omega)]
  · rw [compare_gt_iff_gt.mpr h, compare_gt_iff_gt.mpr (hgt.mp h)]

theorem totalCompare_of_compare (h : x.compare y = some o) :
    x.totalCompare y = o ∨ x = negativeZero ∧ y = zero ∨ x = zero ∧ y = negativeZero := by
  have ho : Ord.compare x.rank y.rank = o := by
    rw [compare] at h
    split at h
    · cases h
    · exact Option.some.inj h
  rw [← ho, totalCompare]
  cases hx : x.isNegative <;> cases hy : y.isNegative
  case true.true =>
    obtain ⟨hx, -⟩ := rank_of_isNegative hx
    obtain ⟨hy, -⟩ := rank_of_isNegative hy
    exact .inl (compare_of_places (by omega) (by omega))
  case false.false =>
    obtain ⟨hx, -⟩ := rank_of_not_isNegative hx
    obtain ⟨hy, -⟩ := rank_of_not_isNegative hy
    exact .inl (compare_of_places (by omega) (by omega))
  case true.false =>
    -- The places next to each other on both sides of the gap are those of the zeros.
    obtain ⟨hx, hxlt⟩ := rank_of_isNegative hx
    obtain ⟨hy, hyle⟩ := rank_of_not_isNegative hy
    by_cases hzeros : x.totalRank = -1 ∧ y.totalRank = 0
    · exact .inr (.inl ⟨totalRank_injective (hzeros.1.trans totalRank_negativeZero.symm),
        totalRank_injective (hzeros.2.trans totalRank_zero.symm)⟩)
    · exact .inl (compare_of_places (by omega) (by omega))
  case false.true =>
    obtain ⟨hx, hxle⟩ := rank_of_not_isNegative hx
    obtain ⟨hy, hylt⟩ := rank_of_isNegative hy
    by_cases hzeros : x.totalRank = 0 ∧ y.totalRank = -1
    · exact .inr (.inr ⟨totalRank_injective (hzeros.1.trans totalRank_zero.symm),
        totalRank_injective (hzeros.2.trans totalRank_negativeZero.symm)⟩)
    · exact .inl (compare_of_places (by omega) (by omega))

theorem ofInt_zeros {n : Int} : (ofInt n = zero → n = 0) ∧ ofInt n ≠ negativeZero := by
  have hone : 0 < (ofInt 1).totalRank := by decide +kernel
  have hzero : (ofInt 0).totalRank = 0 := by decide +kernel
  have hminus : (ofInt (-1)).totalRank < -1 := by decide +kernel
  have hzeros : (ofInt n).totalRank = 0 ∨ (ofInt n).totalRank = -1 → n = 0 := by
    intro h
    by_contra hn
    rcases lt_or_gt_of_ne hn with hneg | hpos
    · have := totalRank_ofInt_mono (show n ≤ -1 by omega)
      omega
    · have := totalRank_ofInt_mono (show 1 ≤ n by omega)
      omega
  refine ⟨fun h => hzeros (.inl (h ▸ totalRank_zero)), fun h => ?_⟩
  have hrank : (ofInt n).totalRank = -1 := h ▸ totalRank_negativeZero
  rw [hzeros (.inr hrank), hzero] at hrank
  cases hrank

end Double

namespace Value

variable {a b : Value} {o : Ordering}

/-- The first is the zero with a sign, and the second one without. -/
def ZeroBelow (a b : Value) : Prop :=
  a = float .negativeZero ∧ (b = integer 0 ∨ b = float .zero)

def ZerosApart (a b : Value) : Prop := ZeroBelow a b ∨ ZeroBelow b a

theorem ZeroBelow.compares (h : ZeroBelow a b) : a.compare? b = some .eq ∧ a.totalCompare b = .lt := by
  obtain ⟨rfl, rfl | rfl⟩ := h <;> decide +kernel

theorem ZeroBelow.compares_symm (h : ZeroBelow b a) : a.compare? b = some .eq ∧ a.totalCompare b = .gt := by
  obtain ⟨rfl, rfl | rfl⟩ := h <;> decide +kernel

/-- What compares in a condition compares in the same way in the total order, but for the two zeros. -/
theorem totalCompare_of_compare (h : a.compare? b = some o) (hzeros : ¬ZerosApart a b) :
    a.totalCompare b = o := by
  rw [ZerosApart, not_or] at hzeros
  cases a with
  | null => cases h
  | boolean x =>
    cases b with
    | boolean y => exact Option.some.inj h
    | null | integer | float | text => cases h
  | integer m =>
    cases b with
    | integer n => exact Option.some.inj h
    | float y =>
      obtain hsame | ⟨hm, -⟩ | ⟨hm, rfl⟩ := Double.totalCompare_of_compare h
      · exact hsame
      · exact absurd hm Double.ofInt_zeros.2
      · have hm : m = 0 := Int64.toInt_inj.mp (Double.ofInt_zeros.1 hm)
        exact absurd ⟨rfl, .inl (congrArg integer hm)⟩ hzeros.2
    | null | boolean | text => cases h
  | float x =>
    cases b with
    | integer n =>
      obtain hsame | ⟨rfl, hn⟩ | ⟨-, hn⟩ := Double.totalCompare_of_compare h
      · exact hsame
      · have hn : n = 0 := Int64.toInt_inj.mp (Double.ofInt_zeros.1 hn)
        exact absurd ⟨rfl, .inl (congrArg integer hn)⟩ hzeros.1
      · exact absurd hn Double.ofInt_zeros.2
    | float y =>
      obtain hsame | ⟨rfl, rfl⟩ | ⟨rfl, rfl⟩ := Double.totalCompare_of_compare h
      · exact hsame
      · exact absurd ⟨rfl, .inr rfl⟩ hzeros.1
      · exact absurd ⟨rfl, .inr rfl⟩ hzeros.2
    | null | boolean | text => cases h
  | text s =>
    cases b with
    | text s' => exact Option.some.inj h
    | null | boolean | integer | float => cases h

/-- Values that compare in a condition are equal in the total order if they are in the condition and are not
two zeros that it tells apart. -/
theorem totalCompare_eq_iff (h : a.compare? b = some o) :
    a.totalCompare b = .eq ↔ a.satisfies .eq b = true ∧ ¬ZerosApart a b := by
  have hsatisfies : a.satisfies .eq b = (o == .eq) := by
    rw [satisfies, h]
    rfl
  rw [hsatisfies, beq_iff_eq]
  constructor
  · intro heq
    have hzeros : ¬ZerosApart a b := by
      rintro (hbelow | hbelow)
      · cases hbelow.compares.2.symm.trans heq
      · cases hbelow.compares_symm.2.symm.trans heq
    exact ⟨(totalCompare_of_compare h hzeros).symm.trans heq, hzeros⟩
  · rintro ⟨rfl, hzeros⟩
    exact totalCompare_of_compare h hzeros

end Value

end SnapshotSql
