import SnapshotSql.Number.Basic
import Mathlib.Data.Nat.Log
import Mathlib.Tactic.Ring
import Mathlib.Tactic.Linarith
/-! # Rounding keeps order -/

namespace SnapshotSql.Double

theorem binade_eq : binade = 2 ^ 52 := rfl

/-! ## Division to even -/

theorem divideToEven_mul (k : Nat) {d : Nat} (hd : 0 < d) : divideToEven (k * d) d = k := by
  have hq : k * d / d = k := Nat.mul_div_cancel k hd
  have hr : k * d % d = 0 := Nat.mul_mod_left k d
  simp only [divideToEven, hq, hr]
  rw [if_neg (by omega)]

theorem divideToEven_mono {n m : Nat} (d : Nat) (h : n ≤ m) :
    divideToEven n d ≤ divideToEven m d := by
  have hquot : n / d ≤ m / d := Nat.div_le_div_right h
  have hn := Nat.div_add_mod n d
  have hm := Nat.div_add_mod m d
  simp only [divideToEven]
  rcases Nat.lt_or_eq_of_le hquot with hlt | heq
  · -- A quotient that is smaller by one can catch up, but not overtake.
    split <;> split <;> omega
  · have hrem : n % d ≤ m % d := by
      rw [heq] at hn
      omega
    rw [heq]
    split <;> split <;> omega

/-! ## Whole numbers -/

/-- The significand of the double nearest to a whole number whose logarithm is given. -/
def wholeSignificand (log n : Nat) : Nat := divideToEven (n * 2 ^ (52 - log)) (2 ^ (log - 52))

theorem roundScaled_whole {n : Nat} (h : n ≠ 0) :
    roundScaled n 1 1074 =
      min ((n.log2 + 1022) * binade + wholeSignificand n.log2 n) infinityMagnitude := by
  have hshift : ((n.log2 : Int) + 1074 - 52).toNat = n.log2 + 1022 := by omega
  have hleft : ((1074 : Int) - ((n.log2 + 1022 : Nat) : Int)).toNat = 52 - n.log2 := by omega
  have hright : (((n.log2 + 1022 : Nat) : Int) - (1074 : Int)).toNat = n.log2 - 52 := by omega
  simp only [roundScaled, if_neg h, Nat.div_one, hshift, hleft, hright, Nat.shiftLeft_eq, one_mul,
    wholeSignificand]

theorem wholeSignificand_mono (log : Nat) {n m : Nat} (h : n ≤ m) :
    wholeSignificand log n ≤ wholeSignificand log m :=
  divideToEven_mono _ (Nat.mul_le_mul_right _ h)

private theorem pow_mul_shift (log : Nat) :
    2 ^ log * 2 ^ (52 - log) = binade * 2 ^ (log - 52) := by
  rw [binade_eq, ← pow_add, ← pow_add]
  congr 1
  omega

theorem binade_le_wholeSignificand {n : Nat} (h : n ≠ 0) :
    binade ≤ wholeSignificand n.log2 n := by
  have hlow : 2 ^ n.log2 ≤ n := Nat.log2_self_le h
  calc binade = wholeSignificand n.log2 (2 ^ n.log2) := by
        rw [wholeSignificand, pow_mul_shift, divideToEven_mul _ (Nat.two_pow_pos _)]
    _ ≤ wholeSignificand n.log2 n := wholeSignificand_mono _ hlow

theorem wholeSignificand_le_binade (n : Nat) : wholeSignificand n.log2 n ≤ 2 * binade := by
  have hhigh : n ≤ 2 * 2 ^ n.log2 := by
    have := Nat.lt_log2_self (n := n)
    rw [pow_succ] at this
    omega
  calc wholeSignificand n.log2 n ≤ wholeSignificand n.log2 (2 * 2 ^ n.log2) :=
        wholeSignificand_mono _ hhigh
    _ = 2 * binade := by
        rw [wholeSignificand, mul_assoc, pow_mul_shift, ← mul_assoc,
          divideToEven_mul _ (Nat.two_pow_pos _)]

theorem roundScaled_mono {n m : Nat} (h : n ≤ m) :
    roundScaled n 1 1074 ≤ roundScaled m 1 1074 := by
  rcases Nat.eq_zero_or_pos n with rfl | hpos
  · have hzero : roundScaled 0 1 1074 = 0 := if_pos rfl
    rw [hzero]
    exact Nat.zero_le _
  have hn : n ≠ 0 := by omega
  have hm : m ≠ 0 := by omega
  have hlog : n.log2 ≤ m.log2 := by
    rw [Nat.log2_eq_log_two, Nat.log2_eq_log_two]
    exact Nat.log_mono_right h
  rw [roundScaled_whole hn, roundScaled_whole hm]
  refine min_le_min_right _ ?_
  rcases Nat.lt_or_eq_of_le hlog with hlt | heq
  · calc (n.log2 + 1022) * binade + wholeSignificand n.log2 n
        ≤ (n.log2 + 1022) * binade + 2 * binade :=
          Nat.add_le_add_left (wholeSignificand_le_binade n) _
      _ = (n.log2 + 1 + 1022) * binade + binade := by ring
      _ ≤ (m.log2 + 1022) * binade + binade :=
          Nat.add_le_add_right (Nat.mul_le_mul_right _ (by omega)) _
      _ ≤ (m.log2 + 1022) * binade + wholeSignificand m.log2 m :=
          Nat.add_le_add_left (binade_le_wholeSignificand hm) _
  · rw [heq]
    exact Nat.add_le_add_left (wholeSignificand_mono _ h) _

theorem wholeSignificand_exact {log : Nat} (h : log ≤ 52) (n : Nat) :
    wholeSignificand log n = n * 2 ^ (52 - log) := by
  have hdivisor : 2 ^ (log - 52) = 1 := by simp [Nat.sub_eq_zero_of_le h]
  rw [wholeSignificand, hdivisor]
  simpa using divideToEven_mul (n * 2 ^ (52 - log)) Nat.one_pos

theorem roundScaled_lt {n m : Nat} (h : n < m) (hm : m ≤ 2 ^ 53) :
    roundScaled n 1 1074 < roundScaled m 1 1074 := by
  have hm0 : m ≠ 0 := by omega
  have hfinite : (53 + 1022) * binade + 2 * binade < infinityMagnitude := by decide
  have hlogm : m.log2 ≤ 53 := by
    have := (Nat.log2_lt hm0 (k := 54)).mpr (by omega)
    omega
  have hupper : (m.log2 + 1022) * binade ≤ (53 + 1022) * binade :=
    Nat.mul_le_mul_right _ (by omega)
  have hmhigh := wholeSignificand_le_binade m
  have hmlow := binade_le_wholeSignificand hm0
  have hpos : 0 < binade := by decide
  rw [roundScaled_whole hm0, min_eq_left (by omega)]
  rcases Nat.eq_zero_or_pos n with rfl | hn
  · simp only [roundScaled, if_true]
    omega
  have hn0 : n ≠ 0 := by omega
  have hlogn : n.log2 ≤ 52 := by
    have := (Nat.log2_lt hn0 (k := 53)).mpr (by omega)
    omega
  have hlog : n.log2 ≤ m.log2 := by
    rw [Nat.log2_eq_log_two, Nat.log2_eq_log_two]
    exact Nat.log_mono_right h.le
  refine lt_of_le_of_lt (roundScaled_whole hn0 ▸ min_le_left _ _) ?_
  rcases Nat.lt_or_eq_of_le hlog with hlt | heq
  · -- Below the next power of two the significand is exact, so it stays inside the binade.
    have hnhigh : wholeSignificand n.log2 n < 2 * binade := by
      rw [wholeSignificand_exact hlogn]
      calc n * 2 ^ (52 - n.log2) < 2 ^ (n.log2 + 1) * 2 ^ (52 - n.log2) :=
            Nat.mul_lt_mul_of_pos_right Nat.lt_log2_self (Nat.two_pow_pos _)
        _ = 2 * binade := by
            rw [binade_eq, ← pow_add, ← pow_succ']
            congr 1
            omega
    have hnext : (n.log2 + 1022) * binade + binade ≤ (m.log2 + 1022) * binade := by
      rw [← Nat.succ_mul]
      exact Nat.mul_le_mul_right _ (by omega)
    omega
  · rw [← heq, wholeSignificand_exact hlogn, wholeSignificand_exact hlogn]
    have := Nat.mul_lt_mul_of_pos_right h (Nat.two_pow_pos (52 - n.log2))
    omega

theorem roundScaled_lt_signWeight (n d : Nat) (e : Int) : roundScaled n d e < signWeight := by
  have hinf : infinityMagnitude < signWeight := by decide
  simp only [roundScaled]
  split <;> omega

/-! ## Places in the total order -/

theorem toNat_ofMagnitude (negative : Bool) {m : Nat} (h : m < signWeight) :
    (ofMagnitude negative m).bits.toNat = m + if negative then signWeight else 0 := by
  simp only [signWeight] at h
  simp only [ofMagnitude, UInt64.toNat_ofNat', signWeight]
  split <;> omega

theorem totalRank_ofMagnitude (negative : Bool) {m : Nat} (h : m < signWeight) :
    (ofMagnitude negative m).totalRank = if negative then -(m : Int) - 1 else m := by
  have hbits := toNat_ofMagnitude negative h
  simp only [totalRank, isNegative, magnitude, hbits]
  cases negative
  · simp [Nat.mod_eq_of_lt h, h]
  · simp [Nat.mod_eq_of_lt h]

theorem toNat_bits (x : Double) :
    (x.bits.toNat : Int) =
      if x.totalRank < 0 then (signWeight : Int) - 1 - x.totalRank else x.totalRank := by
  have hlt := x.bits.toNat_lt
  by_cases hneg : signWeight ≤ x.bits.toNat
  · have hrank : x.totalRank = -((x.bits.toNat % signWeight : Nat) : Int) - 1 := by
      simp [totalRank, isNegative, magnitude, hneg]
    rw [hrank, if_pos (by omega)]
    simp only [signWeight] at hneg ⊢
    omega
  · have hrank : x.totalRank = ((x.bits.toNat % signWeight : Nat) : Int) := by
      simp [totalRank, isNegative, magnitude, hneg]
    rw [hrank, if_neg (by omega), Nat.mod_eq_of_lt (by omega)]

theorem totalRank_injective : Function.Injective totalRank := by
  intro x y h
  have hbits : (x.bits.toNat : Int) = y.bits.toNat := by rw [toNat_bits, toNat_bits, h]
  cases x
  cases y
  simpa [UInt64.toNat_inj] using hbits

theorem totalRank_ofInt (a : Int) :
    (ofInt a).totalRank =
      if a < 0 then -(roundScaled a.natAbs 1 1074 : Int) - 1 else roundScaled a.natAbs 1 1074 := by
  rw [ofInt, ofScaled, totalRank_ofMagnitude _ (roundScaled_lt_signWeight _ _ _)]
  simp only [decide_eq_true_eq]

theorem totalRank_ofInt_mono {a b : Int} (h : a ≤ b) :
    (ofInt a).totalRank ≤ (ofInt b).totalRank := by
  rw [totalRank_ofInt, totalRank_ofInt]
  rcases lt_or_ge a 0 with ha | ha
  · rcases lt_or_ge b 0 with hb | hb
    · -- Below zero the order of the magnitudes is the other way round.
      have hmag := roundScaled_mono (show b.natAbs ≤ a.natAbs by omega)
      rw [if_pos ha, if_pos hb]
      omega
    · rw [if_pos ha, if_neg (by omega)]
      omega
  · have hmag := roundScaled_mono (show a.natAbs ≤ b.natAbs by omega)
    rw [if_neg (by omega), if_neg (by omega)]
    omega

theorem totalRank_ofInt_lt {a b : Int} (h : a < b) (ha : a.natAbs ≤ 2 ^ 53)
    (hb : b.natAbs ≤ 2 ^ 53) : (ofInt a).totalRank < (ofInt b).totalRank := by
  rw [totalRank_ofInt, totalRank_ofInt]
  rcases lt_or_ge a 0 with ha' | ha'
  · rcases lt_or_ge b 0 with hb' | hb'
    · have hmag := roundScaled_lt (show b.natAbs < a.natAbs by omega) ha
      rw [if_pos ha', if_pos hb']
      omega
    · rw [if_pos ha', if_neg (by omega)]
      omega
  · have hmag := roundScaled_lt (show a.natAbs < b.natAbs by omega) hb
    rw [if_neg (by omega), if_neg (by omega)]
    omega

end SnapshotSql.Double
