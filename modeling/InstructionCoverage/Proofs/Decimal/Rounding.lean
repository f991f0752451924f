import InstructionCoverage.Decimal.Binary64
import Mathlib.Algebra.Order.Field.Power
import Mathlib.Algebra.Order.Field.Rat
import Mathlib.Tactic.FieldSimp
import Mathlib.Tactic.Linarith
import Mathlib.Tactic.NormNum
import Mathlib.Tactic.Positivity
import Mathlib.Tactic.Ring

namespace InstructionCoverage

section Whole

theorem roundDiv_half {n d : Nat} (hd : 0 < d) :
    |(roundDiv n d : ℚ) - n / d| ≤ 1 / 2 ∧ (|(roundDiv n d : ℚ) - n / d| = 1 / 2 → roundDiv n d % 2 = 0) := by
  have hdiv : n / d * d + n % d = n := Nat.div_add_mod' n d
  have hlt : n % d < d := Nat.mod_lt n hd
  rw [roundDiv]
  generalize n / d = q, n % d = r at hdiv hlt
  have hd' : (0 : ℚ) < d := by exact_mod_cast hd
  have hquot : (n : ℚ) / d = q + r / d := by
    rw [← hdiv]
    push_cast
    field_simp
  have hr : (0 : ℚ) ≤ r / d := by positivity
  rw [hquot]
  split_ifs with hless hmore
  · have hhalf : (r : ℚ) / d < 1 / 2 := by
      rw [div_lt_div_iff₀ hd' (by norm_num)]
      exact_mod_cast (by omega : r * 2 < 1 * d)
    rw [show (q : ℚ) - (q + r / d) = -(r / d) by ring, abs_neg, abs_of_nonneg hr]
    exact ⟨hhalf.le, fun h => absurd h hhalf.ne⟩
  · have hhalf : 1 / 2 < (r : ℚ) / d := by
      rw [div_lt_div_iff₀ (by norm_num) hd']
      exact_mod_cast (by omega : 1 * d < r * 2)
    have hone : (r : ℚ) / d < 1 := by
      rw [div_lt_one hd']
      exact_mod_cast hlt
    have habs : |((q + 1 : ℕ) : ℚ) - (q + r / d)| = 1 - r / d := by
      push_cast
      rw [abs_of_pos (by linarith)]
      ring
    rw [habs]
    exact ⟨by linarith, fun h => by linarith⟩
  · have htie : (r : ℚ) / d = 1 / 2 := by
      rw [div_eq_div_iff hd'.ne' (by norm_num)]
      exact_mod_cast (by omega : r * 2 = 1 * d)
    have hodd : ((q % 2 : ℕ) : ℚ) ≤ 1 := by exact_mod_cast Nat.lt_succ_iff.1 (Nat.mod_lt q (by decide))
    have heven : (0 : ℚ) ≤ ((q % 2 : ℕ) : ℚ) := by positivity
    rw [htie, abs_le]
    push_cast at *
    exact ⟨⟨by linarith, by linarith⟩, fun _ => by omega⟩

variable {m : Nat} {s : ℚ}

theorem near_of_half (h : |(m : ℚ) - s| ≤ 1 / 2) (j : Nat) :
    |(m : ℚ) - s| ≤ |(j : ℚ) - s| ∧ (|(m : ℚ) - s| = |(j : ℚ) - s| → j = m ∨ |(m : ℚ) - s| = 1 / 2) := by
  by_cases hj : j = m
  · subst hj
    exact ⟨le_rfl, fun _ => .inl rfl⟩
  · have hint : (1 : Int) ≤ |(j : Int) - m| := Int.one_le_abs (by omega)
    have hone : (1 : ℚ) ≤ |(j : ℚ) - m| := by exact_mod_cast hint
    have htriangle : |(j : ℚ) - m| ≤ |(j : ℚ) - s| + |(m : ℚ) - s| := by
      rw [abs_sub_comm (m : ℚ) s]
      exact abs_sub_le _ _ _
    exact ⟨by linarith, fun he => .inr (by linarith)⟩

end Whole

namespace Binary64

def value (x : Binary64) : ℚ :=
  x.significand * 2 ^ x.exponent

structure Canonical (x : Binary64) : Prop where
  significand_lt : x.significand < 2 * fullSignificand
  exponent_ge : -1074 ≤ x.exponent
  normal : x.significand < fullSignificand → x.exponent = -1074

/-- No double is nearer to `q`, and `x` is even if another one is equally near. -/
structure Rounds (q : ℚ) (x : Binary64) : Prop where
  canonical : x.Canonical
  nearest : ∀ y : Binary64, y.Canonical → |x.value - q| ≤ |y.value - q|
  even : ∀ y : Binary64, y.Canonical → |x.value - q| = |y.value - q| → y.value = x.value ∨ x.significand % 2 = 0

theorem scale_pos (e : Int) : (0 : ℚ) < 2 ^ e :=
  zpow_pos (by norm_num) e

theorem full_mul_scale (e : Int) : (fullSignificand : ℚ) * 2 ^ e = 2 ^ (e + 52) := by
  rw [zpow_add₀ (by norm_num), mul_comm]
  norm_num [fullSignificand]

section Grid

variable {q : ℚ} {e : Int} {m : Nat} {y : Binary64}

def onGrid (m : Nat) (e : Int) : Binary64 :=
  if m = 2 * fullSignificand then ⟨fullSignificand, e + 1⟩ else ⟨m, e⟩

theorem value_onGrid (m : Nat) (e : Int) : (onGrid m e).value = m * 2 ^ e := by
  rw [onGrid]
  split_ifs with h
  · rw [value, h, zpow_add_one₀ (by norm_num)]
    push_cast
    ring
  · rfl

theorem even_onGrid (h : m % 2 = 0) (e : Int) : (onGrid m e).significand % 2 = 0 := by
  rw [onGrid]
  split_ifs
  · exact (by decide : fullSignificand % 2 = 0)
  · exact h

theorem canonical_onGrid (he : -1074 ≤ e) (hm : m ≤ 2 * fullSignificand) (hfull : fullSignificand ≤ m ∨ e = -1074) :
    (onGrid m e).Canonical := by
  rw [onGrid]
  split_ifs with h
  · refine ⟨(by decide : fullSignificand < 2 * fullSignificand), ?_, fun h => absurd h (Nat.lt_irrefl _)⟩
    dsimp only
    omega
  · refine ⟨?_, he, fun hless => ?_⟩ <;> dsimp only at * <;> omega

theorem dist_scale (x q : ℚ) (e : Int) : |x * 2 ^ e - q| = |x - q / 2 ^ e| * 2 ^ e := by
  have hpos := scale_pos e
  have hsub : x * 2 ^ e - q = (x - q / 2 ^ e) * 2 ^ e := by field_simp
  rw [hsub, abs_mul, abs_of_pos hpos]

theorem value_of_exponent_ge (h : e ≤ y.exponent) :
    y.value = (y.significand * 2 ^ (y.exponent - e).toNat : ℕ) * 2 ^ e := by
  have hexp : y.exponent = ((y.exponent - e).toNat : Int) + e := by omega
  rw [value, Nat.cast_mul, Nat.cast_pow, Nat.cast_ofNat, mul_assoc]
  conv_lhs => rw [hexp, zpow_add₀ (by norm_num), zpow_natCast]

theorem far_of_exponent_lt (hy : y.Canonical) (h : y.exponent < e) (hfull : (fullSignificand : ℚ) ≤ q / 2 ^ e)
    (hhalf : |(m : ℚ) - q / 2 ^ e| ≤ 1 / 2) : |(m : ℚ) * 2 ^ e - q| < |y.value - q| := by
  have hpos := scale_pos e
  have hbelow : y.value < fullSignificand * 2 ^ e := by
    have hsignificand : (y.significand : ℚ) < 2 * fullSignificand := by exact_mod_cast hy.significand_lt
    have hstep : (2 : ℚ) ^ (y.exponent + 1) ≤ 2 ^ e := zpow_le_zpow_right₀ (by norm_num) (by omega)
    rw [zpow_add_one₀ (by norm_num)] at hstep
    calc y.value < 2 * fullSignificand * 2 ^ y.exponent := mul_lt_mul_of_pos_right hsignificand (scale_pos _)
      _ = fullSignificand * (2 ^ y.exponent * 2) := by ring
      _ ≤ fullSignificand * 2 ^ e := mul_le_mul_of_nonneg_left hstep (by positivity)
  have habove : (fullSignificand : ℚ) * 2 ^ e ≤ q := (le_div_iff₀ hpos).1 hfull
  calc |(m : ℚ) * 2 ^ e - q| ≤ |(fullSignificand : ℚ) * 2 ^ e - q| := by
        rw [dist_scale, dist_scale]
        exact mul_le_mul_of_nonneg_right (near_of_half hhalf fullSignificand).1 hpos.le
    _ = q - fullSignificand * 2 ^ e := by rw [abs_sub_comm, abs_of_nonneg (by linarith)]
    _ < q - y.value := by linarith
    _ = |y.value - q| := by rw [abs_sub_comm, abs_of_pos (by linarith)]

theorem rounds_onGrid (he : -1074 ≤ e) (hlt : q / 2 ^ e < 2 * fullSignificand)
    (hge : (fullSignificand : ℚ) ≤ q / 2 ^ e ∨ e = -1074) (hhalf : |(m : ℚ) - q / 2 ^ e| ≤ 1 / 2)
    (htie : |(m : ℚ) - q / 2 ^ e| = 1 / 2 → m % 2 = 0) : Rounds q (onGrid m e) := by
  have hpos := scale_pos e
  obtain ⟨hlower, hupper⟩ := abs_le.1 hhalf
  have hm : m ≤ 2 * fullSignificand := by
    have hless : (m : ℚ) < (2 * fullSignificand : ℕ) + 1 := by
      push_cast
      linarith
    exact Nat.lt_succ_iff.1 (by exact_mod_cast hless)
  have hmge : fullSignificand ≤ m ∨ e = -1074 := by
    apply hge.imp_left
    intro hge
    have hless : (fullSignificand : ℚ) < m + 1 := by linarith
    exact Nat.lt_succ_iff.1 (by exact_mod_cast hless)
  have hother (y : Binary64) (hy : y.Canonical) :
      (∃ j : Nat, y.value = j * 2 ^ e) ∨ |(m : ℚ) * 2 ^ e - q| < |y.value - q| := by
    by_cases h : e ≤ y.exponent
    · exact .inl ⟨_, value_of_exponent_ge h⟩
    · have := hy.exponent_ge
      exact .inr (far_of_exponent_lt hy (by omega) (hge.resolve_right (by omega)) hhalf)
  refine ⟨canonical_onGrid he hm hmge, ?_, ?_⟩
  · intro y hy
    rw [value_onGrid]
    obtain ⟨j, hj⟩ | hfar := hother y hy
    · rw [hj, dist_scale, dist_scale]
      exact mul_le_mul_of_nonneg_right (near_of_half hhalf j).1 hpos.le
    · exact hfar.le
  · intro y hy heq
    rw [value_onGrid] at heq ⊢
    obtain ⟨j, hj⟩ | hfar := hother y hy
    · rw [hj, dist_scale, dist_scale] at heq
      apply ((near_of_half hhalf j).2 (mul_right_cancel₀ hpos.ne' heq)).imp
      · rintro rfl
        exact hj
      · exact fun h => even_onGrid (htie h) e
    · exact absurd heq hfar.ne

end Grid

section Quotient

variable {n d : Nat}

theorem scaled_quotient (n d : Nat) (e : Int) :
    ((n * Nat.pow 2 (-e).toNat : ℕ) : ℚ) / (d * Nat.pow 2 e.toNat : ℕ) = n / d / 2 ^ e := by
  have hsplit : (2 : ℚ) ^ e = 2 ^ e.toNat / 2 ^ (-e).toNat := by
    rw [← zpow_natCast, ← zpow_natCast, ← zpow_sub₀ (by norm_num)]
    congr 1
    omega
  rw [hsplit]
  simp only [Nat.pow_eq]
  push_cast
  field_simp

theorem quotient_bounds (hn : n ≠ 0) (hd : d ≠ 0) :
    (2 : ℚ) ^ ((n.log2 : Int) - d.log2 - 1) < n / d ∧ (n : ℚ) / d < 2 ^ ((n.log2 : Int) - d.log2 + 1) := by
  have hd0 : (0 : ℚ) < d := by exact_mod_cast Nat.pos_of_ne_zero hd
  have hnlow : (2 : ℚ) ^ n.log2 ≤ n := by exact_mod_cast Nat.log2_self_le hn
  have hnhigh : (n : ℚ) < 2 ^ (n.log2 + 1) := by exact_mod_cast Nat.lt_log2_self
  have hdlow : (2 : ℚ) ^ d.log2 ≤ d := by exact_mod_cast Nat.log2_self_le hd
  have hdhigh : (d : ℚ) < 2 ^ (d.log2 + 1) := by exact_mod_cast Nat.lt_log2_self
  constructor
  · have hexp : (n.log2 : Int) - d.log2 - 1 = n.log2 - (d.log2 + 1 : ℕ) := by
      push_cast
      ring
    rw [lt_div_iff₀ hd0, hexp, zpow_sub₀ (by norm_num), zpow_natCast, zpow_natCast, div_mul_eq_mul_div,
      div_lt_iff₀ (by positivity)]
    calc (2 : ℚ) ^ n.log2 * d < 2 ^ n.log2 * 2 ^ (d.log2 + 1) := mul_lt_mul_of_pos_left hdhigh (by positivity)
      _ ≤ n * 2 ^ (d.log2 + 1) := mul_le_mul_of_nonneg_right hnlow (by positivity)
  · have hexp : (n.log2 : Int) - d.log2 + 1 = (n.log2 + 1 : ℕ) - d.log2 := by
      push_cast
      ring
    rw [div_lt_iff₀ hd0, hexp, zpow_sub₀ (by norm_num), zpow_natCast, zpow_natCast, div_mul_eq_mul_div,
      lt_div_iff₀ (by positivity)]
    calc (n : ℚ) * 2 ^ d.log2 < 2 ^ (n.log2 + 1) * 2 ^ d.log2 := mul_lt_mul_of_pos_right hnhigh (by positivity)
      _ ≤ 2 ^ (n.log2 + 1) * d := mul_le_mul_of_nonneg_left hdlow (by positivity)

theorem wide_iff {low : Int} (hd : d ≠ 0) :
    2 * fullSignificand * d * Nat.pow 2 low.toNat ≤ n * Nat.pow 2 (-low).toNat ↔
      (2 * fullSignificand : ℚ) * 2 ^ low ≤ n / d := by
  have hpos : (0 : ℚ) < (d * Nat.pow 2 low.toNat : ℕ) := by
    exact_mod_cast Nat.mul_pos (Nat.pos_of_ne_zero hd) (Nat.two_pow_pos _)
  rw [← le_div_iff₀ (scale_pos low), ← scaled_quotient, le_div_iff₀ hpos, Nat.mul_assoc]
  exact_mod_cast Iff.rfl

theorem ofQuotient_onGrid (hn : n ≠ 0) (hd : d ≠ 0) :
    ∃ e : Int, ofQuotient n d = onGrid (roundDiv (n * Nat.pow 2 (-e).toNat) (d * Nat.pow 2 e.toNat)) e ∧
      -1074 ≤ e ∧ (n : ℚ) / d / 2 ^ e < 2 * fullSignificand ∧ ((fullSignificand : ℚ) ≤ n / d / 2 ^ e ∨ e = -1074) := by
  obtain ⟨hlow, hhigh⟩ := quotient_bounds hn hd
  let low : Int := Int.ofNat n.log2 - Int.ofNat d.log2 - 53
  let wide := 2 * fullSignificand * d * Nat.pow 2 low.toNat ≤ n * Nat.pow 2 (-low).toNat
  let reach : Int := if wide then low + 1 else low
  have hreach : (fullSignificand : ℚ) * 2 ^ reach ≤ n / d ∧ (n : ℚ) / d < 2 * fullSignificand * 2 ^ reach := by
    have hlow' : (fullSignificand : ℚ) * 2 ^ low < n / d := by
      rw [full_mul_scale]
      convert hlow using 2
      simp only [low, Int.ofNat_eq_natCast]
      ring
    have hhigh' : (n : ℚ) / d < 4 * (fullSignificand * 2 ^ low) := by
      rw [full_mul_scale, show (4 : ℚ) = 2 ^ (2 : Int) by norm_num, ← zpow_add₀ (by norm_num)]
      convert hhigh using 2
      simp only [low, Int.ofNat_eq_natCast]
      ring
    by_cases hwide : wide
    · have hfull := (wide_iff hd).1 hwide
      simp only [reach, if_pos hwide, zpow_add_one₀ (by norm_num : (2 : ℚ) ≠ 0)]
      constructor <;> linarith
    · simp only [reach, if_neg hwide]
      exact ⟨hlow'.le, not_le.1 (mt (wide_iff hd).2 hwide)⟩
  refine ⟨max reach (-1074), ?_, le_max_right _ _, ?_, ?_⟩
  · rw [ofQuotient, if_neg (by simp [hn, hd])]
    rfl
  · have hgrow : (2 : ℚ) ^ reach ≤ 2 ^ max reach (-1074) := zpow_le_zpow_right₀ (by norm_num) (le_max_left _ _)
    rw [div_lt_iff₀ (scale_pos _)]
    exact lt_of_lt_of_le hreach.2 (mul_le_mul_of_nonneg_left hgrow (by positivity))
  · rcases le_total (-1074) reach with hle | hle
    · left
      rw [max_eq_left hle, le_div_iff₀ (scale_pos _)]
      exact hreach.1
    · exact .inr (max_eq_right hle)

theorem ofQuotient_rounds (n d : Nat) : Rounds (n / d) (ofQuotient n d) := by
  by_cases hzero : n = 0 ∨ d = 0
  · have hq : (n : ℚ) / d = 0 := by rcases hzero with rfl | rfl <;> simp
    have hvalue : zero.value = 0 := by simp [value, zero]
    rw [hq, ofQuotient, if_pos hzero]
    refine ⟨⟨by decide, by decide, by decide⟩, fun y _ => ?_, fun y _ _ => .inr rfl⟩
    rw [hvalue, sub_zero, abs_zero]
    exact abs_nonneg _
  · have hn : n ≠ 0 := fun h => hzero (.inl h)
    have hd : d ≠ 0 := fun h => hzero (.inr h)
    obtain ⟨e, heq, he, hlt, hge⟩ := ofQuotient_onGrid hn hd
    have hden : 0 < d * Nat.pow 2 e.toNat := Nat.mul_pos (Nat.pos_of_ne_zero hd) (Nat.two_pow_pos _)
    obtain ⟨hhalf, htie⟩ := roundDiv_half hden (n := n * Nat.pow 2 (-e).toNat)
    rw [scaled_quotient] at hhalf htie
    rw [heq]
    exact rounds_onGrid he hlt hge hhalf htie

end Quotient

section Order

variable {x y : Binary64}

theorem scaled_lt {k l m n : Nat} (hkl : k < l) (hm : m < 2 * fullSignificand) (hn : fullSignificand ≤ n) :
    k * fullSignificand + m < l * fullSignificand + n ∧ m * 2 ^ k < n * 2 ^ l := by
  have hstep : (k + 1) * fullSignificand ≤ l * fullSignificand := Nat.mul_le_mul_right _ hkl
  have hpow : 2 ^ (k + 1) ≤ 2 ^ l := Nat.pow_le_pow_right (by decide) hkl
  constructor
  · rw [Nat.add_mul] at hstep
    omega
  · calc m * 2 ^ k < 2 * fullSignificand * 2 ^ k := Nat.mul_lt_mul_of_pos_right hm (Nat.two_pow_pos k)
      _ = fullSignificand * 2 ^ (k + 1) := by
        rw [Nat.pow_succ]
        ring
      _ ≤ n * 2 ^ l := Nat.mul_le_mul hn hpow

def units (x : Binary64) : Nat :=
  x.significand * 2 ^ (x.exponent + 1074).toNat

theorem Canonical.value_eq (hx : x.Canonical) : x.value = x.units * 2 ^ (-1074 : Int) := by
  rw [value_of_exponent_ge hx.exponent_ge, Int.sub_neg, units]

theorem Canonical.bits_eq (hx : x.Canonical) :
    x.bits = (x.exponent + 1074).toNat * fullSignificand + x.significand := by
  rw [bits]
  split_ifs with h
  · rw [hx.normal h, Int.add_left_neg, Int.toNat_zero, Nat.zero_mul, Nat.zero_add]
  · have hexp : (x.exponent + 1075).toNat = (x.exponent + 1074).toNat + 1 := by
      have := hx.exponent_ge
      omega
    rw [hexp, Nat.add_mul]
    omega

theorem Canonical.full_le (hx : x.Canonical) (h : 0 < (x.exponent + 1074).toNat) : fullSignificand ≤ x.significand := by
  by_contra hless
  have := hx.normal (by omega)
  omega

theorem bits_lt_iff (hx : x.Canonical) (hy : y.Canonical) : x.bits < y.bits ↔ x.value < y.value := by
  have hvalue : x.value < y.value ↔ x.units < y.units := by
    rw [hx.value_eq, hy.value_eq, mul_lt_mul_iff_left₀ (scale_pos _), Nat.cast_lt]
  rw [hvalue, hx.bits_eq, hy.bits_eq, units, units]
  rcases Nat.lt_trichotomy (x.exponent + 1074).toNat (y.exponent + 1074).toNat with hlt | heq | hlt
  · obtain ⟨hbits, hunits⟩ := scaled_lt hlt hx.significand_lt (hy.full_le (by omega))
    exact iff_of_true hbits hunits
  · rw [heq, Nat.add_lt_add_iff_left, Nat.mul_lt_mul_right (Nat.two_pow_pos _)]
  · obtain ⟨hbits, hunits⟩ := scaled_lt hlt hy.significand_lt (hx.full_le (by omega))
    exact iff_of_false hbits.asymm hunits.asymm

end Order

end Binary64

end InstructionCoverage
