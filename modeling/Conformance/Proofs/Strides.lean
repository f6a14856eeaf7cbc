import Mathlib
import Conformance.Sampling

/-!
# Strides of a sample

The positions of a sample are products of doubles: the stride is rounded, and so is each multiple of it.  Rounding
moves a quotient that is not below one by at most one part in `2 ^ 53`, and keeps it there (`Double.round_bounds`).
So up to a limit of `Sampling.preciseLimit` no position of a sample lies outside the collection, however large the
collection is (`Sampling.position_lt`).  In a collection of less than `Sampling.preciseSize` elements every position is
within one of the exact multiple of the stride (`Sampling.position_bounds`).
-/

namespace Conformance

namespace Double

variable {den : Nat}

/-- The number that a mantissa and an exponent stand for. -/
def valueOf (m : Nat) (e : Int) : ℚ := m * 2 ^ e

/-- The part of a number by which rounding moves it, at most. -/
def precision : ℚ := 1 / 2 ^ 53

theorem precision_pos : 0 < precision := by
  unfold precision
  positivity

/-! ## Powers and quotients -/

theorem cast_twoTo {e : Int} (he : 0 ≤ e) : (twoTo e : ℚ) = 2 ^ e := by
  lift e to ℕ using he
  simp [twoTo]

theorem twoTo_pos (e : Int) : 0 < twoTo e := Nat.pow_pos (by decide)

/-- Above the line or below it, a power of two scales by the same factor. -/
theorem twoTo_div_twoTo_neg (e : Int) : (twoTo e : ℚ) / twoTo (-e) = 2 ^ e := by
  rcases le_total 0 e with he | he
  · have hone : twoTo (-e) = 1 := by
      unfold twoTo
      rw [show (-e).toNat = 0 by omega, Nat.pow_eq, Nat.pow_zero]
    rw [cast_twoTo he, hone, Nat.cast_one, div_one]
  · have hone : twoTo e = 1 := by
      unfold twoTo
      rw [show e.toNat = 0 by omega, Nat.pow_eq, Nat.pow_zero]
    rw [cast_twoTo (show 0 ≤ -e by omega), hone, Nat.cast_one, zpow_neg, one_div, inv_inv]

theorem scaled_ratio (num : Nat) (hden : 0 < den) (e : Int) : 0 < (scaled num den e).2
      ∧ ((scaled num den e).1 : ℚ) / (scaled num den e).2 = (num : ℚ) / den / 2 ^ e := by
  unfold scaled
  split
  · rename_i he
    refine ⟨Nat.mul_pos hden (twoTo_pos e), ?_⟩
    rw [Nat.cast_mul, cast_twoTo he, div_div]
  · rename_i he
    refine ⟨hden, ?_⟩
    rw [Nat.cast_mul, cast_twoTo (show 0 ≤ -e by omega), zpow_neg]
    ring

/-- The nearest natural number is within half a unit of a quotient, and not below its integer part. -/
theorem divideEven_bounds (num : Nat) (hden : 0 < den) :
    num / den ≤ divideEven num den ∧ 2 * num ≤ 2 * (divideEven num den * den) + den
      ∧ 2 * (divideEven num den * den) ≤ 2 * num + den := by
  have hdiv : den * (num / den) + num % den = num := Nat.div_add_mod num den
  have hmod : num % den < den := Nat.mod_lt num hden
  have hdown : 2 * (num % den) ≤ den →
      2 * num ≤ 2 * (num / den * den) + den ∧ 2 * (num / den * den) ≤ 2 * num + den := by
    intro h
    rw [Nat.mul_comm (num / den) den]
    omega
  have hup : den ≤ 2 * (num % den) →
      2 * num ≤ 2 * ((num / den + 1) * den) + den ∧ 2 * ((num / den + 1) * den) ≤ 2 * num + den := by
    intro h
    rw [Nat.add_mul, Nat.mul_comm (num / den) den]
    omega
  unfold divideEven
  dsimp only
  split
  · exact ⟨le_rfl, hdown (by omega)⟩
  · split
    · exact ⟨Nat.le_succ _, hup (by omega)⟩
    · split
      · exact ⟨le_rfl, hdown (by omega)⟩
      · exact ⟨Nat.le_succ _, hup (by omega)⟩

/-! ## Rounding -/

/-- At its exponent, a quotient that is not below one has a mantissa of all 53 bits. -/
theorem exponentOf_bounds {num : Nat} (hden : 0 < den) (h : den ≤ num) :
    (2 ^ 52 : ℚ) ≤ (num : ℚ) / den / 2 ^ exponentOf num den ∧ -52 ≤ exponentOf num den := by
  have hq : (1 : ℚ) ≤ (num : ℚ) / den := by
    rw [one_le_div (by exact_mod_cast hden)]
    exact_mod_cast h
  have hlog : den.log2 ≤ num.log2 := by
    rw [Nat.log2_eq_log_two, Nat.log2_eq_log_two]
    exact Nat.log_mono_right h
  -- The leading bits alone say where the quotient lies, up to a factor of two.
  have hleast : (2 : ℚ) ^ ((num.log2 : Int) - den.log2 - 1) ≤ (num : ℚ) / den := by
    have hnum : (2 : ℚ) ^ num.log2 ≤ num := by exact_mod_cast Nat.log2_self_le (by omega : num ≠ 0)
    have hden' : (den : ℚ) ≤ 2 ^ (den.log2 + 1) := by exact_mod_cast (Nat.lt_log2_self (n := den)).le
    have hpow : (2 : ℚ) ^ ((num.log2 : Int) - den.log2 - 1) = 2 ^ num.log2 / 2 ^ (den.log2 + 1) := by
      rw [← zpow_natCast, ← zpow_natCast, ← zpow_sub₀ (by norm_num : (2 : ℚ) ≠ 0)]
      congr 1
      push_cast
      ring
    rw [hpow]
    exact div_le_div₀ (by positivity) hnum (by exact_mod_cast hden) hden'
  obtain ⟨hd, hratio⟩ := scaled_ratio num hden ((num.log2 : Int) - den.log2 - 52)
  unfold exponentOf
  dsimp only
  generalize hguess : (num.log2 : Int) - den.log2 - 52 = guess at hd hratio ⊢
  have hscaled : (scaled num den guess).1 < (scaled num den guess).2 * twoTo 52
      ↔ (num : ℚ) / den / 2 ^ guess < 2 ^ 52 := by
    rw [← hratio, div_lt_iff₀ (by exact_mod_cast hd), mul_comm, ← Nat.cast_lt (α := ℚ), Nat.cast_mul,
      cast_twoTo (by decide)]
    norm_cast
  split
  · rename_i hsmall
    rw [hscaled, div_lt_iff₀ (by positivity), ← zpow_natCast, ← zpow_add₀ (by norm_num : (2 : ℚ) ≠ 0)] at hsmall
    have hpos : (2 : ℚ) ^ (0 : Int) < 2 ^ (((52 : Nat) : Int) + guess) := by
      rw [zpow_zero]
      exact lt_of_le_of_lt hq hsmall
    have hguess' : 0 < ((52 : Nat) : Int) + guess := (zpow_lt_zpow_iff_right₀ (by norm_num)).1 hpos
    have hmax : max (guess - 1) minExponent = guess - 1 := max_eq_left (by unfold minExponent; omega)
    rw [hmax]
    refine ⟨?_, by omega⟩
    rw [le_div_iff₀ (by positivity), ← zpow_natCast, ← zpow_add₀ (by norm_num : (2 : ℚ) ≠ 0)]
    rw [show ((52 : Nat) : Int) + (guess - 1) = (num.log2 : Int) - den.log2 - 1 by omega]
    exact hleast
  · rename_i hlarge
    rw [hscaled, not_lt] at hlarge
    have hmax : max guess minExponent = guess := max_eq_left (by unfold minExponent; omega)
    rw [hmax]
    exact ⟨hlarge, by omega⟩

/-- The mantissa that a quotient is rounded to at its exponent. -/
def roundedMantissa (num den : Nat) : Nat :=
  divideEven (scaled num den (exponentOf num den)).1 (scaled num den (exponentOf num den)).2

/-- A mantissa that has become too long stands for the same number at the next exponent. -/
theorem round_cases {num : Nat} (h : num ≠ 0) (den : Nat) (negative : Bool) :
    round negative num den = .infinite negative ∧ maxExponent ≤ exponentOf num den ∨
      ∃ m e, round negative num den = .finite negative m e
        ∧ valueOf m e = valueOf (roundedMantissa num den) (exponentOf num den) := by
  unfold round roundedMantissa
  rw [if_neg h]
  extract_lets e
  rcases scaled num den e with ⟨n, d⟩
  dsimp -zeta only
  extract_lets m
  by_cases hm : m = twoTo 53
  · rw [if_pos hm]
    dsimp -zeta only
    have hcarry : valueOf (twoTo 52) (e + 1) = valueOf m e := by
      rw [hm]
      unfold valueOf
      rw [zpow_add₀ (by norm_num : (2 : ℚ) ≠ 0), cast_twoTo (by decide), cast_twoTo (by decide)]
      ring
    split
    · exact .inl ⟨rfl, by omega⟩
    · exact .inr ⟨_, _, rfl, hcarry⟩
  · rw [if_neg hm]
    dsimp -zeta only
    split
    · exact .inl ⟨rfl, by omega⟩
    · exact .inr ⟨_, _, rfl, rfl⟩

/-- The second number is within one part in `2 ^ 53` of the first. -/
def Near (q x : ℚ) : Prop := q * (1 - precision) ≤ x ∧ x ≤ q * (1 + precision)

/-- Rounding keeps a quotient that is not below one there, and moves it by at most one part in `2 ^ 53`, unless it is
beyond all doubles. -/
theorem round_bounds {num : Nat} (hden : 0 < den) (h : den ≤ num) (negative : Bool) :
    round negative num den = .infinite negative ∧ (2 : ℚ) ^ 200 ≤ (num : ℚ) / den ∨
      ∃ m e, round negative num den = .finite negative m e ∧ 1 ≤ valueOf m e ∧ Near ((num : ℚ) / den) (valueOf m e) := by
  obtain ⟨hbits, hexp⟩ := exponentOf_bounds hden h
  obtain ⟨hround, hlarge⟩ | ⟨m, e, hround, hvalue⟩ := round_cases (show num ≠ 0 by omega) den negative
  · refine .inl ⟨hround, ?_⟩
    rw [le_div_iff₀ (by positivity)] at hbits
    have hpow : (2 : ℚ) ^ (148 : Int) ≤ 2 ^ exponentOf num den :=
      zpow_le_zpow_right₀ (by norm_num) (le_trans (by decide) hlarge)
    calc (2 : ℚ) ^ 200 = 2 ^ 52 * 2 ^ (148 : Int) := by norm_num
      _ ≤ 2 ^ 52 * 2 ^ exponentOf num den := by gcongr
      _ ≤ (num : ℚ) / den := hbits
  refine .inr ⟨m, e, hround, ?_⟩
  rw [hvalue]
  obtain ⟨hd, hratio⟩ := scaled_ratio num hden (exponentOf num den)
  obtain ⟨hfloor, hbelow, habove⟩ := divideEven_bounds (scaled num den (exponentOf num den)).1 hd
  rw [← hratio] at hbits
  have hquotient : (num : ℚ) / den
      = ((scaled num den (exponentOf num den)).1 : ℚ) / (scaled num den (exponentOf num den)).2
        * 2 ^ exponentOf num den := by
    rw [hratio]
    field_simp
  change _ ≤ roundedMantissa num den at hfloor
  change _ ≤ 2 * (roundedMantissa num den * _) + _ at hbelow
  change 2 * (roundedMantissa num den * _) ≤ _ at habove
  generalize roundedMantissa num den = k at *
  generalize (scaled num den (exponentOf num den)).1 = n at *
  generalize (scaled num den (exponentOf num den)).2 = d at *
  generalize exponentOf num den = e at *
  have hd' : (0 : ℚ) < d := by exact_mod_cast hd
  have hunit : (1 : ℚ) / 2 ≤ n / d * precision :=
    calc (1 : ℚ) / 2 = 2 ^ 52 * precision := by norm_num [precision]
      _ ≤ n / d * precision := mul_le_mul_of_nonneg_right hbits precision_pos.le
  refine ⟨?_, ?_, ?_⟩
  · have hk : 2 ^ 52 ≤ k := by
      refine le_trans ((Nat.le_div_iff_mul_le hd).2 ?_) hfloor
      rw [le_div_iff₀ hd'] at hbits
      exact_mod_cast hbits
    have hpow : (2 : ℚ) ^ (-52 : Int) ≤ 2 ^ e := zpow_le_zpow_right₀ (by norm_num) hexp
    calc (1 : ℚ) = 2 ^ 52 * 2 ^ (-52 : Int) := by norm_num
      _ ≤ (k : ℚ) * 2 ^ e := mul_le_mul (by exact_mod_cast hk) hpow (by positivity) (by positivity)
  · have hk : (n : ℚ) / d - 1 / 2 ≤ k := by
      have : (2 : ℚ) * n ≤ 2 * (k * d) + d := by exact_mod_cast hbelow
      rw [div_sub' hd'.ne', div_le_iff₀ hd']
      linarith
    calc (num : ℚ) / den * (1 - precision) = (n / d - n / d * precision) * 2 ^ e := by rw [hquotient]; ring
      _ ≤ valueOf k e := mul_le_mul_of_nonneg_right (by linarith) (by positivity)
  · have hk : (k : ℚ) ≤ n / d + 1 / 2 := by
      have : (2 : ℚ) * (k * d) ≤ 2 * n + d := by exact_mod_cast habove
      rw [div_add' _ _ _ hd'.ne', le_div_iff₀ hd']
      linarith
    calc valueOf k e ≤ (n / d + n / d * precision) * 2 ^ e :=
          mul_le_mul_of_nonneg_right (by linarith) (by positivity)
      _ = (num : ℚ) / den * (1 + precision) := by rw [hquotient]; ring

/-- What is cut off from a number is what is behind the point. -/
theorem truncate_eq_floor (m : Nat) (e : Int) :
    ((finite false m e).truncate?.getD 0).toNat = ⌊valueOf m e⌋₊ := by
  have hvalue : valueOf m e = (m * twoTo e : Nat) / (twoTo (-e) : Nat) := by
    unfold valueOf
    rw [← twoTo_div_twoTo_neg e, Nat.cast_mul]
    ring
  rw [hvalue, Nat.floor_div_eq_div]
  rfl

theorem truncate?_mul_infinite (x : Double) (negative : Bool) : (x.mul (infinite negative)).truncate? = none := by
  cases x with
  | nan | infinite => rfl
  | finite s m e =>
    change (if m = 0 then nan else infinite (s != negative)).truncate? = none
    split <;> rfl

theorem truncate?_infinite_mul (negative : Bool) (x : Double) : ((infinite negative).mul x).truncate? = none := by
  cases x with
  | nan | infinite => rfl
  | finite s m e =>
    change (if m = 0 then nan else infinite (negative != s)).truncate? = none
    split <;> rfl

end Double

namespace Sampling

open Double

variable {size limit : Nat}

/-- Up to this limit, rounding does not carry a position out of the collection. -/
def preciseLimit : Nat := 2 ^ 51

/-- Three roundings move the last position by less than the stride. -/
theorem rounded_last_lt {i : Nat} (hsize : 0 < size) (hi : i < limit) (hlimit : limit ≤ preciseLimit) :
    (i : ℚ) * (1 + precision) * ((size : ℚ) / limit * (1 + precision)) * (1 + precision) < (size : ℚ) := by
  have hlimit' : (limit : ℚ) ≤ 2 ^ 51 := by
    have hcast : (limit : ℚ) ≤ (preciseLimit : ℚ) := by exact_mod_cast hlimit
    rwa [preciseLimit, Nat.cast_pow, Nat.cast_ofNat] at hcast
  have hpos : (0 : ℚ) < limit := by exact_mod_cast (show 0 < limit by omega)
  have hi' : (i : ℚ) ≤ limit - 1 := by
    have : (i : ℚ) + 1 ≤ limit := by exact_mod_cast hi
    linarith
  have hsize' : (0 : ℚ) < size := by exact_mod_cast hsize
  have hfactor : (i : ℚ) / limit ≤ 1 - 1 / 2 ^ 51 := by
    rw [div_le_iff₀ hpos]
    have : (1 : ℚ) / 2 ^ 51 * limit ≤ 1 := by
      rw [div_mul_eq_mul_div, one_mul, div_le_one (by positivity)]
      exact hlimit'
    linarith
  calc (i : ℚ) * (1 + precision) * ((size : ℚ) / limit * (1 + precision)) * (1 + precision)
      = size * ((i : ℚ) / limit) * (1 + precision) ^ 3 := by ring
    _ ≤ size * (1 - 1 / 2 ^ 51) * (1 + precision) ^ 3 := by
      have := precision_pos
      gcongr
    _ < size := by
      rw [mul_assoc]
      exact mul_lt_of_lt_one_right hsize' (by norm_num [precision])

/-- A position is the integer part of a product, up to three roundings.  A stride or a product beyond all doubles makes
it the first position. -/
theorem position_cases {i : Nat} (hpos : 0 < i) (hi : i < limit) (hsize : limit ≤ size) :
    position size limit i = 0 ∧ 2 ^ 100 ≤ size ∨
      ∃ x : ℚ, position size limit i = ⌊x⌋₊ ∧
        (i : ℚ) * (1 - precision) * ((size : ℚ) / limit * (1 - precision)) * (1 - precision) ≤ x ∧
        x ≤ (i : ℚ) * (1 + precision) * ((size : ℚ) / limit * (1 + precision)) * (1 + precision) := by
  have hlimit : 0 < limit := by omega
  have hsmall : precision ≤ 1 := by norm_num [precision]
  have hprecision := precision_pos
  have hstep : (size : ℚ) / limit ≤ size := div_le_self (by positivity) (by exact_mod_cast hlimit)
  have hi' : (i : ℚ) ≤ size := by exact_mod_cast (show i ≤ size by omega)
  have hhuge {q : ℚ} (hq : (2 : ℚ) ^ 200 ≤ q) (hle : q ≤ 4 * size) : 2 ^ 100 ≤ size := by
    have hpow : (4 : ℚ) * 2 ^ 100 ≤ 2 ^ 200 := by norm_num
    have hsize' : (2 : ℚ) ^ 100 ≤ size := by linarith
    exact_mod_cast hsize'
  unfold position
  dsimp only
  obtain ⟨hstride, hlarge⟩ | ⟨n, f, hstride, hn, hstrideNear⟩ := round_bounds hlimit hsize false
  · rw [hstride, truncate?_mul_infinite]
    exact .inl ⟨rfl, hhuge hlarge (hstep.trans (by linarith))⟩
  rw [hstride]
  have hof : ofInt (i : Int) = Double.round false i 1 := by
    rw [ofInt, Int.natAbs_natCast, decide_eq_false (by omega)]
  rw [hof]
  obtain ⟨hfirst, hlarge⟩ | ⟨m, e, hfirst, hm, hfirstNear⟩ := round_bounds Nat.one_pos hpos false
  · rw [hfirst, truncate?_infinite_mul]
    rw [Nat.cast_one, div_one] at hlarge
    exact .inl ⟨rfl, hhuge hlarge (hi'.trans (by linarith))⟩
  rw [hfirst]
  rw [Nat.cast_one, div_one] at hfirstNear
  -- The product is rounded once more.
  have hratio : ((m * n * twoTo (e + f) : Nat) : ℚ) / (twoTo (-(e + f)) : Nat) = valueOf m e * valueOf n f := by
    rw [Nat.cast_mul, mul_div_assoc, twoTo_div_twoTo_neg, zpow_add₀ (by norm_num : (2 : ℚ) ≠ 0)]
    unfold valueOf
    push_cast
    ring
  have hproduct : twoTo (-(e + f)) ≤ m * n * twoTo (e + f) := by
    have hone : (1 : ℚ) ≤ valueOf m e * valueOf n f := one_le_mul_of_one_le_of_one_le hm hn
    rw [← hratio, one_le_div (by exact_mod_cast twoTo_pos _)] at hone
    exact_mod_cast hone
  change (((Double.round false (m * n * twoTo (e + f)) (twoTo (-(e + f)))).truncate?).getD 0).toNat = 0 ∧ _ ∨
    ∃ x : ℚ, (((Double.round false (m * n * twoTo (e + f)) (twoTo (-(e + f)))).truncate?).getD 0).toNat = ⌊x⌋₊ ∧ _
  have hupper : valueOf m e * valueOf n f ≤ i * (1 + precision) * ((size : ℚ) / limit * (1 + precision)) :=
    mul_le_mul hfirstNear.2 hstrideNear.2 (by linarith) (by positivity)
  obtain ⟨hlast, hlarge⟩ | ⟨k, g, hlast, -, hlastNear⟩ := round_bounds (twoTo_pos _) hproduct false
  · rw [hratio] at hlarge
    refine .inl ⟨by rw [hlast]; rfl, hhuge hlarge (hupper.trans ?_)⟩
    have hratio' : (i : ℚ) / limit ≤ 1 := by
      rw [div_le_one (by exact_mod_cast hlimit)]
      exact_mod_cast hi.le
    calc (i : ℚ) * (1 + precision) * ((size : ℚ) / limit * (1 + precision))
        = size * ((i : ℚ) / limit) * (1 + precision) ^ 2 := by ring
      _ ≤ size * 1 * (1 + 1) ^ 2 := by gcongr
      _ = 4 * size := by ring
  · rw [hratio] at hlastNear
    have hlower : (i : ℚ) * (1 - precision) * ((size : ℚ) / limit * (1 - precision)) ≤ valueOf m e * valueOf n f :=
      mul_le_mul hfirstNear.1 hstrideNear.1 (mul_nonneg (by positivity) (by linarith)) (by linarith)
    rw [hlast, truncate_eq_floor]
    refine .inr ⟨valueOf k g, rfl, le_trans ?_ hlastNear.1, hlastNear.2.trans ?_⟩
    · exact mul_le_mul_of_nonneg_right hlower (by linarith)
    · exact mul_le_mul_of_nonneg_right hupper (by linarith)

theorem position_zero (size limit : Nat) : position size limit 0 = 0 := by
  unfold position
  dsimp only
  have hzero : ofInt ((0 : Nat) : Int) = .finite false 0 minExponent := rfl
  rw [hzero]
  cases Double.round false size limit with
  | nan | infinite => rfl
  | finite s m e => simp [mul, Double.round, truncate?]

/-- Every position of a sample is one of the collection. -/
theorem position_lt {i : Nat} (hi : i < limit) (hsize : limit < size) (hlimit : limit ≤ preciseLimit) :
    position size limit i < size := by
  have hsize' : 0 < size := by omega
  rcases Nat.eq_zero_or_pos i with rfl | hpos
  · rwa [position_zero]
  obtain ⟨hzero, -⟩ | ⟨x, hx, -, hupper⟩ := position_cases hpos hi hsize.le
  · rwa [hzero]
  · rw [hx]
    exact (Nat.floor_lt' hsize'.ne').2 (hupper.trans_lt (rounded_last_lt hsize' hi hlimit))

/-- In a collection of fewer elements, the positions of a sample are told apart. -/
def preciseSize : Nat := 2 ^ 24

/-- Three roundings move a position by less than what tells two multiples of a stride apart. -/
theorem rounded_bounds {X : ℚ} (hX : 0 ≤ X) (hsize : X ≤ 2 ^ 24) :
    X - 1 / 2 ^ 25 ≤ X * (1 - precision) ^ 3 ∧ X * (1 + precision) ^ 3 ≤ X + 1 / 2 ^ 25 := by
  have hlower : (1 : ℚ) - 1 / 2 ^ 49 ≤ (1 - precision) ^ 3 := by norm_num [precision]
  have hupper : (1 + precision) ^ 3 ≤ (1 : ℚ) + 1 / 2 ^ 49 := by norm_num [precision]
  constructor
  · have := mul_le_mul_of_nonneg_left hlower hX
    linarith
  · have := mul_le_mul_of_nonneg_left hupper hX
    linarith

/-- Every position is within one of the exact multiple of the stride. -/
theorem position_bounds {i : Nat} (hi : i < limit) (hsize : limit ≤ size) (hprecise : size < preciseSize) :
    position size limit i * limit ≤ i * size ∧ i * size ≤ (position size limit i + 1) * limit := by
  rcases Nat.eq_zero_or_pos i with rfl | hpos
  · rw [position_zero]
    omega
  obtain ⟨-, hhuge⟩ | ⟨x, hx, hlower, hupper⟩ := position_cases hpos hi hsize
  · exact absurd (hhuge.trans_lt hprecise) (by norm_num [preciseSize])
  have hlimit : (0 : ℚ) < limit := by exact_mod_cast (show 0 < limit by omega)
  have hlimit' : (limit : ℚ) ≤ 2 ^ 24 := by exact_mod_cast (show limit ≤ 2 ^ 24 from hsize.trans hprecise.le)
  generalize hX : (i : ℚ) * size / limit = X at *
  have hexact : X * limit = i * size := by
    rw [← hX]
    field_simp
  have hX0 : 0 ≤ X := by
    rw [← hX]
    positivity
  have hXsize : X ≤ 2 ^ 24 := by
    rw [← hX, div_le_iff₀ hlimit, mul_comm]
    gcongr
    exact_mod_cast hprecise.le
  obtain ⟨hbelow, habove⟩ := rounded_bounds hX0 hXsize
  have hlow : X - 1 / 2 ^ 25 ≤ x := by
    refine le_trans (hbelow.trans (le_of_eq ?_)) hlower
    rw [← hX]
    ring
  have hhigh : x ≤ X + 1 / 2 ^ 25 := by
    refine le_trans hupper (le_trans (le_of_eq ?_) habove)
    rw [← hX]
    ring
  have hx0 : 0 ≤ x := by
    refine le_trans ?_ hlower
    have : precision ≤ 1 := by norm_num [precision]
    have : 0 ≤ 1 - precision := by linarith
    positivity
  rw [hx]
  have hfloor := Nat.floor_le hx0
  have hceil := Nat.lt_floor_add_one x
  generalize ⌊x⌋₊ = p at *
  -- Both sides are whole numbers, and what rounding adds is less than one.
  have hless : (limit : ℚ) * (1 / 2 ^ 25) < 1 := by
    calc (limit : ℚ) * (1 / 2 ^ 25) ≤ 2 ^ 24 * (1 / 2 ^ 25) := by gcongr
      _ < 1 := by norm_num
  constructor
  · have : (p : ℚ) * limit < i * size + 1 := by
      calc (p : ℚ) * limit ≤ (X + 1 / 2 ^ 25) * limit := by gcongr; linarith
        _ < i * size + 1 := by linarith
    exact Nat.lt_succ_iff.1 (by exact_mod_cast this)
  · have : (i : ℚ) * size < (p + 1) * limit + 1 := by
      have : (X - 1 / 2 ^ 25) * limit ≤ (p + 1) * limit := by gcongr; linarith
      linarith
    exact Nat.lt_succ_iff.1 (by exact_mod_cast this)

/-! ## Plans -/

/-- Positions are asked for one by one only in a sequence with more elements than the limit. -/
theorem plan_pickOut {access : Access} {limit : Option Int} {wanted : List Nat}
    (h : plan access size limit = .ok (.pickOut wanted)) :
    access = .byIndex ∧ ∃ k, limit = some k ∧ k < size ∧ wanted = positions size k.toNat := by
  unfold plan at h
  split at h
  · cases h
  rename_i k
  split at h
  · cases h
  rename_i hfew
  split at h
  · cases h
  simp only [Except.ok.injEq] at h
  split at h
  · rename_i hindex
    cases h
    rw [Bool.or_eq_true, decide_eq_true_iff, not_or] at hfew
    exact ⟨beq_iff_eq.1 hindex, k, rfl, not_le.1 hfew.2, rfl⟩
  · cases h

end Sampling

end Conformance
