import Mathlib.Algebra.Order.Archimedean.Basic
import Mathlib.Algebra.Order.Field.Power
import Mathlib.Data.Nat.Cast.Order.Field
import Mathlib.Data.Rat.Cast.Order
import Mathlib.Tactic.FieldSimp
import Mathlib.Tactic.Linarith
import Mathlib.Tactic.NormNum
import Mathlib.Tactic.Positivity
import Mathlib.Tactic.Ring
import ReactWeave.Number.Binary64

/-!
# ReactWeave.Proofs.Rounding

**The fewest digits read back.** The rationals that round to a double are an
interval around it (`Rounds`). Reading a decimal of that interval gives the
double (`ofDecimal_of_rounds`), and the digits that `Binary64.shortest` finds
spell a decimal of it (`rounds_shortest`).

The search for the digits and the reading of them are both written with natural
numbers, a numerator and a denominator apart. The statements here are about the
quotients, so that scales of either sign need no cases.
-/

namespace ReactWeave.Number

/-! ## Powers as quotients -/

theorem zpow_eq_div (b : Nat) (e : Int) :
    (b : ℚ) ^ e = (b : ℚ) ^ e.toNat / (b : ℚ) ^ (-e).toNat := by
  rcases le_total 0 e with h | h
  · lift e to Nat using h
    simp
  · obtain ⟨n, rfl⟩ : ∃ n : Nat, e = -n := ⟨(-e).toNat, by omega⟩
    simp

@[simp] theorem cast_twoTo (n : Nat) : (twoTo n : ℚ) = 2 ^ n := by simp [twoTo]

@[simp] theorem cast_tenTo (n : Nat) : (tenTo n : ℚ) = 10 ^ n := by simp [tenTo]

theorem twoTo_pos (n : Nat) : 0 < twoTo n := Nat.pow_pos (by decide)

theorem tenTo_pos (n : Nat) : 0 < tenTo n := Nat.pow_pos (by decide)

theorem two_zpow (e : Int) : (2 : ℚ) ^ e = 2 ^ e.toNat / 2 ^ (-e).toNat :=
  zpow_eq_div 2 e

theorem ten_zpow (e : Int) : (10 : ℚ) ^ e = 10 ^ e.toNat / 10 ^ (-e).toNat :=
  zpow_eq_div 10 e

variable {num den m : Nat} {e : Int} {negative : Bool} {q : ℚ}

namespace Binary64

/-! ## Rounding a quotient -/

/-- A quotient rounds to a natural number that is at most a half away, and to an odd one only if it
is nearer than that. -/
theorem roundQuotient_eq (hden : 0 < den) (hlow : (m : ℚ) - 1 / 2 ≤ num / den)
    (hhigh : (num : ℚ) / den ≤ m + 1 / 2)
    (hodd : m % 2 = 1 → (m : ℚ) - 1 / 2 < num / den ∧ (num : ℚ) / den < m + 1 / 2) :
    roundQuotient num den = m := by
  have hd : (0 : ℚ) < den := by exact_mod_cast hden
  rw [le_div_iff₀ hd] at hlow
  rw [div_le_iff₀ hd] at hhigh
  rw [lt_div_iff₀ hd, div_lt_iff₀ hd] at hodd
  have hlow : 2 * (m * den) ≤ 2 * num + den := by
    have : (2 * (m * den) : ℚ) ≤ 2 * num + den := by linarith
    exact_mod_cast this
  have hhigh : 2 * num ≤ 2 * (m * den) + den := by
    have : (2 * num : ℚ) ≤ 2 * (m * den) + den := by linarith
    exact_mod_cast this
  have hodd : m % 2 = 1 → 2 * (m * den) < 2 * num + den ∧ 2 * num < 2 * (m * den) + den := by
    intro h
    obtain ⟨h₁, h₂⟩ := hodd h
    have h₁ : (2 * (m * den) : ℚ) < 2 * num + den := by linarith
    have h₂ : (2 * num : ℚ) < 2 * (m * den) + den := by linarith
    exact ⟨by exact_mod_cast h₁, by exact_mod_cast h₂⟩
  have hnum : num = num / den * den + num % den := by
    rw [Nat.mul_comm]; exact (Nat.div_add_mod num den).symm
  have hrest : num % den < den := Nat.mod_lt _ hden
  unfold roundQuotient
  simp only
  generalize num / den = q at hnum ⊢
  generalize num % den = r at hnum hrest ⊢
  -- the quotient without its rest is the number or the one below it
  have hq : q = m ∨ q + 1 = m := by
    have h₁ : q < m + 1 := by
      by_contra h
      have := Nat.mul_le_mul_right den (Nat.not_lt.1 h)
      rw [Nat.add_mul] at this
      omega
    have h₂ : m < q + 2 := by
      by_contra h
      have := Nat.mul_le_mul_right den (Nat.not_lt.1 h)
      rw [Nat.add_mul] at this
      omega
    omega
  rcases hq with rfl | rfl
  · by_cases hq2 : q % 2 = 1
    · have := hodd hq2
      rw [if_pos (by omega)]
    · have : (q % 2 == 0) = true := by simp; omega
      rw [this]
      split
      · rfl
      · rw [if_neg (by omega), if_pos rfl]
  · rw [Nat.add_mul] at hlow hhigh hodd
    rw [if_neg (by omega)]
    by_cases hq2 : (q + 1) % 2 = 1
    · have := hodd hq2
      rw [if_pos (by omega)]
    · have : (q % 2 == 0) = false := by simp; omega
      rw [this]
      split <;> rfl

theorem scaledQuotient_eq (num den : Nat) (e : Int) :
    scaledQuotient num den e =
      roundQuotient (num * twoTo (-e).toNat) (den * twoTo e.toNat) := by
  unfold scaledQuotient
  split
  · rw [show (-e).toNat = 0 by omega]
    simp [twoTo]
  · rw [show e.toNat = 0 by omega]
    simp [twoTo]

theorem cast_scaled (num den : Nat) (e : Int) :
    ((num * twoTo (-e).toNat : Nat) : ℚ) / (den * twoTo e.toNat : Nat) = num / den / 2 ^ e := by
  rw [two_zpow]
  push_cast
  simp only [cast_twoTo]
  field_simp

theorem scaledQuotient_of_near (hden : 0 < den) (hlow : ((m : ℚ) - 1 / 2) * 2 ^ e ≤ num / den)
    (hhigh : (num : ℚ) / den ≤ (m + 1 / 2) * 2 ^ e)
    (hodd : m % 2 = 1 → ((m : ℚ) - 1 / 2) * 2 ^ e < num / den ∧
      (num : ℚ) / den < (m + 1 / 2) * 2 ^ e) : scaledQuotient num den e = m := by
  have he : (0 : ℚ) < 2 ^ e := by positivity
  rw [scaledQuotient_eq]
  refine roundQuotient_eq (Nat.mul_pos hden (twoTo_pos _)) ?_ ?_ ?_
  all_goals rw [cast_scaled]
  · rwa [le_div_iff₀ he]
  · rwa [div_le_iff₀ he]
  · rwa [lt_div_iff₀ he, div_lt_iff₀ he]

/-! ## The interval that rounds to a double -/

/-- Whether a double is in normal form: a mantissa of 53 bits, fewer only with the least
exponent. -/
def isNormal : Binary64 → Bool
  | .finite _ m e =>
    m < 2 ^ 53 && minExponent ≤ e && e ≤ maxExponent && (2 ^ 52 ≤ m || e == minExponent)
  | _ => true

theorem isNormal_finite :
    isNormal (.finite negative m e) = true ↔
      m < 2 ^ 53 ∧ minExponent ≤ e ∧ e ≤ maxExponent ∧ (2 ^ 52 ≤ m ∨ e = minExponent) := by
  simp [isNormal, and_assoc]

/-- How far the interval of a double goes down, in units of its last place. -/
def reachBelow (m : Nat) (e : Int) : ℚ := if m = 2 ^ 52 ∧ minExponent < e then 1 / 4 else 1 / 2

theorem reachBelow_le (m : Nat) (e : Int) : reachBelow m e ≤ 1 / 2 := by
  unfold reachBelow; split <;> norm_num

theorem le_reachBelow (m : Nat) (e : Int) : 1 / 4 ≤ reachBelow m e := by
  unfold reachBelow; split <;> norm_num

/-- A rational rounds to `m * 2 ^ e`. The ends of the interval do if the mantissa is even. -/
def Rounds (m : Nat) (e : Int) (q : ℚ) : Prop :=
  if m % 2 = 0 then (m - reachBelow m e) * 2 ^ e ≤ q ∧ q ≤ (m + 1 / 2) * 2 ^ e
  else (m - reachBelow m e) * 2 ^ e < q ∧ q < (m + 1 / 2) * 2 ^ e

theorem Rounds.le (h : Rounds m e q) :
    (m - reachBelow m e) * 2 ^ e ≤ q ∧ q ≤ (m + 1 / 2) * 2 ^ e := by
  unfold Rounds at h
  split at h
  · exact h
  · exact ⟨h.1.le, h.2.le⟩

theorem Rounds.lt (h : Rounds m e q) (hodd : m % 2 = 1) :
    (m - reachBelow m e) * 2 ^ e < q ∧ q < (m + 1 / 2) * 2 ^ e := by
  rwa [Rounds, if_neg (by omega)] at h

theorem Rounds.of_lt (hlow : (m - reachBelow m e) * 2 ^ e < q) (hhigh : q < (m + 1 / 2) * 2 ^ e) :
    Rounds m e q := by
  unfold Rounds
  split
  · exact ⟨hlow.le, hhigh.le⟩
  · exact ⟨hlow, hhigh⟩

/-- What rounds to a positive double is at least half a unit. -/
theorem Rounds.pos (hm : 0 < m) (h : Rounds m e q) : (1 / 2 : ℚ) * 2 ^ e ≤ q := by
  have hm : (1 : ℚ) ≤ m := by exact_mod_cast hm
  have he : (0 : ℚ) < 2 ^ e := by positivity
  have := reachBelow_le m e
  calc (1 / 2 : ℚ) * 2 ^ e ≤ (m - reachBelow m e) * 2 ^ e := by
        apply mul_le_mul_of_nonneg_right _ he.le; linarith
    _ ≤ q := h.le.1

/-! ## Reading a quotient -/

/-- The double of a mantissa and an exponent, if they are within its range. -/
def inRange (negative : Bool) (m : Nat) (e : Int) : Binary64 :=
  if maxExponent < e then .infinite negative else .finite negative m e

/-- Rounding a quotient, once its power of two is known. -/
theorem ofQuotient_eq {k : Int} (hnum : 0 < num) (hden : 0 < den) (hlow : (2 : ℚ) ^ k ≤ num / den)
    (hhigh : (num : ℚ) / den < 2 ^ (k + 1)) :
    ofQuotient negative num den =
      if scaledQuotient num den (max (k - 52) minExponent) = 2 ^ 53
      then inRange negative (2 ^ 52) (max (k - 52) minExponent + 1)
      else inRange negative (scaledQuotient num den (max (k - 52) minExponent))
        (max (k - 52) minExponent) := by
  have hd : (0 : ℚ) < den := by exact_mod_cast hden
  -- the binary logarithms leave two powers to choose from
  have hfrom : (2 : ℚ) ^ ((num.log2 : Int) - den.log2 - 1) < num / den := by
    have h₁ : (2 : ℚ) ^ num.log2 ≤ num := by exact_mod_cast Nat.log2_self_le hnum.ne'
    have h₂ : (den : ℚ) < 2 ^ (den.log2 + 1) := by exact_mod_cast Nat.lt_log2_self
    rw [lt_div_iff₀ hd]
    calc (2 : ℚ) ^ ((num.log2 : Int) - den.log2 - 1) * den
        < 2 ^ ((num.log2 : Int) - den.log2 - 1) * 2 ^ (den.log2 + 1) := by gcongr
      _ = 2 ^ num.log2 := by
        rw [← zpow_natCast, ← zpow_natCast, ← zpow_add₀ (by norm_num)]
        congr 1; push_cast; ring
      _ ≤ num := h₁
  have hto : (num : ℚ) / den < 2 ^ ((num.log2 : Int) - den.log2 + 1) := by
    have h₁ : (num : ℚ) < 2 ^ (num.log2 + 1) := by exact_mod_cast Nat.lt_log2_self
    have h₂ : (2 : ℚ) ^ den.log2 ≤ den := by exact_mod_cast Nat.log2_self_le hden.ne'
    rw [div_lt_iff₀ hd]
    calc (num : ℚ) < 2 ^ (num.log2 + 1) := h₁
      _ = 2 ^ ((num.log2 : Int) - den.log2 + 1) * 2 ^ den.log2 := by
        rw [← zpow_natCast, ← zpow_natCast, ← zpow_add₀ (by norm_num)]
        congr 1; push_cast; ring
      _ ≤ 2 ^ ((num.log2 : Int) - den.log2 + 1) * den := by gcongr
  have hk₁ : k < (num.log2 : Int) - den.log2 + 1 :=
    (zpow_lt_zpow_iff_right₀ (by norm_num : (1 : ℚ) < 2)).1 (hlow.trans_lt hto)
  have hk₂ : (num.log2 : Int) - den.log2 - 1 < k + 1 :=
    (zpow_lt_zpow_iff_right₀ (by norm_num : (1 : ℚ) < 2)).1 (hfrom.trans hhigh)
  have hbelow : num * twoTo (-((num.log2 : Int) - den.log2)).toNat <
      den * twoTo ((num.log2 : Int) - den.log2).toNat ↔ k = (num.log2 : Int) - den.log2 - 1 := by
    have hcast : num * twoTo (-((num.log2 : Int) - den.log2)).toNat <
        den * twoTo ((num.log2 : Int) - den.log2).toNat ↔
        (num : ℚ) / den < 2 ^ ((num.log2 : Int) - den.log2) := by
      rw [two_zpow, div_lt_div_iff₀ hd (by positivity), ← cast_twoTo, ← cast_twoTo,
        mul_comm (twoTo _ : ℚ)]
      exact_mod_cast Iff.rfl
    rw [hcast]
    constructor
    · intro h
      have := (zpow_lt_zpow_iff_right₀ (by norm_num : (1 : ℚ) < 2)).1 (hlow.trans_lt h)
      omega
    · rintro rfl
      simpa using hhigh
  unfold ofQuotient
  rw [if_neg (by simpa using hnum.ne')]
  simp only [sub_add_cancel, hbelow]
  have hplace : (if k = (num.log2 : Int) - den.log2 - 1 then (num.log2 : Int) - den.log2 - 52 - 1
      else (num.log2 : Int) - den.log2 - 52) = k - 52 := by
    split <;> omega
  rw [hplace]
  simp only [beq_iff_eq, inRange]
  split <;> simp_all [twoTo]

theorem scaledQuotient_of_rounds (hden : 0 < den) (h : Rounds m e (num / den)) :
    scaledQuotient num den e = m := by
  have hreach : ((m : ℚ) - 1 / 2) * 2 ^ e ≤ (m - reachBelow m e) * 2 ^ e := by
    have := reachBelow_le m e
    gcongr
  refine scaledQuotient_of_near hden (hreach.trans h.le.1) h.le.2 fun hodd => ?_
  exact ⟨hreach.trans_lt (h.lt hodd).1, (h.lt hodd).2⟩

theorem scaledQuotient_below_power (hden : 0 < den)
    (hlow : ((2 : ℚ) ^ 52 - 1 / 4) * 2 ^ e ≤ num / den) (hhigh : (num : ℚ) / den < 2 ^ 52 * 2 ^ e) :
    scaledQuotient num den (e - 1) = 2 ^ 53 := by
  have hhalf : (2 : ℚ) ^ (e - 1) = 2 ^ e / 2 := by rw [zpow_sub_one₀ (by norm_num)]; rfl
  refine scaledQuotient_of_near hden ?_ ?_ (fun h => absurd h (by norm_num))
  · rw [hhalf]; push_cast; linarith
  · rw [hhalf]; push_cast; linarith

/-- **A quotient that rounds to a double reads as the double.** -/
theorem ofQuotient_of_rounds (hden : 0 < den) (hm : 0 < m)
    (hnormal : isNormal (.finite negative m e) = true) (h : Rounds m e (num / den)) :
    ofQuotient negative num den = .finite negative m e := by
  obtain ⟨hm53, hmin, hmax, hfull⟩ := isNormal_finite.1 hnormal
  have hm53 : (m : ℚ) ≤ 2 ^ 53 - 1 := by
    have : m + 1 ≤ 2 ^ 53 := hm53
    have : (m : ℚ) + 1 ≤ 2 ^ 53 := by exact_mod_cast this
    linarith
  have hpos : (0 : ℚ) < num / den := lt_of_lt_of_le (by positivity) (h.pos hm)
  have hnum : 0 < num := by
    rcases Nat.eq_zero_or_pos num with rfl | h₀
    · simp at hpos
    · exact h₀
  have hreach := reachBelow_le m e
  have hto : (num : ℚ) / den < 2 ^ (e + 52 + 1) := by
    calc (num : ℚ) / den ≤ (m + 1 / 2) * 2 ^ e := h.le.2
      _ < 2 ^ (53 : Nat) * 2 ^ e := by gcongr; linarith
      _ = 2 ^ (e + 52 + 1) := by
        rw [← zpow_natCast, ← zpow_add₀ (by norm_num)]; congr 1; push_cast; ring
  have hpower : (2 : ℚ) ^ (e + 52) = 2 ^ 52 * 2 ^ e := by
    rw [zpow_add₀ (by norm_num), mul_comm]; norm_num
  have hrange : inRange negative m e = .finite negative m e := if_neg (by omega)
  -- whether the quotient is at least the power of two below the mantissas of 53 bits
  rcases le_or_gt ((2 : ℚ) ^ (e + 52)) (num / den) with hfrom | hfrom
  · rw [ofQuotient_eq hnum hden hfrom hto, show max (e + 52 - 52) minExponent = e by omega,
      scaledQuotient_of_rounds hden h, if_neg (by omega), hrange]
  · obtain ⟨k, hk₁, hk₂⟩ : ∃ k : Int, (2 : ℚ) ^ k ≤ num / den ∧ (num : ℚ) / den < 2 ^ (k + 1) := by
      exact exists_mem_Ico_zpow hpos (by norm_num)
    have hk : k < e + 52 :=
      (zpow_lt_zpow_iff_right₀ (by norm_num : (1 : ℚ) < 2)).1 (hk₁.trans_lt hfrom)
    by_cases hleast : e = minExponent
    · rw [ofQuotient_eq hnum hden hk₁ hk₂, show max (k - 52) minExponent = e by omega,
        scaledQuotient_of_rounds hden h, if_neg (by omega), hrange]
    · -- the mantissa is the power itself, and the quotient is in the narrower gap below it
      have hm' : m = 2 ^ 52 := by
        by_contra hne
        have : (2 ^ 52 + 1 : ℚ) ≤ m := by exact_mod_cast (show 2 ^ 52 + 1 ≤ m by omega)
        have : (2 : ℚ) ^ 52 * 2 ^ e ≤ (m - reachBelow m e) * 2 ^ e := by gcongr; linarith
        have := h.le.1
        linarith
      have hreach' : reachBelow m e = 1 / 4 := if_pos ⟨hm', by omega⟩
      have hlow : ((2 : ℚ) ^ 52 - 1 / 4) * 2 ^ e ≤ num / den := by
        have := h.le.1
        rw [hreach', hm'] at this
        exact_mod_cast this
      have hk' : k = e + 51 := by
        have hlt : e + 51 < k + 1 := by
          apply (zpow_lt_zpow_iff_right₀ (by norm_num : (1 : ℚ) < 2)).1
          calc (2 : ℚ) ^ (e + 51) = 2 ^ 51 * 2 ^ e := by
                rw [zpow_add₀ (by norm_num), mul_comm]; norm_num
            _ < ((2 : ℚ) ^ 52 - 1 / 4) * 2 ^ e := by gcongr; norm_num
            _ ≤ num / den := hlow
            _ < 2 ^ (k + 1) := hk₂
        omega
      rw [ofQuotient_eq hnum hden hk₁ hk₂, show max (k - 52) minExponent = e - 1 by omega,
        scaledQuotient_below_power hden hlow (by rwa [← hpower]), if_pos rfl, hm',
        sub_add_cancel, ← hm', hrange]

/-! ## Reading a decimal -/

theorem lt_ten_pow_length (n : Nat) : n < 10 ^ (Nat.toDigits 10 n).length :=
  (Nat.length_toDigits_le_iff (by decide) Nat.length_toDigits_pos).1 le_rfl

theorem ten_pow_le_of_length {n : Nat} (hn : n ≠ 0) :
    10 ^ ((Nat.toDigits 10 n).length - 1) ≤ n := by
  rcases Nat.eq_zero_or_pos ((Nat.toDigits 10 n).length - 1) with h | h
  · rw [h]; omega
  · by_contra hlt
    have := (Nat.length_toDigits_le_iff (by decide) h).2 (Nat.not_le.1 hlt)
    omega

theorem ten_zpow_lt_least : (10 : ℚ) ^ (-330 : Int) < 1 / 2 * 2 ^ minExponent := by
  have h : (2 : ℚ) ^ 1075 < 10 ^ 330 := by
    exact_mod_cast (show (2 : Nat) ^ 1075 < 10 ^ 330 by decide +kernel)
  calc (10 : ℚ) ^ (-330 : Int) = (10 ^ 330)⁻¹ := by rw [zpow_neg]; rfl
    _ < (2 ^ 1075)⁻¹ := (inv_lt_inv₀ (by positivity) (by positivity)).2 h
    _ = 1 / 2 * (2 ^ 1074)⁻¹ := by rw [pow_succ, mul_inv_rev, one_div]
    _ = 1 / 2 * 2 ^ minExponent := by rw [minExponent, zpow_neg]; rfl

theorem greatest_lt_ten_zpow : (2 : ℚ) ^ 53 * 2 ^ maxExponent < 10 ^ (309 : Int) := by
  have h : (2 : ℚ) ^ 1024 < 10 ^ 309 := by
    exact_mod_cast (show (2 : Nat) ^ 1024 < 10 ^ 309 by decide +kernel)
  calc (2 : ℚ) ^ 53 * 2 ^ maxExponent = 2 ^ 53 * 2 ^ (971 : Nat) := rfl
    _ = 2 ^ 1024 := by rw [← pow_add]
    _ < 10 ^ 309 := h
    _ = 10 ^ (309 : Int) := rfl

/-- **A decimal that rounds to a double reads as the double.** -/
theorem ofDecimal_of_rounds {n : Nat} {x : Int} (hm : 0 < m)
    (hnormal : isNormal (.finite negative m e) = true) (h : Rounds m e (n * 10 ^ x)) :
    ofDecimal negative n x = .finite negative m e := by
  obtain ⟨hm53, hmin, hmax, -⟩ := isNormal_finite.1 hnormal
  have hm53 : (m : ℚ) ≤ 2 ^ 53 - 1 := by
    have : (m : ℚ) + 1 ≤ 2 ^ 53 := by exact_mod_cast hm53
    linarith
  have hlow : (10 : ℚ) ^ (-330 : Int) < n * 10 ^ x := by
    calc (10 : ℚ) ^ (-330 : Int) < 1 / 2 * 2 ^ minExponent := ten_zpow_lt_least
      _ ≤ 1 / 2 * 2 ^ e := by gcongr; norm_num
      _ ≤ n * 10 ^ x := h.pos hm
  have hhigh : n * (10 : ℚ) ^ x < 10 ^ (309 : Int) := by
    calc n * (10 : ℚ) ^ x ≤ (m + 1 / 2) * 2 ^ e := h.le.2
      _ ≤ 2 ^ 53 * 2 ^ maxExponent := by gcongr; linarith; norm_num
      _ < 10 ^ (309 : Int) := greatest_lt_ten_zpow
  have hn : n ≠ 0 := by
    rintro rfl
    rw [Nat.cast_zero, zero_mul] at hlow
    exact absurd (zpow_pos (by norm_num) _) hlow.not_gt
  have hten : (1 : ℚ) < 10 := by norm_num
  have hsize₁ : ((Nat.toDigits 10 n).length : Int) + x ≤ 310 := by
    have hle : (10 : ℚ) ^ ((Nat.toDigits 10 n).length - 1) ≤ n := by
      exact_mod_cast ten_pow_le_of_length hn
    have : (10 : ℚ) ^ (((Nat.toDigits 10 n).length - 1 : Nat) + x : Int) < 10 ^ (309 : Int) := by
      rw [zpow_add₀ (by norm_num), zpow_natCast]
      exact lt_of_le_of_lt (by gcongr) hhigh
    have := (zpow_lt_zpow_iff_right₀ hten).1 this
    omega
  have hsize₂ : -330 ≤ ((Nat.toDigits 10 n).length : Int) + x := by
    have hlt : (n : ℚ) < 10 ^ (Nat.toDigits 10 n).length := by exact_mod_cast lt_ten_pow_length n
    have : (10 : ℚ) ^ (-330 : Int) < 10 ^ (((Nat.toDigits 10 n).length : Int) + x) := by
      rw [zpow_add₀ (by norm_num), zpow_natCast]
      exact hlow.trans (by gcongr)
    exact ((zpow_lt_zpow_iff_right₀ hten).1 this).le
  unfold ofDecimal
  rw [if_neg (by simpa using hn)]
  rw [if_neg (by omega), if_neg (by omega)]
  split
  · refine ofQuotient_of_rounds (by decide) hm hnormal ?_
    rw [ten_zpow, show (-x).toNat = 0 by omega] at h
    simpa using h
  · refine ofQuotient_of_rounds (tenTo_pos _) hm hnormal ?_
    rw [ten_zpow, show x.toNat = 0 by omega] at h
    simpa [div_eq_mul_inv] using h

/-! ## The search for the fewest digits -/

/-- The test of a decimal says whether it rounds to the double. -/
theorem holds_iff {n : Nat} {scale : Int} (hm : 0 < m) :
    (neighbourhood m e).holds n scale = true ↔ Rounds m e (n * 10 ^ scale) := by
  have h10 : (0 : ℚ) < 10 ^ (-scale).toNat := by positivity
  -- an end of the interval, in quarters of the last place
  have hend (a : Nat) : ((a : ℚ) / 4 * 2 ^ e = a * 2 ^ e.toNat / (4 * 2 ^ (-e).toNat)) := by
    rw [two_zpow]; field_simp
  have hvalue : n * (10 : ℚ) ^ scale = n * 10 ^ scale.toNat / 10 ^ (-scale).toNat := by
    rw [ten_zpow]; field_simp
  have hle (a : Nat) : (a : ℚ) / 4 * 2 ^ e ≤ n * 10 ^ scale ↔
      a * twoTo e.toNat * tenTo (-scale).toNat ≤
        n * tenTo scale.toNat * (4 * twoTo (-e).toNat) := by
    rw [hend, hvalue, div_le_div_iff₀ (by positivity) h10]
    exact_mod_cast Iff.rfl
  have hge (a : Nat) : n * (10 : ℚ) ^ scale ≤ (a : ℚ) / 4 * 2 ^ e ↔
      n * tenTo scale.toNat * (4 * twoTo (-e).toNat) ≤
        a * twoTo e.toNat * tenTo (-scale).toNat := by
    rw [hend, hvalue, div_le_div_iff₀ h10 (by positivity)]
    exact_mod_cast Iff.rfl
  have hlow : (m : ℚ) - reachBelow m e =
      ((4 * m - (if (m == twoTo 52 && minExponent < e) = true then 1 else 2) : Nat) : ℚ) / 4 := by
    by_cases h : m = 2 ^ 52 ∧ minExponent < e
    · rw [reachBelow, if_pos h, if_pos (by simpa [twoTo] using h), Nat.cast_sub (by omega)]
      push_cast; ring
    · rw [reachBelow, if_neg h, if_neg (by simpa [twoTo] using h), Nat.cast_sub (by omega)]
      push_cast; ring
  have hhigh : (m : ℚ) + 1 / 2 = ((4 * m + 2 : Nat) : ℚ) / 4 := by push_cast; ring
  unfold Rounds Neighbourhood.holds neighbourhood
  rw [hlow, hhigh]
  simp only [beq_iff_eq]
  split
  · simp only [Bool.and_eq_true, decide_eq_true_eq, hle, hge]
  · simp only [Bool.and_eq_true, decide_eq_true_eq, ← not_le, hle, hge]

/-- The multiple of a power of ten that is just below the value. -/
def Neighbourhood.below (r : Neighbourhood) (scale : Int) : Nat :=
  r.value * tenTo (-scale).toNat / (r.den * tenTo scale.toNat)

/-- The search finds a decimal that rounds to the double, if one lies within its fuel. -/
theorem holds_shortestFrom {r : Neighbourhood} {point : Int} {c : Nat}
    (hc : r.holds (r.below (point - c)) (point - c) = true) :
    ∀ {fuel count : Nat}, count ≤ c → c < count + fuel →
      r.holds (shortestFrom r point fuel count).1 (shortestFrom r point fuel count).2 = true := by
  intro fuel
  induction fuel with
  | zero => intro count h₁ h₂; omega
  | succ fuel ih =>
    intro count h₁ h₂
    rw [shortestFrom]
    split
    · rename_i h
      rw [Bool.and_eq_true] at h
      split
      · exact h.1
      · exact h.2
    · split
      · assumption
      · split
        · assumption
        · rename_i hbelow _
          rcases Nat.eq_or_lt_of_le h₁ with rfl | hlt
          · exact absurd hc hbelow
          · exact ih hlt (by omega)

/-- The point that the search finds is not above the quotient. -/
theorem le_pointFrom (hden : 0 < den) :
    ∀ {fuel : Nat} {k : Int}, k ≤ 1 → (10 : ℚ) ^ (k - 1 - fuel) ≤ num / den →
      (10 : ℚ) ^ (pointFrom num den fuel k - 1) ≤ num / den := by
  have hd : (0 : ℚ) < den := by exact_mod_cast hden
  intro fuel
  induction fuel with
  | zero => intro k _ h; simpa [pointFrom] using h
  | succ fuel ih =>
    intro k hk h
    rw [pointFrom]
    split
    · rename_i hle
      have hle : (den : ℚ) ≤ num * 10 ^ (1 - k).toNat := by
        rw [← cast_tenTo]; exact_mod_cast hle
      rw [ten_zpow, show (k - 1).toNat = 0 by omega, show -(k - 1) = 1 - k by ring,
        div_le_div_iff₀ (by positivity) hd]
      simpa using hle
    · refine ih (by omega) ?_
      rwa [show k - 1 - 1 - (fuel : Int) = k - 1 - ((fuel + 1 : Nat) : Int) by push_cast; ring]

theorem le_pointPosition (num : Nat) (hden : 0 < den) (h : (10 : ℚ) ^ (-401 : Int) ≤ num / den) :
    (10 : ℚ) ^ (pointPosition num den - 1) ≤ num / den := by
  unfold pointPosition
  split
  · rename_i hle
    have hq : num / den ≠ 0 := (Nat.div_pos hle hden).ne'
    have hlength := Nat.length_toDigits_pos (b := 10) (n := num / den)
    have hpow : (10 : ℚ) ^ ((Nat.toDigits 10 (num / den)).length - 1) ≤ (num / den : Nat) := by
      exact_mod_cast ten_pow_le_of_length hq
    calc (10 : ℚ) ^ (((Nat.toDigits 10 (num / den)).length : Int) - 1)
        = 10 ^ ((Nat.toDigits 10 (num / den)).length - 1) := by
          rw [← zpow_natCast]; congr 1; omega
      _ ≤ (num / den : Nat) := hpow
      _ ≤ num / den := Nat.cast_div_le
  · exact le_pointFrom hden (by decide) (by simpa using h)

/-- **The fewest digits spell a decimal that rounds to the double.** -/
theorem rounds_shortest (hm : 0 < m) (hnormal : isNormal (.finite negative m e) = true) :
    Rounds m e ((shortest m e).1 * 10 ^ (shortest m e).2) := by
  obtain ⟨hm53, hmin, -, -⟩ := isNormal_finite.1 hnormal
  have he : (0 : ℚ) < 2 ^ e := by positivity
  have hm1 : (1 : ℚ) ≤ m := by exact_mod_cast hm
  have hm53 : (m : ℚ) ≤ 2 ^ 53 := by exact_mod_cast hm53.le
  have hden : 0 < (neighbourhood m e).den := Nat.mul_pos (by decide) (twoTo_pos _)
  have hvalue : ((neighbourhood m e).value : ℚ) / (neighbourhood m e).den = m * 2 ^ e := by
    rw [two_zpow]
    simp only [neighbourhood]
    push_cast
    simp only [cast_twoTo]
    field_simp
  have hpoint := le_pointPosition (neighbourhood m e).value hden (by
    rw [hvalue]
    calc (10 : ℚ) ^ (-401 : Int) ≤ 10 ^ (-330 : Int) := by gcongr <;> norm_num
      _ ≤ 1 / 2 * 2 ^ minExponent := ten_zpow_lt_least.le
      _ ≤ 1 / 2 * 2 ^ e := by gcongr; norm_num
      _ ≤ m * 2 ^ e := by gcongr; linarith)
  rw [hvalue] at hpoint
  rw [← holds_iff hm]
  set point := pointPosition (neighbourhood m e).value (neighbourhood m e).den
  -- eighteen digits are always enough
  refine holds_shortestFrom (c := 18) ?_ (by decide) (by decide)
  rw [holds_iff hm]
  set scale : Int := point - (18 : Nat) with hscale
  have hgrid : (10 : ℚ) ^ scale ≤ reachBelow m e * 2 ^ e := by
    calc (10 : ℚ) ^ scale = 10 ^ (point - 1) * 10 ^ (-17 : Int) := by
          rw [← zpow_add₀ (by norm_num)]; congr 1; rw [hscale]; push_cast; ring
      _ ≤ m * 2 ^ e * 10 ^ (-17 : Int) := by gcongr
      _ ≤ 2 ^ 53 * 2 ^ e * 10 ^ (-17 : Int) := by gcongr
      _ = 2 ^ 53 * 10 ^ (-17 : Int) * 2 ^ e := by ring
      _ ≤ 1 / 4 * 2 ^ e := by gcongr; norm_num
      _ ≤ reachBelow m e * 2 ^ e := by gcongr; exact le_reachBelow m e
  have hs : (0 : ℚ) < 10 ^ scale := by positivity
  have hquotient : (((neighbourhood m e).value * tenTo (-scale).toNat : Nat) : ℚ) /
      ((neighbourhood m e).den * tenTo scale.toNat : Nat) = m * 2 ^ e / 10 ^ scale := by
    rw [← hvalue, ten_zpow]
    push_cast
    simp only [cast_tenTo]
    field_simp
  have hbelow : ((neighbourhood m e).below scale : ℚ) * 10 ^ scale ≤ m * 2 ^ e := by
    rw [← le_div_iff₀ hs, ← hquotient]
    exact Nat.cast_div_le
  have habove : m * 2 ^ e < ((neighbourhood m e).below scale + 1 : ℚ) * 10 ^ scale := by
    rw [← div_lt_iff₀ hs, ← hquotient]
    have hpos : 0 < (neighbourhood m e).den * tenTo scale.toNat := Nat.mul_pos hden (tenTo_pos _)
    rw [div_lt_iff₀ (by exact_mod_cast hpos)]
    have hlt : (neighbourhood m e).value * tenTo (-scale).toNat <
        ((neighbourhood m e).below scale + 1) * ((neighbourhood m e).den * tenTo scale.toNat) := by
      rw [Nat.mul_comm (_ + 1)]
      exact Nat.lt_mul_div_succ _ hpos
    exact_mod_cast hlt
  refine Rounds.of_lt ?_ ?_
  · rw [sub_mul]
    linarith
  · rw [add_mul]
    linarith

end Binary64

end ReactWeave.Number
