import Mathlib.Data.List.TakeWhile
import ReactWeave.Json.Reader
import ReactWeave.Proofs.Rounding

/-!
# ReactWeave.Proofs.Numerals

**Numbers in decimal notation**, between the printers and the readers of JSON
text. Every number is printed as a sign and a `Numeral` (`toList_toString_int`,
`exists_numeral_of_finite`), and what a reader has to compute from the numeral
is its value and its scale. A double is the one that its numeral reads as.
-/

namespace ReactWeave.Json

open Number (Binary64)
open Number.Binary64

/-- A number without its sign: digits in front of the point, digits behind it, and an exponent with
its sign. Without digits behind the point no point is written. -/
structure Numeral where
  whole : List Char
  fraction : List Char
  exponent : Option (Bool × List Char)
  whole_ne_nil : whole ≠ []
  isDigit_whole : ∀ c ∈ whole, c.isDigit = true
  /-- A zero in front stands alone. -/
  leading : whole.head? = some '0' → whole = ['0']
  isDigit_fraction : ∀ c ∈ fraction, c.isDigit = true
  exponent_digits : ∀ x ∈ exponent, x.2 ≠ [] ∧ ∀ c ∈ x.2, c.isDigit = true

namespace Numeral

/-- The digits behind the point, with the point. -/
def fractionText (n : Numeral) : List Char :=
  if n.fraction.isEmpty then [] else '.' :: n.fraction

/-- The exponent as it is written. -/
def exponentText (n : Numeral) : List Char :=
  match n.exponent with
  | none => []
  | some (negative, ds) => 'e' :: (if negative then '-' else '+') :: ds

def text (n : Numeral) : List Char := n.whole ++ n.fractionText ++ n.exponentText

/-- Whether there is neither a fraction nor an exponent. -/
def isWhole (n : Numeral) : Bool := n.fraction.isEmpty && n.exponent.isNone

/-- All digits as one number. -/
def value (n : Numeral) : Nat := digitsValue (n.whole ++ n.fraction)

def exponentValue (n : Numeral) : Int :=
  match n.exponent with
  | none => 0
  | some (negative, ds) => if negative then -(digitsValue ds : Int) else digitsValue ds

/-- The power of ten by which the number of all digits is multiplied. -/
def scale (n : Numeral) : Int := n.exponentValue - n.fraction.length

end Numeral

/-- The sign of a number as it is written. -/
def signText (negative : Bool) : List Char := if negative then ['-'] else []

/-! ## The value of digits -/

@[simp] theorem digitsValue_toDigits (n : Nat) : digitsValue (Nat.toDigits 10 n) = n :=
  Nat.ofDigitChars_ten_toDigits

theorem digitsValue_append (ds es : List Char) :
    digitsValue (ds ++ es) = digitsValue ds * 10 ^ es.length + digitsValue es := by
  calc digitsValue (ds ++ es) = Nat.ofDigitChars 10 es (digitsValue ds) := Nat.ofDigitChars_append 0
    _ = 10 ^ es.length * digitsValue ds + digitsValue es := Nat.ofDigitChars_eq_ofDigitChars_zero
    _ = digitsValue ds * 10 ^ es.length + digitsValue es := by rw [Nat.mul_comm]

theorem digitsValue_zeros (k : Nat) : digitsValue (List.replicate k '0') = 0 := by
  exact Nat.ofDigitChars_replicate_zero (b := 10)

theorem isDigit_toDigits {n : Nat} {c : Char} (h : c ∈ Nat.toDigits 10 n) : c.isDigit = true :=
  Nat.isDigit_of_mem_toDigits (by decide) (by decide) h

theorem isDigit_zeros {k : Nat} {c : Char} (h : c ∈ List.replicate k '0') : c.isDigit = true := by
  rw [List.eq_of_mem_replicate h]; rfl

theorem head?_toDigits {n : Nat} (hn : n ≠ 0) : (Nat.toDigits 10 n).head? ≠ some '0' := by
  induction n using Nat.strongRecOn with
  | ind n ih =>
    rw [Nat.toDigits_eq_if (by decide)]
    split
    · rename_i hlt
      have : n = 1 ∨ n = 2 ∨ n = 3 ∨ n = 4 ∨ n = 5 ∨ n = 6 ∨ n = 7 ∨ n = 8 ∨ n = 9 := by omega
      rcases this with rfl | rfl | rfl | rfl | rfl | rfl | rfl | rfl | rfl <;> decide
    · rw [List.head?_append_of_ne_nil _ Nat.toDigits_ne_nil]
      exact ih (n / 10) (by omega) (by omega)

theorem leading_toDigits (n : Nat) :
    (Nat.toDigits 10 n).head? = some '0' → Nat.toDigits 10 n = ['0'] := by
  intro h
  by_cases hn : n = 0
  · subst hn; rfl
  · exact absurd h (head?_toDigits hn)

/-! ## Integers -/

/-- A natural number as a numeral. -/
def Numeral.ofNat (n : Nat) : Numeral where
  whole := Nat.toDigits 10 n
  fraction := []
  exponent := none
  whole_ne_nil := Nat.toDigits_ne_nil
  isDigit_whole _ := isDigit_toDigits
  leading := leading_toDigits n
  isDigit_fraction := by simp
  exponent_digits := by simp

theorem toList_toString_int (n : Int) :
    (toString n).toList = signText (n < 0) ++ (Numeral.ofNat n.natAbs).text := by
  cases n with
  | ofNat n =>
    simp [signText, Numeral.text, Numeral.ofNat, Numeral.fractionText, Numeral.exponentText,
      Int.repr, Nat.toList_repr, toString]
  | negSucc n =>
    simp [signText, Numeral.text, Numeral.ofNat, Numeral.fractionText, Numeral.exponentText,
      Int.repr, Nat.toList_repr, toString, Int.negSucc_lt_zero]

/-! ## Doubles -/

/-- Zeros that are dropped can be put back. -/
theorem dropZeros_append (ds : List Char) :
    (dropZeros ds).1 ++ List.replicate (dropZeros ds).2 '0' = ds := by
  have hzeros : ds.reverse.takeWhile (· == '0') =
      List.replicate (ds.reverse.takeWhile (· == '0')).length '0' :=
    List.eq_replicate_iff.2 ⟨rfl, fun c hc => by simpa using List.mem_takeWhile_imp hc⟩
  have hds : ds = (ds.reverse.dropWhile (· == '0')).reverse ++
      List.replicate (ds.reverse.takeWhile (· == '0')).length '0' := by
    rw [← List.reverse_replicate, ← hzeros, ← List.reverse_append,
      List.takeWhile_append_dropWhile, List.reverse_reverse]
  have hfront : (dropZeros ds).1 = (ds.reverse.dropWhile (· == '0')).reverse := by
    have hlength := congrArg List.length hds
    rw [List.length_append, List.length_replicate] at hlength
    rw [dropZeros, hlength, Nat.add_sub_cancel]
    exact (congrArg (List.take _) hds).trans (List.take_left' rfl)
  rw [hfront]
  exact hds.symm

/-- An exponent is written with a sign and digits of its value. -/
theorem exists_writeExponent (e : Int) : ∃ (negative : Bool) (ds : List Char),
    writeExponent e = (if negative then '-' else '+') :: ds ∧ ds ≠ [] ∧
      (∀ c ∈ ds, c.isDigit = true) ∧
      (if negative then -(digitsValue ds : Int) else digitsValue ds) = e := by
  refine ⟨decide (e < 0),
    if (Nat.toDigits 10 e.natAbs).length < 2 then '0' :: Nat.toDigits 10 e.natAbs
    else Nat.toDigits 10 e.natAbs, ?_, ?_, ?_, ?_⟩
  · simp [writeExponent]
  · split <;> simp [Nat.toDigits_ne_nil]
  · intro c hc
    split at hc
    · rcases List.mem_cons.1 hc with rfl | hc
      · rfl
      · exact isDigit_toDigits hc
    · exact isDigit_toDigits hc
  · have hvalue : digitsValue (if (Nat.toDigits 10 e.natAbs).length < 2
        then '0' :: Nat.toDigits 10 e.natAbs else Nat.toDigits 10 e.natAbs) = e.natAbs := by
      split
      · exact digitsValue_toDigits _
      · exact digitsValue_toDigits _
    rw [hvalue]
    by_cases he : e < 0
    · rw [if_pos (by simpa using he)]; omega
    · rw [if_neg (by simpa using he)]; omega

/-- **Digits with a point are a numeral of the same value.** -/
theorem exists_numeral_of_placePoint {ds : List Char} (hne : ds ≠ [])
    (hdigits : ∀ c ∈ ds, c.isDigit = true) (hlead : ds.head? ≠ some '0') (point : Int) :
    ∃ n : Numeral, placePoint ds point = n.text ∧ n.isWhole = false ∧
      (n.value : ℚ) * 10 ^ n.scale = digitsValue ds * 10 ^ (point - ds.length) := by
  unfold placePoint
  split
  · rename_i hrange
    split
    · -- only zeros in front of the digits
      rename_i hpoint
      refine ⟨⟨['0'], List.replicate (-point).toNat '0' ++ ds, none, by simp, by simp, by simp,
        ?_, by simp⟩, ?_, ?_, ?_⟩
      · intro c hc
        rcases List.mem_append.1 hc with hc | hc
        · exact isDigit_zeros hc
        · exact hdigits c hc
      · simp [Numeral.text, Numeral.fractionText, Numeral.exponentText, hne]
      · simp [Numeral.isWhole, hne]
      · simp only [Numeral.value, Numeral.scale, Numeral.exponentValue, ← List.append_assoc]
        rw [digitsValue_append, show ['0'] ++ List.replicate (-point).toNat '0' =
          List.replicate ((-point).toNat + 1) '0' from rfl, digitsValue_zeros]
        simp only [zero_mul, zero_add, List.length_append, List.length_replicate]
        congr 2
        push_cast
        omega
    · simp only
      split
      · -- zeros behind the digits
        rename_i hpoint hlength
        refine ⟨⟨ds ++ List.replicate (point.toNat - ds.length) '0', ['0'], none, by simp [hne], ?_,
          ?_, by simp, by simp⟩, ?_, rfl, ?_⟩
        · intro c hc
          rcases List.mem_append.1 hc with hc | hc
          · exact hdigits c hc
          · exact isDigit_zeros hc
        · rw [List.head?_append_of_ne_nil _ hne]
          exact fun h => absurd h hlead
        · simp [Numeral.text, Numeral.fractionText, Numeral.exponentText]
        · simp only [Numeral.value, Numeral.scale, Numeral.exponentValue]
          rw [digitsValue_append, digitsValue_append, digitsValue_zeros,
            show digitsValue ['0'] = 0 from rfl]
          simp only [add_zero, List.length_replicate, List.length_singleton, Nat.cast_mul,
            Nat.cast_pow, Nat.cast_ofNat, mul_assoc]
          rw [← zpow_natCast, ← zpow_natCast, ← zpow_add₀ (by norm_num), ← zpow_add₀ (by norm_num)]
          congr 2
          push_cast
          omega
      · -- the point between the digits
        rename_i hpoint hlength
        have htake : ds.take point.toNat ≠ [] := by
          simp [hne]; omega
        refine ⟨⟨ds.take point.toNat, ds.drop point.toNat, none, htake,
          fun c hc => hdigits c (List.mem_of_mem_take hc), ?_,
          fun c hc => hdigits c (List.mem_of_mem_drop hc), by simp⟩, ?_, ?_, ?_⟩
        · rw [List.head?_take, if_neg (by omega)]
          exact fun h => absurd h hlead
        · have : ds.drop point.toNat ≠ [] := by simp; omega
          simp [Numeral.text, Numeral.fractionText, Numeral.exponentText, this]
        · have : ds.drop point.toNat ≠ [] := by simp; omega
          simp [Numeral.isWhole, this]
        · simp only [Numeral.value, Numeral.scale, Numeral.exponentValue, List.take_append_drop,
            List.length_drop]
          congr 2
          omega
  · -- one digit in front of the point, and an exponent
    cases ds with
    | nil => exact absurd rfl hne
    | cons d ds =>
      obtain ⟨negative, es, htext, hes, hesDigits, hvalue⟩ := exists_writeExponent (point - 1)
      refine ⟨⟨[d], ds, some (negative, es), by simp, by simpa using hdigits d (by simp), ?_,
        fun c hc => hdigits c (List.mem_cons_of_mem _ hc), ?_⟩, ?_, ?_, ?_⟩
      · exact fun h => absurd h hlead
      · intro x hx
        obtain rfl : (negative, es) = x := by simpa using hx
        exact ⟨hes, hesDigits⟩
      · cases ds <;>
          simp [Numeral.text, Numeral.fractionText, Numeral.exponentText, htext]
      · simp [Numeral.isWhole]
      · simp only [Numeral.value, Numeral.scale, Numeral.exponentValue, hvalue,
          List.singleton_append, List.length_cons]
        congr 2
        push_cast
        omega

/-- **A finite double is written as the numeral that reads back as it.** -/
theorem exists_numeral_of_finite {negative : Bool} {m : Nat} {e : Int}
    (h : isNormal (.finite negative m e) = true) :
    ∃ n : Numeral, writeFinite negative m e = signText negative ++ n.text ∧ n.isWhole = false ∧
      ofDecimal negative n.value n.scale = .finite negative m e := by
  by_cases hm : m = 0
  · subst hm
    obtain ⟨-, -, -, hfull⟩ := isNormal_finite.1 h
    refine ⟨⟨['0'], ['0'], none, by simp, by simp, by simp, by simp, by simp⟩, rfl, rfl, ?_⟩
    rw [hfull.resolve_left (by decide)]
    rfl
  · have hround := rounds_shortest (Nat.pos_of_ne_zero hm) h
    have hn : (shortest m e).1 ≠ 0 := by
      intro h0
      have := hround.pos (Nat.pos_of_ne_zero hm)
      rw [h0, Nat.cast_zero, zero_mul] at this
      have : (0 : ℚ) < 1 / 2 * 2 ^ e := by positivity
      linarith
    set digits := Nat.toDigits 10 (shortest m e).1 with hdigits
    have hsplit := dropZeros_append digits
    have hhead : digits.head? ≠ some '0' := head?_toDigits hn
    have hne : (dropZeros digits).1 ≠ [] := by
      intro hnil
      rw [hnil, List.nil_append] at hsplit
      rw [← hsplit] at hhead
      cases hz : (dropZeros digits).2 with
      | zero =>
        rw [hz] at hsplit
        exact Nat.toDigits_ne_nil hsplit.symm
      | succ k => simp [hz, List.replicate_succ] at hhead
    obtain ⟨n, htext, hplain, hvalue⟩ := exists_numeral_of_placePoint hne
      (fun c hc => isDigit_toDigits (by
        rw [← hdigits, ← hsplit]; exact List.mem_append_left _ hc))
      (by rwa [← hsplit, List.head?_append_of_ne_nil _ hne] at hhead)
      (digits.length + (shortest m e).2)
    refine ⟨n, ?_, hplain, ofDecimal_of_rounds (Nat.pos_of_ne_zero hm) h ?_⟩
    · unfold writeFinite
      rw [if_neg (by simpa using hm), ← htext]
      rfl
    · -- the zeros that were dropped are in the exponent
      have hn' : (shortest m e).1 = digitsValue (dropZeros digits).1 * 10 ^ (dropZeros digits).2 := by
        rw [← digitsValue_toDigits (shortest m e).1, ← hdigits, ← hsplit, digitsValue_append,
          digitsValue_zeros, List.length_replicate, Nat.add_zero, hsplit]
      have hlength := congrArg List.length hsplit
      rw [List.length_append, List.length_replicate] at hlength
      rw [hvalue]
      rw [hn'] at hround
      convert hround using 1
      push_cast
      rw [mul_assoc, ← zpow_natCast, ← zpow_add₀ (by norm_num)]
      congr 2
      omega

end ReactWeave.Json
