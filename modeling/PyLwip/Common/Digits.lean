import Mathlib.Data.Int.Bitwise
import Mathlib.Data.List.Induction
import Mathlib.Data.Nat.Digits.Lemmas

/-!
# Numbers as decimal text, and words made of digits

Two representations of numbers. A text of decimal digits has a value, and
among the texts of a value the one without leading zeros is the one that is
printed. A word is made of numbers by shifting each by a digit's width more
than the one before it; where each of them is a digit of that width the word
has them as its digits, and where they are not their bits overlap.
-/

namespace Decimal

/-! ## Text -/

/-- A text of decimal digits. -/
structure IsNumber (s : List Char) : Prop where
  ne_nil : s ≠ []
  digits : ∀ c ∈ s, c.isDigit = true

/-- A number without leading zeros. -/
structure IsCanonical (s : List Char) : Prop extends IsNumber s where
  leading : s.head? = some '0' → s = ['0']

instance (s : List Char) : Decidable (IsNumber s) :=
  decidable_of_iff (s ≠ [] ∧ s.all Char.isDigit = true)
    ⟨fun h => ⟨h.1, List.all_eq_true.mp h.2⟩, fun h => ⟨h.ne_nil, List.all_eq_true.mpr h.digits⟩⟩

instance (s : List Char) : Decidable (IsCanonical s) :=
  decidable_of_iff (IsNumber s ∧ (s.head? = some '0' → s = ['0']))
    ⟨fun h => ⟨h.1, h.2⟩, fun h => ⟨h.toIsNumber, h.leading⟩⟩

/-- The value of a text of decimal digits. -/
def value (s : List Char) : ℕ := Nat.ofDigitChars 10 s 0

@[simp] theorem value_nil : value [] = 0 := Nat.ofDigitChars_nil

theorem value_append_singleton (s : List Char) (c : Char) :
    value (s ++ [c]) = 10 * value s + (c.toNat - 48) := by
  rw [value, Nat.ofDigitChars_append, Nat.ofDigitChars_cons, Nat.ofDigitChars_nil]
  rfl

@[simp] theorem value_toDigits (n : ℕ) : value (Nat.toDigits 10 n) = n :=
  Nat.ofDigitChars_ten_toDigits

theorem toNat_of_isDigit {c : Char} (h : c.isDigit = true) : 48 ≤ c.toNat ∧ c.toNat < 58 := by
  have hrange : 48 ≤ c.toNat ∧ c.toNat ≤ 57 := by
    simpa [Char.isDigit, UInt32.le_iff_toNat_le] using h
  omega

/-- A digit is the character of its value. -/
theorem digitChar_of_isDigit {c : Char} (h : c.isDigit = true) :
    c.toNat - 48 < 10 ∧ (c.toNat - 48).digitChar = c := by
  obtain ⟨hle, hge⟩ := toNat_of_isDigit h
  refine ⟨by omega, ?_⟩
  conv_rhs => rw [← Char.ofNat_toNat c]
  generalize c.toNat = k at hle hge
  interval_cases k <;> rfl

theorem isNumber_toDigits (n : ℕ) : IsNumber (Nat.toDigits 10 n) :=
  ⟨Nat.toDigits_ne_nil, fun _ => Nat.isDigit_of_mem_toDigits (by omega) (by omega)⟩

/-- **What is printed is canonical.** -/
theorem isCanonical_toDigits (n : ℕ) : IsCanonical (Nat.toDigits 10 n) := by
  refine ⟨isNumber_toDigits n, ?_⟩
  induction n using Nat.strongRecOn with
  | ind n ih =>
    intro hhead
    rcases Nat.lt_or_ge n 10 with hlt | hge
    · rw [Nat.toDigits_of_lt_base hlt] at hhead ⊢
      simpa using hhead
    · -- the first digit is that of the number without the last one
      rw [Nat.toDigits_of_base_le (by omega) hge,
        List.head?_append_of_ne_nil _ Nat.toDigits_ne_nil] at hhead
      have hzero := congrArg value (ih (n / 10) (by omega) hhead)
      rw [value_toDigits, show value ['0'] = 0 from rfl] at hzero
      omega

/-- **A canonical text is the one that is printed** for its value. -/
theorem toDigits_value {s : List Char} (h : IsCanonical s) : Nat.toDigits 10 (value s) = s := by
  induction s using List.reverseRecOn with
  | nil => exact absurd rfl h.ne_nil
  | append_singleton s c ih =>
    obtain ⟨hlt, hchar⟩ := digitChar_of_isDigit (h.digits c (by simp))
    rw [value_append_singleton]
    rcases eq_or_ne s [] with rfl | hne
    · simpa [Nat.toDigits_of_lt_base hlt] using hchar
    · -- no zero leads, so what is before the last digit is canonical and not zero
      have hlead : s.head? ≠ some '0' := by
        intro hhead
        have := h.leading (by rwa [List.head?_append_of_ne_nil _ hne])
        simp [List.append_eq_singleton_iff, hne] at this
      have hs : Nat.toDigits 10 (value s) = s :=
        ih ⟨⟨hne, fun c hc => h.digits c (by simp [hc])⟩, fun hhead => absurd hhead hlead⟩
      have hpos : 0 < value s := by
        rcases Nat.eq_zero_or_pos (value s) with hzero | hpos
        · rw [hzero] at hs
          exact absurd (hs ▸ rfl) hlead
        · exact hpos
      rw [← Nat.toDigits_append_toDigits (by omega) hpos hlt, hs, Nat.toDigits_of_lt_base hlt,
        hchar]

/-- A canonical text of a small number is short. -/
theorem length_le_of_value_lt {s : List Char} (h : IsCanonical s) {k : ℕ} (hk : 0 < k)
    (hlt : value s < 10 ^ k) : s.length ≤ k := by
  rw [← toDigits_value h]
  exact (Nat.length_toDigits_le_iff (by omega) hk).mpr (by simpa using hlt)

end Decimal

/-! ## Words -/

namespace Words

/-- The word that is made of `numbers`, the first at its low end. -/
def pack (w : ℕ) (numbers : List ℤ) : ℤ :=
  numbers.foldr (fun lo hi => (hi <<< (w : ℤ)).lor lo) 0

theorem pack_cons (w : ℕ) (n : ℤ) (numbers : List ℤ) :
    pack w (n :: numbers) = (pack w numbers <<< (w : ℤ)).lor n := rfl

/-- The bits of a shifted integer. -/
theorem testBit_shiftLeft (x : ℤ) (w j : ℕ) :
    (x <<< (w : ℤ)).testBit j = (decide (w ≤ j) && x.testBit (j - w)) := by
  induction w generalizing j with
  | zero =>
    have hself : x <<< ((0 : ℕ) : ℤ) = x := by simp only [Int.shiftLeft_eq_mul_pow]; simp
    simp only [hself]
    simp
  | succ w ih =>
    -- one more place is one more bit at the low end
    have hbit : x <<< ((w + 1 : ℕ) : ℤ) = Int.bit false (x <<< (w : ℤ)) := by
      rw [Int.shiftLeft_eq_mul_pow, Int.shiftLeft_eq_mul_pow, Int.bit_val]
      push_cast
      simp [pow_succ]
      ring
    rw [hbit]
    cases j with
    | zero => simp [Int.testBit_bit_zero]
    | succ j => simp [Int.testBit_bit_succ, ih]

/-- The bits of a word: those of the numbers, each in its place. -/
theorem testBit_pack {w : ℕ} {numbers : List ℤ} {j : ℕ} :
    (pack w numbers).testBit j = true ↔
      ∃ i n, numbers[i]? = some n ∧ w * i ≤ j ∧ n.testBit (j - w * i) = true := by
  induction numbers generalizing j with
  | nil => simp [pack, Int.testBit]
  | cons n numbers ih =>
    rw [pack_cons, Int.testBit_lor, testBit_shiftLeft, Bool.or_eq_true, Bool.and_eq_true, ih,
      decide_eq_true_iff]
    constructor
    · rintro (⟨hle, i, m, hm, hi, hbit⟩ | hbit)
      · refine ⟨i + 1, m, by simpa using hm, by rw [Nat.mul_succ]; omega, ?_⟩
        rwa [show j - w * (i + 1) = j - w - w * i by rw [Nat.mul_succ]; omega]
      · exact ⟨0, n, rfl, by omega, by simpa using hbit⟩
    · rintro ⟨_ | i, m, hm, hi, hbit⟩
      · obtain rfl : n = m := by simpa using hm
        exact .inr (by simpa using hbit)
      · rw [Nat.mul_succ] at hi hbit
        refine .inl ⟨by omega, i, m, by simpa using hm, by omega, ?_⟩
        rwa [show j - w - w * i = j - (w * i + w) by omega]

/-- **Digits of the width do not overlap**: the word has them as its digits. -/
theorem pack_digits {w : ℕ} {digits : List ℕ} (h : ∀ n ∈ digits, n < 2 ^ w) :
    pack w (digits.map fun n : ℕ => (n : ℤ)) = (Nat.ofDigits (2 ^ w) digits : ℕ) := by
  induction digits with
  | nil => rfl
  | cons n digits ih =>
    rw [List.map_cons, pack_cons, ih fun m hm => h m (.tail _ hm), Int.shiftLeft_natCast]
    have hor := Nat.shiftLeft_add_eq_or_of_lt (h n List.mem_cons_self) (Nat.ofDigits (2 ^ w) digits)
    have hlor : ∀ a b : ℕ, (a : ℤ).lor b = ((a ||| b : ℕ) : ℤ) := fun _ _ => rfl
    rw [hlor, ← hor, Nat.ofDigits_cons, Nat.shiftLeft_eq]
    push_cast
    ring

/-- The digit at one place. -/
theorem ofDigits_div_mod {b : ℕ} {digits : List ℕ} (h : ∀ n ∈ digits, n < b) {i n : ℕ}
    (hi : digits[i]? = some n) : Nat.ofDigits b digits / b ^ i % b = n := by
  have hlt := h n (List.mem_of_getElem? hi)
  obtain ⟨hlen, hget⟩ := List.getElem?_eq_some_iff.mp hi
  rw [Nat.ofDigits_div_pow_eq_ofDigits_drop i (by omega) digits h, Nat.ofDigits_mod_eq_head!,
    List.drop_eq_getElem_cons hlen, hget]
  exact Nat.mod_eq_of_lt hlt

/-- The `k` lowest digits of a word. -/
def unpack (w k n : ℕ) : List ℕ := (List.range k).map fun i => n / 2 ^ (w * i) % 2 ^ w

theorem unpack_lt {w k n : ℕ} : ∀ m ∈ unpack w k n, m < 2 ^ w := by
  intro m hm
  obtain ⟨i, -, rfl⟩ := List.mem_map.mp hm
  exact Nat.mod_lt _ (by positivity)

/-- **A word is made of its digits.** -/
theorem ofDigits_unpack (w k n : ℕ) :
    Nat.ofDigits (2 ^ w) (unpack w k n) = n % 2 ^ (w * k) := by
  induction k with
  | zero => simp [unpack, Nat.mod_one]
  | succ k ih =>
    have hlast : unpack w (k + 1) n = unpack w k n ++ [n / 2 ^ (w * k) % 2 ^ w] := by
      simp [unpack, List.range_succ]
    have hlen : (unpack w k n).length = k := by simp [unpack]
    rw [hlast, Nat.ofDigits_append, ih, hlen, Nat.ofDigits_singleton, pow_mul, pow_mul,
      Nat.mod_pow_succ]

/-- **The digits of a word are those that it is made of.** -/
theorem unpack_ofDigits {w : ℕ} {digits : List ℕ} (h : ∀ n ∈ digits, n < 2 ^ w) :
    unpack w digits.length (Nat.ofDigits (2 ^ w) digits) = digits := by
  refine List.ext_getElem (by simp [unpack]) fun i hi hlt => ?_
  simp only [unpack, List.getElem_map, List.getElem_range, pow_mul]
  exact ofDigits_div_mod h (List.getElem?_eq_getElem hlt)

/-! ### Bytes -/

/-- The `k` bytes of a number, the highest first, if it has no more than `k`. -/
def toBytes (k n : ℕ) : Option (List UInt8) :=
  if n < 2 ^ (8 * k) then some ((unpack 8 k n).map UInt8.ofNat).reverse else none

/-- The number of some bytes, the highest of which is the first. -/
def ofBytes (data : List UInt8) : ℕ := Nat.ofDigits (2 ^ 8) (data.reverse.map UInt8.toNat)

theorem toBytes_isSome {k n : ℕ} : (toBytes k n).isSome = true ↔ n < 2 ^ (8 * k) := by
  unfold toBytes
  split <;> simp_all

/-- **A number is read back from its bytes.** -/
theorem ofBytes_of_toBytes {k n : ℕ} {data : List UInt8} (h : toBytes k n = some data) :
    ofBytes data = n := by
  unfold toBytes at h
  split at h
  · next hlt =>
    obtain rfl := Option.some.inj h
    have hdigits : ((unpack 8 k n).map UInt8.ofNat).map UInt8.toNat = unpack 8 k n := by
      rw [List.map_map]
      exact (List.map_congr_left fun m hm => UInt8.toNat_ofNat_of_lt' (unpack_lt m hm)).trans
        (List.map_id _)
    rw [ofBytes, List.reverse_reverse, hdigits, ofDigits_unpack, Nat.mod_eq_of_lt hlt]
  · cases h

/-- The bits of an integer that is kept modulo a power of two. -/
theorem testBit_toNat_emod (x : ℤ) (w j : ℕ) :
    (x % 2 ^ w).toNat.testBit j = (decide (j < w) && x.testBit j) := by
  cases x with
  | ofNat m =>
    have hmod : ((Int.ofNat m) % 2 ^ w).toNat = m % 2 ^ w := by
      rw [Int.ofNat_eq_natCast]
      norm_cast
    rw [hmod, Nat.testBit_mod_two_pow]
    rfl
  | negSucc m =>
    -- the bits below `w` are those of `m`, each the other way round
    have hlt : m % 2 ^ w < 2 ^ w := Nat.mod_lt _ (by positivity)
    have hmod : (Int.negSucc m % 2 ^ w).toNat = 2 ^ w - (m % 2 ^ w + 1) := by
      rw [Int.negSucc_emod _ (by positivity)]
      have hcast : ((2 : ℤ) ^ w - 1 - (m : ℤ) % 2 ^ w) = ((2 ^ w - (m % 2 ^ w + 1) : ℕ) : ℤ) := by
        push_cast [Nat.cast_sub hlt]
        ring
      rw [hcast, Int.toNat_natCast]
    rw [hmod, Nat.testBit_two_pow_sub_succ hlt, Nat.testBit_mod_two_pow]
    cases decide (j < w) <;> simp [Int.testBit]

end Words
