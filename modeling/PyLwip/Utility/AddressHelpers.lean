import PyLwip.Common.Digits
import Mathlib.Data.List.DropRight

/-!
# IPv4 addresses as text and as integers

`int_ip_from_string` splits at the dots, reads each segment by `int`, and
folds the numbers from the last to the first. `int` reads more than decimal
digits: white space around the number, a sign, underscores between digits,
and the decimal digits of every script.
-/

namespace PyLwip

/-! ## `int` of a string -/

/-- The zeros of the decimal digits of all scripts (Unicode 12.1); the other
nine digits follow each. -/
def digitZeros : List ℕ :=
  [0x30, 0x660, 0x6F0, 0x7C0, 0x966, 0x9E6, 0xA66, 0xAE6, 0xB66, 0xBE6, 0xC66, 0xCE6, 0xD66,
    0xDE6, 0xE50, 0xED0, 0xF20, 0x1040, 0x1090, 0x17E0, 0x1810, 0x1946, 0x19D0, 0x1A80, 0x1A90,
    0x1B50, 0x1BB0, 0x1C40, 0x1C50, 0xA620, 0xA8D0, 0xA900, 0xA9D0, 0xA9F0, 0xAA50, 0xABF0,
    0xFF10, 0x104A0, 0x10D30, 0x11066, 0x110F0, 0x11136, 0x111D0, 0x112F0, 0x11450, 0x114D0,
    0x11650, 0x116C0, 0x11730, 0x118E0, 0x11C50, 0x11D50, 0x11DA0, 0x16A60, 0x16B50, 0x1D7CE,
    0x1D7D8, 0x1D7E2, 0x1D7EC, 0x1D7F6, 0x1E140, 0x1E2F0, 0x1E950]

/-- The value of a decimal digit. -/
def digitValue? (c : Char) : Option ℕ :=
  (digitZeros.find? fun z => decide (z ≤ c.toNat ∧ c.toNat < z + 10)).map (c.toNat - ·)

/-- The white space that `int` strips. -/
def isIntSpace (c : Char) : Bool :=
  let n := c.toNat
  (0x9 ≤ n && n ≤ 0xD) || n = 0x20 || n = 0x85 || n = 0xA0 || n = 0x1680 ||
    (0x2000 ≤ n && n ≤ 0x200A) || n = 0x2028 || n = 0x2029 || n = 0x202F || n = 0x205F ||
    n = 0x3000

/-- Digits with single underscores between them; `afterDigit` tells whether
the last character was one. -/
def readDigits : Bool → List Char → Option (List ℕ)
  | afterDigit, [] => if afterDigit then some [] else none
  | afterDigit, c :: rest =>
    if c = '_' then if afterDigit then readDigits false rest else none
    else do
      let d ← digitValue? c
      let ds ← readDigits true rest
      some (d :: ds)

/-- The interpreter's limit on the digits of a string that `int` reads. -/
def maxStrDigits : ℕ := 4300

/-- A number without a sign. -/
def readNat (s : List Char) : Option ℕ := do
  let ds ← readDigits false s
  if ds.length ≤ maxStrDigits then some (ds.foldl (fun n d => 10 * n + d) 0) else none

/-- `int` of a string, `none` where it raises `ValueError`. -/
def pyInt (s : List Char) : Option ℤ :=
  match (s.dropWhile isIntSpace).rdropWhile isIntSpace with
  | '+' :: rest => (readNat rest).map fun n => (n : ℤ)
  | '-' :: rest => (readNat rest).map fun n => -(n : ℤ)
  | rest => (readNat rest).map fun n => (n : ℤ)

/-! ## The conversion -/

/-- `int_ip_from_string`, `none` where it raises `ValueError`. -/
def intIpFromString (ipString : String) : Option ℤ := do
  let addrSegments ← (ipString.toList.splitOn '.').reverse.mapM pyInt
  some (addrSegments.foldl (fun hi lo => (hi <<< (8 : ℤ)).lor lo) 0)

/-- `int_ip_to_string`. -/
def intIpToString (ipInt : ℤ) : String :=
  ".".intercalate ([0, 8, 16, 24].map fun shift : ℕ => toString ((ipInt >>> shift).land 0xFF))

/-! ## What is read of decimal digits -/

theorem digitValue?_of_isDigit {c : Char} (h : c.isDigit = true) :
    digitValue? c = some (c.toNat - 48) := by
  obtain ⟨hle, hlt⟩ := Decimal.toNat_of_isDigit h
  rw [digitValue?, digitZeros, List.find?_cons_of_pos (by simp; omega)]
  rfl

theorem isIntSpace_of_isDigit {c : Char} (h : c.isDigit = true) : isIntSpace c = false := by
  obtain ⟨hle, hlt⟩ := Decimal.toNat_of_isDigit h
  simp [isIntSpace]
  omega

theorem readDigits_of_digits {s : List Char} (h : ∀ c ∈ s, c.isDigit = true) :
    readDigits true s = some (s.map fun c => c.toNat - 48) := by
  induction s with
  | nil => rfl
  | cons c s ih =>
    have hc := h c List.mem_cons_self
    have hne : c ≠ '_' := by
      rintro rfl
      cases hc
    rw [readDigits, if_neg hne, digitValue?_of_isDigit hc, ih fun d hd => h d (.tail _ hd)]
    rfl

theorem readNat_of_isNumber {s : List Char} (h : Decimal.IsNumber s)
    (hlen : s.length ≤ maxStrDigits) : readNat s = some (Decimal.value s) := by
  cases s with
  | nil => exact absurd rfl h.ne_nil
  | cons c s =>
    have hread : readDigits false (c :: s) = some ((c :: s).map fun c => c.toNat - 48) := by
      rw [← readDigits_of_digits h.digits]
      have hne : c ≠ '_' := by
        rintro rfl
        cases h.digits '_' List.mem_cons_self
      rw [readDigits, readDigits, if_neg hne, if_neg hne]
    have hvalue : ((c :: s).map fun c => c.toNat - 48).foldl (fun n d => 10 * n + d) 0 =
        Decimal.value (c :: s) := by
      rw [List.foldl_map, Decimal.value, Nat.ofDigitChars_eq_foldl]
      rfl
    rw [readNat, hread, Option.bind_eq_bind, Option.bind_some, hvalue, List.length_map,
      if_pos hlen]

/-- **A number of decimal digits is read as its value.** -/
theorem pyInt_of_isNumber {s : List Char} (h : Decimal.IsNumber s)
    (hlen : s.length ≤ maxStrDigits) : pyInt s = some (Decimal.value s : ℤ) := by
  have hdrop : s.dropWhile isIntSpace = s := by
    cases s with
    | nil => rfl
    | cons c s => simp [isIntSpace_of_isDigit (h.digits c List.mem_cons_self)]
  have hrdrop : s.rdropWhile isIntSpace = s := by
    refine List.rdropWhile_eq_self_iff.mpr fun hne => ?_
    simp [isIntSpace_of_isDigit (h.digits _ (List.getLast_mem hne))]
  have hsign : ∀ c ∈ s.head?, c ≠ '+' ∧ c ≠ '-' := by
    intro c hc
    have hdigit := h.digits c (List.mem_of_mem_head? hc)
    constructor <;>
    · rintro rfl
      cases hdigit
  rw [pyInt, hdrop, hrdrop]
  split
  · exact absurd rfl (hsign '+' rfl).1
  · exact absurd rfl (hsign '-' rfl).2
  · rw [readNat_of_isNumber h hlen]
    rfl

/-! ## The address of a text -/

/-- The texts between the dots. -/
def segments (ipString : String) : List (List Char) := ipString.toList.splitOn '.'

/-- A decimal octet, of no more digits than `int` reads. -/
structure IsOctet (segment : List Char) : Prop extends Decimal.IsNumber segment where
  length_le : segment.length ≤ maxStrDigits
  value_lt : Decimal.value segment < 2 ^ 8

/-- **A dotted quad**: four decimal octets with dots between them. -/
structure IsDottedQuad (ipString : String) : Prop where
  length_eq : (segments ipString).length = 4
  octets : ∀ segment ∈ segments ipString, IsOctet segment

instance (segment : List Char) : Decidable (IsOctet segment) :=
  decidable_of_iff (Decimal.IsNumber segment ∧ segment.length ≤ maxStrDigits ∧
      Decimal.value segment < 2 ^ 8)
    ⟨fun h => ⟨h.1, h.2.1, h.2.2⟩, fun h => ⟨h.toIsNumber, h.length_le, h.value_lt⟩⟩

instance (ipString : String) : Decidable (IsDottedQuad ipString) :=
  decidable_of_iff ((segments ipString).length = 4 ∧
      (segments ipString).all (fun segment => decide (IsOctet segment)) = true)
    ⟨fun h => ⟨h.1, by simpa using h.2⟩, fun h => ⟨h.length_eq, by simpa using h.octets⟩⟩

/-- The word that has the values of the segments as its digits. -/
def octetWord (ipString : String) : ℕ :=
  Nat.ofDigits (2 ^ 8) ((segments ipString).map Decimal.value)

/-- The numbers of all texts, if each is one. -/
theorem mapM_eq_some_iff {α β : Type*} {f : α → Option β} {l : List α} {bs : List β} :
    l.mapM f = some bs ↔ l.map f = bs.map some := by
  induction l generalizing bs with
  | nil => cases bs <;> simp
  | cons a l ih =>
    rw [List.mapM_cons, Option.bind_eq_bind, Option.bind_eq_some_iff]
    constructor
    · rintro ⟨b, hb, hrest⟩
      obtain ⟨bs', hbs', hcons⟩ := Option.bind_eq_some_iff.mp hrest
      obtain rfl : b :: bs' = bs := by simpa using hcons
      simp [hb, ih.mp hbs']
    · intro h
      cases bs with
      | nil => cases h
      | cons b bs =>
        obtain ⟨hb, hrest⟩ := List.cons.inj h
        exact ⟨b, hb, by simp [ih.mpr hrest]⟩

theorem exists_map_some {α β : Type*} {f : α → Option β} {l : List α}
    (h : ∀ a ∈ l, (f a).isSome) : ∃ bs : List β, l.map f = bs.map some := by
  induction l with
  | nil => exact ⟨[], rfl⟩
  | cons a l ih =>
    obtain ⟨b, hb⟩ := Option.isSome_iff_exists.mp (h a List.mem_cons_self)
    obtain ⟨bs, hbs⟩ := ih fun a ha => h a (.tail _ ha)
    exact ⟨b :: bs, by simp [hb, hbs]⟩

/-- **What is read of a text**: the word of the numbers of its segments. -/
theorem intIpFromString_eq_some_iff {ipString : String} {ip : ℤ} :
    intIpFromString ipString = some ip ↔
      ∃ numbers, (segments ipString).map pyInt = numbers.map some ∧ ip = Words.pack 8 numbers := by
  have hfold : ∀ numbers : List ℤ,
      numbers.foldl (fun hi lo => (hi <<< (8 : ℤ)).lor lo) 0 = Words.pack 8 numbers.reverse :=
    fun numbers => by
      rw [Words.pack, List.foldr_reverse]
      rfl
  rw [intIpFromString, Option.bind_eq_bind, Option.bind_eq_some_iff]
  constructor
  · rintro ⟨numbers, hread, hip⟩
    refine ⟨numbers.reverse, ?_, by simpa [hfold] using hip.symm⟩
    have := mapM_eq_some_iff.mp hread
    rw [List.map_reverse, ← segments] at this
    rw [List.map_reverse, ← this, List.reverse_reverse]
  · rintro ⟨numbers, hread, rfl⟩
    refine ⟨numbers.reverse, mapM_eq_some_iff.mpr ?_, by simp [hfold]⟩
    rw [List.map_reverse, List.map_reverse, ← segments, hread]

/-- A text is read where each of its segments is. -/
theorem intIpFromString_isSome_iff {ipString : String} :
    (intIpFromString ipString).isSome ↔
      ∀ segment ∈ segments ipString, (pyInt segment).isSome := by
  rw [Option.isSome_iff_exists]
  constructor
  · rintro ⟨ip, hip⟩ segment hmem
    obtain ⟨numbers, hread, -⟩ := intIpFromString_eq_some_iff.mp hip
    have hsome := List.mem_map_of_mem (f := pyInt) hmem
    rw [hread] at hsome
    obtain ⟨n, -, hn⟩ := List.mem_map.mp hsome
    simp [← hn]
  · intro hall
    obtain ⟨numbers, hread⟩ := exists_map_some hall
    exact ⟨_, intIpFromString_eq_some_iff.mpr ⟨numbers, hread, rfl⟩⟩

namespace IsDottedQuad

variable {ipString : String}

/-- The octets of a dotted quad. -/
theorem octet_lt (h : IsDottedQuad ipString) :
    ∀ n ∈ (segments ipString).map Decimal.value, n < 2 ^ 8 := by
  intro n hn
  obtain ⟨segment, hmem, rfl⟩ := List.mem_map.mp hn
  exact (h.octets segment hmem).value_lt

/-- **A dotted quad is read as the word that has its octets as digits.** -/
theorem intIpFromString_eq (h : IsDottedQuad ipString) :
    intIpFromString ipString = some (octetWord ipString : ℤ) := by
  rw [intIpFromString_eq_some_iff, octetWord, ← Words.pack_digits h.octet_lt]
  refine ⟨_, ?_, rfl⟩
  rw [List.map_map, List.map_map]
  refine List.map_congr_left fun segment hmem => ?_
  exact pyInt_of_isNumber (h.octets segment hmem).toIsNumber (h.octets segment hmem).length_le

/-- It has 32 bits. -/
theorem octetWord_lt (h : IsDottedQuad ipString) : octetWord ipString < 2 ^ 32 := by
  have hlt := Nat.ofDigits_lt_base_pow_length (by norm_num) h.octet_lt
  rw [List.length_map, h.length_eq] at hlt
  norm_num at hlt
  simpa [octetWord] using hlt

/-- Each octet has eight of them. -/
theorem octetWord_octet (h : IsDottedQuad ipString) {i : ℕ} {segment : List Char}
    (hi : (segments ipString)[i]? = some segment) :
    octetWord ipString / 2 ^ (8 * i) % 2 ^ 8 = Decimal.value segment := by
  rw [octetWord, pow_mul]
  exact Words.ofDigits_div_mod h.octet_lt (by simp [hi])

end IsDottedQuad

/-! ## The text of an address -/

/-- **A canonical dotted quad**: four decimal octets without leading zeros. -/
structure IsCanonicalQuad (ipString : String) : Prop where
  length_eq : (segments ipString).length = 4
  octets : ∀ segment ∈ segments ipString,
    Decimal.IsCanonical segment ∧ Decimal.value segment < 2 ^ 8

instance (ipString : String) : Decidable (IsCanonicalQuad ipString) :=
  decidable_of_iff ((segments ipString).length = 4 ∧ (segments ipString).all (fun segment =>
      decide (Decimal.IsCanonical segment ∧ Decimal.value segment < 2 ^ 8)) = true)
    ⟨fun h => ⟨h.1, by simpa using h.2⟩, fun h => ⟨h.length_eq, by simpa using h.octets⟩⟩

/-- A canonical dotted quad is one: its octets have three digits at most. -/
theorem IsCanonicalQuad.isDottedQuad {ipString : String} (h : IsCanonicalQuad ipString) :
    IsDottedQuad ipString := by
  refine ⟨h.length_eq, fun segment hmem => ?_⟩
  obtain ⟨hcanonical, hlt⟩ := h.octets segment hmem
  have hlen : segment.length ≤ 3 :=
    Decimal.length_le_of_value_lt hcanonical (by omega) (by omega)
  exact ⟨hcanonical.toIsNumber, by unfold maxStrDigits; omega, hlt⟩

/-- A text is its segments with dots between them. -/
theorem segments_injective {s t : String} (h : segments s = segments t) : s = t := by
  have hjoin : ∀ u : String, ['.'].intercalate (segments u) = u.toList := fun u =>
    List.intercalate_splitOn '.'
  rw [← String.toList_inj, ← hjoin s, ← hjoin t, h]

/-- **What is printed**: the digits of the word, each as a decimal number. -/
theorem segments_intIpToString (n : ℕ) :
    segments (intIpToString n) = (Words.unpack 8 4 n).map (Nat.toDigits 10) := by
  have hoctet : ∀ shift : ℕ, ((n : ℤ) >>> shift).land 0xFF = ((n / 2 ^ shift % 2 ^ 8 : ℕ) : ℤ) := by
    intro shift
    have hand : ((n >>> shift) &&& 0xFF) = n / 2 ^ shift % 2 ^ 8 := by
      rw [Nat.shiftRight_eq_div_pow, ← Nat.and_two_pow_sub_one_eq_mod]
    rw [← hand]
    rfl
  have hprinted : ∀ m : ℕ, (toString (m : ℤ)).toList = Nat.toDigits 10 m := fun m => by
    rw [← Nat.toList_repr]
    rfl
  rw [segments, intIpToString, String.toList_intercalate, List.map_map]
  simp only [Function.comp_def, hoctet, hprinted]
  exact List.splitOn_intercalate '.'
    (by
      intro segment hmem hdot
      obtain ⟨shift, -, rfl⟩ := List.mem_map.mp hmem
      cases (Decimal.isNumber_toDigits _).digits '.' hdot)
    (by simp)

/-- It is a canonical dotted quad. -/
theorem isCanonicalQuad_intIpToString (n : ℕ) : IsCanonicalQuad (intIpToString n) := by
  refine ⟨by simp [segments_intIpToString, Words.unpack], ?_⟩
  intro segment hmem
  rw [segments_intIpToString] at hmem
  obtain ⟨octet, hoctet, rfl⟩ := List.mem_map.mp hmem
  exact ⟨Decimal.isCanonical_toDigits octet, by simpa using Words.unpack_lt octet hoctet⟩

/-- **The text of an address is read as the address.** -/
theorem intIpFromString_intIpToString {n : ℕ} (h : n < 2 ^ 32) :
    intIpFromString (intIpToString n) = some (n : ℤ) := by
  rw [(isCanonicalQuad_intIpToString n).isDottedQuad.intIpFromString_eq, octetWord,
    segments_intIpToString, List.map_map]
  have hvalue : Decimal.value ∘ Nat.toDigits 10 = id := funext Decimal.value_toDigits
  rw [hvalue, List.map_id, Words.ofDigits_unpack, Nat.mod_eq_of_lt h]

/-- **The address of a canonical text is printed as the text.** -/
theorem intIpToString_octetWord {ipString : String} (h : IsCanonicalQuad ipString) :
    intIpToString (octetWord ipString) = ipString := by
  refine segments_injective ?_
  have hdigits := Words.unpack_ofDigits h.isDottedQuad.octet_lt
  rw [List.length_map, h.length_eq] at hdigits
  rw [segments_intIpToString, octetWord, hdigits, List.map_map]
  calc (segments ipString).map (Nat.toDigits 10 ∘ Decimal.value)
      = (segments ipString).map id :=
        List.map_congr_left fun segment hmem => Decimal.toDigits_value (h.octets segment hmem).1
    _ = segments ipString := List.map_id _

end PyLwip
