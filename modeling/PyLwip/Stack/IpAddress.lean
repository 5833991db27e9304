import PyLwip.Stack.Native
import PyLwip.Utility.AddressHelpers

/-!
# `IpV4Addr` of a text

The declared `c_uint32` keeps the integer modulo 2 ^ 32.
-/

namespace PyLwip

namespace IpV4Addr

/-- `IpV4Addr(ip_str)`, `none` where it raises `ValueError`. -/
def ofString (ipStr : String) : Option IpV4Addr :=
  (intIpFromString ipStr).map fun ip => ⟨UInt32.ofInt ip⟩

/-- `IpV4Addr(ip_str) if ip_str else None`: the empty text is no address. -/
def ofText (ipStr : Option String) : Option (Option IpV4Addr) :=
  match ipStr with
  | none => some none
  | some "" => some none
  | some ipStr => (ofString ipStr).map some

end IpV4Addr

/-! ## What is accepted -/

/-- `c_uint32` keeps an integer modulo 2 ^ 32. -/
theorem toNat_ofInt (x : ℤ) : (UInt32.ofInt x).toNat = (x % 2 ^ 32).toNat := by
  have hlt : (x % 2 ^ 32).toNat < 2 ^ 32 := by omega
  rw [UInt32.ofInt, UInt32.toNat_ofNat_of_lt' hlt]

namespace IsDottedQuad

variable {ipStr : String}

theorem ofString_eq (h : IsDottedQuad ipStr) :
    IpV4Addr.ofString ipStr = some ⟨UInt32.ofInt (octetWord ipStr : ℤ)⟩ := by
  rw [IpV4Addr.ofString, h.intIpFromString_eq, Option.map_some]

/-- The word of a dotted quad has 32 bits, so that it is kept as it is. -/
theorem toNat_octetWord (h : IsDottedQuad ipStr) :
    (UInt32.ofInt (octetWord ipStr : ℤ)).toNat = octetWord ipStr := by
  have hlt := h.octetWord_lt
  rw [toNat_ofInt]
  omega

end IsDottedQuad

/-- **What `IpV4Addr` accepts, and the address it is.** A text is accepted
exactly where `int` reads each of its segments, and the bits of the address
are those of the numbers, each shifted by eight more than the one before it,
below bit 32. A dotted quad is accepted; each of its octets has eight bits of
the address to itself, and nothing is lost. -/
theorem ip_v4_addr_exact (ipStr : String) :
    ((IpV4Addr.ofString ipStr).isSome ↔ ∀ segment ∈ segments ipStr, (pyInt segment).isSome) ∧
    (∀ ip, IpV4Addr.ofString ipStr = some ip → ∀ j, ip.addr.toNat.testBit j = true ↔
      j < 32 ∧ ∃ i n, (segments ipStr)[i]?.bind pyInt = some n ∧ 8 * i ≤ j ∧
        n.testBit (j - 8 * i) = true) ∧
    (IsDottedQuad ipStr → ∃ ip, IpV4Addr.ofString ipStr = some ip ∧
      intIpFromString ipStr = some (ip.addr.toNat : ℤ) ∧
      ∀ i segment, (segments ipStr)[i]? = some segment →
        ip.addr.toNat / 2 ^ (8 * i) % 2 ^ 8 = Decimal.value segment) := by
  refine ⟨?_, ?_, fun hquad => ?_⟩
  · rw [IpV4Addr.ofString, Option.isSome_map, intIpFromString_isSome_iff]
  · intro ip hip j
    obtain ⟨word, hword, rfl⟩ := Option.map_eq_some_iff.mp hip
    obtain ⟨numbers, hread, rfl⟩ := intIpFromString_eq_some_iff.mp hword
    have hat : ∀ i : ℕ, (segments ipStr)[i]?.bind pyInt = numbers[i]? := by
      intro i
      have := congrArg (fun l => l[i]?) hread
      simp only [List.getElem?_map] at this
      cases hseg : (segments ipStr)[i]? <;> cases hnum : numbers[i]? <;> simp_all
    rw [toNat_ofInt, Words.testBit_toNat_emod, Bool.and_eq_true, decide_eq_true_iff,
      Words.testBit_pack]
    simp only [hat]
  · refine ⟨_, hquad.ofString_eq, ?_, ?_⟩
    · rw [hquad.toNat_octetWord, hquad.intIpFromString_eq]
    · intro i segment hi
      rw [hquad.toNat_octetWord]
      exact hquad.octetWord_octet hi

theorem ip_v4_addr_exact_loopback :
    ∃ ip, IpV4Addr.ofString "127.3.2.1" = some ip ∧ ip.addr.toNat / 2 ^ 8 % 2 ^ 8 = 3 := by
  have hquad : IsDottedQuad "127.3.2.1" := by decide
  obtain ⟨ip, hip, -, hoctets⟩ := (ip_v4_addr_exact "127.3.2.1").2.2 hquad
  exact ⟨ip, hip, hoctets 1 ['3'] (by decide)⟩

/-- **More than dotted quads is accepted**: fewer octets and more, with the
last lost, and an octet above 255, with the excess in its neighbour. -/
theorem not_only_quads_accepted :
    (IpV4Addr.ofString "1.2.3").isSome ∧ ¬ IsDottedQuad "1.2.3" ∧
      IpV4Addr.ofString "1.0.0.0.5" = IpV4Addr.ofString "1.0.0.0" ∧
      IpV4Addr.ofString "257.0.0.0" = IpV4Addr.ofString "1.1.0.0" := by
  exact ⟨by decide, by decide, by decide, by decide⟩

end PyLwip
