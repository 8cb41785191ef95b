import Mathlib
import Bourse.Number.Decimal

/-!
# Bits and parts of a double

The parts that the bits of a double unpack to are canonical (`canonical_unpack`), canonical parts
survive packing (`unpack_pack`), and a double is what its parts pack to (`ofParts_parts`). Sign and
magnitude of a finite double are read off its parts.
-/

namespace Bourse.Number

open Float.Model Float.Model.UnpackedFloat

/-- Parts that are those of some double: a significand of fifty-three bits, with fewer only at the
least exponent. -/
def Canonical : UnpackedFloat → Prop
  | .finite _ m e _ => m < 2 ^ 53 ∧ -1074 ≤ e ∧ e ≤ 971 ∧ (2 ^ 52 ≤ m ∨ e = -1074)
  | _ => True

theorem toNat_append {k l : ℕ} (s : BitVec k) (t : BitVec l) :
    (s ++ t).toNat = s.toNat * 2 ^ l + t.toNat := by
  rw [BitVec.toNat_append, Nat.shiftLeft_eq, Nat.mul_comm, Nat.two_pow_add_eq_or_of_lt t.isLt]

theorem toNat_packComponents (s : Sign) (e : BitVec 11) (m : BitVec 52) :
    (packComponents Format.binary64 s e m).toNat
      = s.toBitVec.toNat * 2 ^ 63 + e.toNat * 2 ^ 52 + m.toNat := by
  simp only [packComponents, toNat_append]
  omega

theorem log2_eq {m k : ℕ} (hl : 2 ^ k ≤ m) (hu : m < 2 ^ (k + 1)) : m.log2 = k :=
  (Nat.log2_eq_iff (Nat.two_pow_pos k |>.trans_le hl).ne').2 ⟨hl, hu⟩

theorem pack_normal (s : Sign) {m : ℕ} {e : ℤ} (h : 0 < m) (hl : 2 ^ 52 ≤ m) (hu : m < 2 ^ 53)
    (he : -1074 ≤ e) (he' : e ≤ 971) :
    UnpackedFloat.pack Format.binary64 (.finite s m e h)
      = packComponents Format.binary64 s (BitVec.ofNat 11 (e + 1075).toNat)
          (BitVec.ofNat 52 m) := by
  have hb : e + Format.binary64.exponentBias + (52 : ℕ) = e + 1075 := by
    simp only [Format.exponentBias]
    omega
  simp only [UnpackedFloat.pack, hb, log2_eq hl hu, Format.mantissaBits]
  rw [if_neg (by omega), if_pos trivial]

theorem pack_subnormal (s : Sign) {m : ℕ} (h : 0 < m) (hu : m < 2 ^ 52) :
    UnpackedFloat.pack Format.binary64 (.finite s m (-1074) h)
      = packComponents Format.binary64 s 0#11 (BitVec.ofNat 52 m) := by
  have hb : -1074 + (Format.binary64.exponentBias : ℤ) + (52 : ℕ) = 1 := by
    simp only [Format.exponentBias]
    omega
  have hlog : m.log2 < 52 := (Nat.log2_lt (Nat.pos_iff_ne_zero.1 h)).2 hu
  simp only [UnpackedFloat.pack, hb, Format.mantissaBits]
  rw [if_neg (by omega), if_neg (by omega)]

theorem unpack_packComponents (s : Sign) (e : BitVec 11) (m : BitVec 52) :
    UnpackedFloat.unpack Format.binary64 (packComponents Format.binary64 s e m) =
      if e = -1#11 then (if m = 0#52 then .infinity s else .notANumber)
      else if e = 0#11 then
        if h : m = 0#52 then .zero s
        else .finite s m.toNat (-1074) (Nat.pos_of_ne_zero fun h' => h (BitVec.eq_of_toNat_eq h'))
      else .finite s (2 ^ 52 + m.toNat) (e.toNat - 1075) 
        (Nat.add_pos_left (Nat.two_pow_pos 52) _) := by
  have hone : (1#1 ++ m).toNat = 2 ^ 52 + m.toNat := by
    rw [toNat_append]
    rfl
  have hbias : ((Format.binary64.exponentBias : ℤ) + (52 : ℕ)) = 1075 := rfl
  simp only [UnpackedFloat.unpack, unpackMantissa_packComponents, unpackExponent_packComponents,
    unpackSign_packComponents, Sign.ofBitVec_toBitVec, hone, hbias]
  split_ifs with h1 h2 h3 <;> try rfl
  · subst h3
    rfl

/-- Every pattern of bits is made of its three fields. -/
theorem exists_packComponents (b : BitVec 64) :
    ∃ (s : Sign) (e : BitVec 11) (m : BitVec 52), b = packComponents Format.binary64 s e m :=
  ⟨_, _, _,
    (@packComponents_unpackSign_unpackExponent_unpackMantissa Format.binary64 b).symm⟩

theorem canonical_unpack (b : BitVec 64) : Canonical (UnpackedFloat.unpack Format.binary64 b) := by
  obtain ⟨s, e, m, rfl⟩ := exists_packComponents b
  have hm := m.isLt
  have he := e.isLt
  rw [unpack_packComponents]
  split_ifs with h1 h2 h3 h4
  · trivial
  · trivial
  · trivial
  · exact ⟨by omega, by omega, by omega, .inr rfl⟩
  · have h1' : e.toNat ≠ 2047 := fun h => h1 (BitVec.eq_of_toNat_eq h)
    have h3' : e.toNat ≠ 0 := fun h => h3 (BitVec.eq_of_toNat_eq h)
    simp only [Canonical]
    omega

theorem unpack_pack {u : UnpackedFloat} (h : Canonical u) :
    UnpackedFloat.unpack Format.binary64 (UnpackedFloat.pack Format.binary64 u) = u := by
  cases u with
  | notANumber => rfl
  | infinity s => cases s <;> rfl
  | zero s => cases s <;> rfl
  | finite s m e hm =>
    obtain ⟨hu, he, he', hl⟩ := h
    by_cases hn : 2 ^ 52 ≤ m
    · rw [pack_normal s hm hn hu he he', unpack_packComponents]
      have h1 : (BitVec.ofNat 11 (e + 1075).toNat).toNat = (e + 1075).toNat := by
        rw [BitVec.toNat_ofNat]
        omega
      have h2 : (BitVec.ofNat 52 m).toNat = m - 2 ^ 52 := by
        rw [BitVec.toNat_ofNat]
        omega
      rw [if_neg, if_neg]
      · congr 1
        · omega
        · omega
      · intro h
        rw [h] at h1
        change 0 = _ at h1
        omega
      · intro h
        rw [h] at h1
        change 2047 = _ at h1
        omega
    · obtain rfl : e = -1074 := by omega
      have h2 : (BitVec.ofNat 52 m).toNat = m := by
        rw [BitVec.toNat_ofNat]
        omega
      rw [pack_subnormal s hm (by omega), unpack_packComponents, if_neg (by decide),
        if_pos rfl, dif_neg]
      · congr 1
      · intro h
        rw [h] at h2
        change 0 = _ at h2
        omega

def parts (x : Float) : UnpackedFloat :=
  x.toModel.unpack

def ofParts (u : UnpackedFloat) : Float :=
  .ofModel (.pack u)

theorem ofParts_parts (x : Float) : ofParts (parts x) = x := by
  apply Float.toBits_inj.1
  change UInt64.ofBitVec (UnpackedFloat.pack Format.binary64 (UnpackedFloat.unpack Format.binary64
    x.toModel.toBits.toBitVec)) = x.toModel.toBits
  rw [pack_unpack_of_valid x.toModel.valid]

theorem parts_ofParts {u : UnpackedFloat} (h : Canonical u) : parts (ofParts u) = u :=
  unpack_pack h

theorem canonical_parts (x : Float) : Canonical (parts x) :=
  canonical_unpack _

theorem canonical_abs {u : UnpackedFloat} (h : Canonical u) : Canonical u.abs := by
  cases u <;> exact h

theorem isFinite_eq (x : Float) : x.isFinite = (parts x).isFinite := rfl

theorem abs_eq (x : Float) : x.abs = ofParts (parts x).abs := rfl

theorem neg_eq (x : Float) : -x = ofParts (parts x).neg := rfl

/-- The fields of a double. -/
theorem exists_fields (x : Float) :
    ∃ (s : Sign) (e : BitVec 11) (m : BitVec 52),
      parts x = UnpackedFloat.unpack Format.binary64 (packComponents Format.binary64 s e m) ∧
      x.toBits.toNat = s.toBitVec.toNat * 2 ^ 63 + e.toNat * 2 ^ 52 + m.toNat := by
  obtain ⟨s, e, m, h⟩ := exists_packComponents x.toBits.toBitVec
  refine ⟨s, e, m, ?_, ?_⟩
  · rw [← h]
    rfl
  · rw [← toNat_packComponents, ← h]
    rfl

/-- The sign bit of a finite double is the sign of its parts. -/
theorem parts_eq_sign {x : Float} (h : x.isFinite) :
    parts x = if isNegative x then (parts x).abs.neg else (parts x).abs := by
  obtain ⟨s, e, m, hp, hb⟩ := exists_fields x
  have hm := m.isLt
  have he := e.isLt
  have hs : isNegative x = (s == .negative) := by
    rw [isNegative, Bool.eq_iff_iff, decide_eq_true_iff, ge_iff_le, UInt64.le_iff_toNat_le, hb]
    cases s
    · exact ⟨fun _ => rfl, fun _ => by change 2 ^ 63 ≤ 1 * 2 ^ 63 + _ + _; omega⟩
    · refine ⟨fun hle => ?_, fun h => nomatch h⟩
      change 2 ^ 63 ≤ 0 * 2 ^ 63 + _ + _ at hle
      omega
  rw [isFinite_eq, hp, unpack_packComponents] at h
  rw [hp, unpack_packComponents]
  cases s
  · change isNegative x = true at hs
    rw [if_pos hs]
    split_ifs at h ⊢ <;> rfl
  · change isNegative x = false at hs
    rw [if_neg (c := isNegative x = true) (by rw [hs]; exact Bool.false_ne_true)]
    split_ifs at h ⊢ <;> rfl

/-- A finite double is its magnitude under its sign. -/
theorem sign_abs {x : Float} (h : x.isFinite) : (if isNegative x then -x.abs else x.abs) = x := by
  have hp := parts_eq_sign h
  rw [neg_eq, abs_eq, parts_ofParts (canonical_abs (canonical_parts x))]
  conv_rhs => rw [← ofParts_parts x, hp]
  split_ifs <;> rfl

theorem binaryParts_eq {x : Float} {s : Sign} {m : ℕ} {e : ℤ} {hm : 0 < m}
    (h : parts x = .finite s m e hm) : binaryParts x = (m, e) := by
  obtain ⟨s', e', m', hp, hb⟩ := exists_fields x
  have hml := m'.isLt
  have hel := e'.isLt
  have hs := s'.toBitVec.isLt
  have hfield : x.toBits.toNat / leadingBit % 0x800 = e'.toNat := by
    rw [hb, leadingBit]
    omega
  have hfraction : x.toBits.toNat % leadingBit = m'.toNat := by
    rw [hb, leadingBit]
    omega
  simp only [binaryParts, hfield, hfraction]
  rw [hp, unpack_packComponents] at h
  split_ifs at h with h1 h2 h3 h4
  · obtain ⟨-, rfl, rfl⟩ := UnpackedFloat.finite.inj h
    rw [h3]
    rfl
  · obtain ⟨-, rfl, rfl⟩ := UnpackedFloat.finite.inj h
    have h3' : e'.toNat ≠ 0 := fun h => h3 (BitVec.eq_of_toNat_eq h)
    rw [if_neg h3']
    rfl

theorem binaryParts_zero {x : Float} {s : Sign} (h : parts x = .zero s) :
    (binaryParts x).1 = 0 := by
  obtain ⟨s', e', m', hp, hb⟩ := exists_fields x
  have hml := m'.isLt
  have hel := e'.isLt
  rw [hp, unpack_packComponents] at h
  split_ifs at h with h1 h2 h3 h4
  rw [h3, h4, BitVec.toNat_ofNat, BitVec.toNat_ofNat] at hb
  have hfield : x.toBits.toNat / leadingBit % 0x800 = 0 := by
    rw [hb, leadingBit]
    omega
  have hfraction : x.toBits.toNat % leadingBit = 0 := by
    rw [hb, leadingBit]
    omega
  simp only [binaryParts, hfield, hfraction, if_pos]

/-- Different doubles have different places in their total order. -/
theorem totalRank_inj {x y : Float} (h : totalRank x = totalRank y) : x = y := by
  refine Float.toBits_inj.1 (UInt64.toNat_inj.1 ?_)
  simp only [totalRank, isNegative, ge_iff_le, UInt64.le_iff_toNat_le, decide_eq_true_eq] at h
  have hsign : (0x8000000000000000 : UInt64).toNat = 0x8000000000000000 := rfl
  rw [hsign] at h
  split_ifs at h <;> omega

end Bourse.Number
