import Mathlib.Data.Rat.Floor
import Mathlib.Tactic.Linarith
import Mathlib.Tactic.Positivity
import Stored.Mtab.Scan

/-!
# The percent expression

`ST_check_mtab` computes the free percent from two products of unsigned 64-bit integers, which
wrap. With the two double operations read as exact arithmetic, the expression is the share of the
available bytes exactly if the total does not wrap to zero and the two products lose multiples of
`2 ^ 64` in their own ratio.
-/

namespace Stored.Mtab

/-- The block counts are in the order in which `statvfs` documents them. -/
structure Statvfs.Consistent (s : Statvfs) : Prop where
  blocks : 0 < s.fBlocks
  bsize : 0 < s.fBsize
  bavail : s.fBavail ≤ s.fBfree
  bfree : s.fBfree ≤ s.fBlocks

/-- The bytes in use. -/
def Statvfs.used (s : Statvfs) : ℕ := (s.fBlocks.toNat - s.fBfree.toNat) * s.fBsize.toNat

/-- The bytes that an unprivileged user can have. -/
def Statvfs.available (s : Statvfs) : ℕ := s.fBavail.toNat * s.fBsize.toNat

def Statvfs.share (s : Statvfs) : ℚ := 100 * s.available / (s.used + s.available)

/-- `(s.f_blocks - (s.f_bfree - s.f_bavail)) * s.f_bsize` -/
def wrappedTotal (s : Statvfs) : UInt64 := (s.fBlocks - (s.fBfree - s.fBavail)) * s.fBsize

/-- `s.f_bavail * s.f_bsize` -/
def wrappedAvailable (s : Statvfs) : UInt64 := s.fBavail * s.fBsize

/-- The percent before its conversion to `int`, the double operations being exact; no value is a
division by zero. -/
def percentExpr (s : Statvfs) : Option ℚ :=
  if wrappedTotal s = 0 then none
  else some (100 / (wrappedTotal s).toNat * (wrappedAvailable s).toNat)

/-- The expression never divides by zero and gives the share of the available bytes, so that the
percent is one and a mount is listed by the floor of its share. -/
structure PercentExact (s : Statvfs) : Prop where
  value : percentExpr s = some s.share
  bounds : 0 ≤ (freePercent exactPercent s).toInt ∧ (freePercent exactPercent s).toInt ≤ 100
  listed : ∀ noticeLevel : Int32,
    (listedPercent exactPercent noticeLevel (some s)).isSome ↔ ⌊s.share⌋ ≤ noticeLevel.toInt

/-- The total is not a multiple of `2 ^ 64`, and what the two products lose is in their ratio. -/
def WrapsInRatio (s : Statvfs) : Prop :=
  (s.used + s.available) % 2 ^ 64 ≠ 0 ∧
    s.available / 2 ^ 64 * (s.used + s.available) =
      (s.used + s.available) / 2 ^ 64 * s.available

instance (s : Statvfs) : Decidable (WrapsInRatio s) := inferInstanceAs (Decidable (_ ∧ _))

/-- Two remainders are in the ratio of their numbers exactly if the quotients are. -/
theorem mod_mul_eq_iff {m : ℕ} (hm : 0 < m) (n d : ℕ) :
    n % m * d = n * (d % m) ↔ n / m * d = d / m * n := by
  have hn : m * (n / m * d) + n % m * d = n * d := by
    rw [← Nat.mul_assoc, ← Nat.add_mul, Nat.div_add_mod]
  have hd : m * (d / m * n) + n * (d % m) = n * d := by
    calc m * (d / m * n) + n * (d % m) = n * (m * (d / m) + d % m) := by ring
      _ = n * d := by rw [Nat.div_add_mod]
  constructor
  · intro hmod
    apply Nat.eq_of_mul_eq_mul_left hm
    omega
  · intro hdiv
    rw [hdiv] at hn
    omega

theorem wrappedAvailable_toNat (s : Statvfs) :
    (wrappedAvailable s).toNat = s.available % 2 ^ 64 := UInt64.toNat_mul ..

theorem wrappedTotal_toNat {s : Statvfs} (hs : s.Consistent) :
    (wrappedTotal s).toNat = (s.used + s.available) % 2 ^ 64 := by
  have hreserved : (s.fBfree - s.fBavail).toNat = s.fBfree.toNat - s.fBavail.toNat :=
    UInt64.toNat_sub_of_le _ _ hs.bavail
  have hbavail : s.fBavail.toNat ≤ s.fBfree.toNat := UInt64.le_iff_toNat_le.mp hs.bavail
  have hbfree : s.fBfree.toNat ≤ s.fBlocks.toNat := UInt64.le_iff_toNat_le.mp hs.bfree
  have hle : s.fBfree - s.fBavail ≤ s.fBlocks := by
    rw [UInt64.le_iff_toNat_le, hreserved]
    omega
  have hblocks : s.fBlocks.toNat - (s.fBfree.toNat - s.fBavail.toNat) =
      (s.fBlocks.toNat - s.fBfree.toNat) + s.fBavail.toNat := by omega
  calc
    _ = (s.fBlocks - (s.fBfree - s.fBavail)).toNat * s.fBsize.toNat % 2 ^ 64 :=
      UInt64.toNat_mul ..
    _ = ((s.fBlocks.toNat - s.fBfree.toNat) + s.fBavail.toNat) * s.fBsize.toNat % 2 ^ 64 := by
      rw [UInt64.toNat_sub_of_le _ _ hle, hreserved, hblocks]
    _ = (s.used + s.available) % 2 ^ 64 := by
      rw [Nat.add_mul]
      rfl

theorem wrappedTotal_eq_zero_iff {s : Statvfs} (hs : s.Consistent) :
    wrappedTotal s = 0 ↔ (s.used + s.available) % 2 ^ 64 = 0 := by
  rw [← wrappedTotal_toNat hs, ← UInt64.toNat_inj]
  rfl

theorem share_nonneg (s : Statvfs) : 0 ≤ s.share := by
  unfold Statvfs.share
  positivity

theorem share_le (s : Statvfs) : s.share ≤ 100 := by
  have hused : (0 : ℚ) ≤ s.used := Nat.cast_nonneg _
  have havailable : (0 : ℚ) ≤ s.available := Nat.cast_nonneg _
  unfold Statvfs.share
  apply div_le_of_le_mul₀ (add_nonneg hused havailable) (by norm_num)
  linarith

theorem floor_share_bounds (s : Statvfs) : 0 ≤ ⌊s.share⌋ ∧ ⌊s.share⌋ ≤ 100 := by
  constructor
  · exact Int.floor_nonneg.mpr (share_nonneg s)
  · apply Int.floor_le_iff.mpr
    exact (share_le s).trans_lt (by norm_num)

/-- The quotient of two remainders is the share exactly if they are in the ratio of the numbers. -/
theorem quotient_eq_share_iff {s : Statvfs} (hzero : (s.used + s.available) % 2 ^ 64 ≠ 0) :
    (100 : ℚ) / ((s.used + s.available) % 2 ^ 64 : ℕ) * (s.available % 2 ^ 64 : ℕ) = s.share ↔
      s.available / 2 ^ 64 * (s.used + s.available) =
        (s.used + s.available) / 2 ^ 64 * s.available := by
  have hmod : (((s.used + s.available) % 2 ^ 64 : ℕ) : ℚ) ≠ 0 := Nat.cast_ne_zero.mpr hzero
  have htotal : ((s.used + s.available : ℕ) : ℚ) ≠ 0 := by
    apply Nat.cast_ne_zero.mpr
    intro h
    exact hzero (by rw [h, Nat.zero_mod])
  rw [← mod_mul_eq_iff (by norm_num : 0 < 2 ^ 64), ← Nat.cast_inj (R := ℚ), Statvfs.share,
    ← Nat.cast_add, div_mul_eq_mul_div, div_eq_div_iff hmod htotal]
  push_cast
  constructor
  · intro h
    linarith
  · intro h
    linarith

theorem percentExpr_eq_share_iff {s : Statvfs} (hs : s.Consistent) :
    percentExpr s = some s.share ↔ WrapsInRatio s := by
  have hiff := wrappedTotal_eq_zero_iff hs
  by_cases hzero : (s.used + s.available) % 2 ^ 64 = 0
  · rw [percentExpr, if_pos (hiff.mpr hzero)]
    exact ⟨nofun, fun h ↦ absurd hzero h.1⟩
  · rw [percentExpr, if_neg (mt hiff.mp hzero), wrappedTotal_toNat hs, wrappedAvailable_toNat,
      Option.some_inj, quotient_eq_share_iff hzero]
    exact (and_iff_right hzero).symm

theorem freePercent_exactPercent {s : Statvfs} {q : ℚ} (h : percentExpr s = some q) :
    freePercent exactPercent s = Int32.ofInt ⌊q⌋ := by
  unfold percentExpr at h
  split_ifs at h
  obtain rfl := Option.some.inj h
  have hfloor : ⌊(100 / (wrappedTotal s).toNat * (wrappedAvailable s).toNat : ℚ)⌋ =
      ((100 * (wrappedAvailable s).toNat / (wrappedTotal s).toNat : ℕ) : ℤ) := by
    rw [div_mul_eq_mul_div]
    exact_mod_cast Rat.floor_natCast_div_natCast (100 * (wrappedAvailable s).toNat)
      (wrappedTotal s).toNat
  rw [hfloor]
  rfl

/-- A share is converted to `int` without loss. -/
theorem freePercent_toInt {s : Statvfs} (h : percentExpr s = some s.share) :
    (freePercent exactPercent s).toInt = ⌊s.share⌋ := by
  have hbounds := floor_share_bounds s
  rw [freePercent_exactPercent h, Int32.toInt_ofInt_of_le] <;> omega

theorem percentExact_of_value {s : Statvfs} (hblocks : 0 < s.fBlocks)
    (h : percentExpr s = some s.share) : PercentExact s where
  value := h
  bounds := by
    rw [freePercent_toInt h]
    exact floor_share_bounds s
  listed noticeLevel := by
    rw [listedPercent, if_pos hblocks]
    by_cases hnotice : noticeLevel ≥ freePercent exactPercent s
    · have hle := Int32.le_iff_toInt_le.mp hnotice
      rw [freePercent_toInt h] at hle
      simp [hnotice, hle]
    · have hlt := mt Int32.le_iff_toInt_le.mpr hnotice
      rw [freePercent_toInt h] at hlt
      simp [hnotice, hlt]

/-- For every consistent answer of `statvfs`, the expression is exact if and only if the total is
not a multiple of `2 ^ 64` and the products lose multiples of `2 ^ 64` in their ratio. -/
theorem percentExact_iff {s : Statvfs} (hs : s.Consistent) : PercentExact s ↔ WrapsInRatio s := by
  rw [← percentExpr_eq_share_iff hs]
  constructor
  · exact PercentExact.value
  · exact percentExact_of_value hs.blocks

/-- Sizes below `2 ^ 64` bytes are exact, unless all free blocks are reserved and no block is
used. -/
theorem wrapsInRatio_of_lt {s : Statvfs} (hpos : 0 < s.used + s.available)
    (hlt : s.used + s.available < 2 ^ 64) : WrapsInRatio s := by
  have havailable : s.available < 2 ^ 64 := (Nat.le_add_left _ _).trans_lt hlt
  rw [WrapsInRatio, Nat.mod_eq_of_lt hlt, Nat.div_eq_of_lt hlt, Nat.div_eq_of_lt havailable]
  exact ⟨hpos.ne', by rw [Nat.zero_mul, Nat.zero_mul]⟩

/-- 100 blocks, of which 95 are used. -/
theorem percentExact_nearlyFull : PercentExact ⟨4096, 100, 5, 5⟩ :=
  (percentExact_iff ⟨by decide, by decide, by decide, by decide⟩).mpr (by decide)

/-- 100 blocks, all of them free and reserved. -/
def reservedAnswer : Statvfs := ⟨4096, 100, 100, 0⟩

/-- The divisor is zero where every block is free and reserved. -/
theorem not_percentExact_reservedAnswer :
    reservedAnswer.Consistent ∧ ¬PercentExact reservedAnswer := by
  have hs : reservedAnswer.Consistent := ⟨by decide, by decide, by decide, by decide⟩
  have hzero : wrappedTotal reservedAnswer = 0 := by decide
  refine ⟨hs, fun h ↦ ?_⟩
  have hvalue := h.value
  rw [percentExpr, if_pos hzero] at hvalue
  exact nomatch hvalue

end Stored.Mtab
