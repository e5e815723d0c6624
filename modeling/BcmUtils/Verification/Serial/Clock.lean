import BcmUtils.Model.SerialThreads

/-! # The clock of the serial port

The milliseconds of `CurrentTime` start again from zero after some 49 days. `ElapsedTime` is
right all the same. -/

namespace BcmUtils.SerialThreads

/-- `CurrentTime` rounds to the nearest millisecond. -/
theorem milliseconds_eq (tvSec tvNsec : ℕ) :
    milliseconds tvSec tvNsec =
      BitVec.ofNat 32 ((tvSec * 1000000000 + tvNsec + 500000) / 1000000) := by
  unfold milliseconds
  split_ifs with h
  · have hround : (tvSec * 1000000000 + tvNsec + 500000) / 1000000 =
        tvSec * 1000 + tvNsec / 1000000 + 1 := by omega
    rw [hround, BitVec.ofNat_add _ 1]
    rfl
  · have hround : (tvSec * 1000000000 + tvNsec + 500000) / 1000000 =
        tvSec * 1000 + tvNsec / 1000000 := by omega
    rw [hround]

/-- Both branches of `ElapsedTime` take the difference modulo the word. -/
theorem timeSince_eq (startTime time : BitVec 32) : timeSince startTime time = time - startTime := by
  unfold timeSince
  split_ifs
  · rfl
  · bv_omega

theorem toNat_ofNat_sub {m m' : ℕ} (hle : m ≤ m') (hlt : m' - m < 2 ^ 32) :
    (BitVec.ofNat 32 m' - BitVec.ofNat 32 m).toNat = m' - m := by
  simp only [BitVec.toNat_sub, BitVec.toNat_ofNat]
  omega

/-- The time between two readings of the clock less than some 49 days apart is right to within
one millisecond, wherever the counter starts again. -/
theorem elapsed_time_exact (tvSec tvNsec tvSec' tvNsec' : ℕ)
    (hle : tvSec * 1000000000 + tvNsec ≤ tvSec' * 1000000000 + tvNsec')
    (hlt : tvSec' * 1000000000 + tvNsec' <
      tvSec * 1000000000 + tvNsec + (2 ^ 32 - 1) * 1000000) :
    |((timeSince (milliseconds tvSec tvNsec) (milliseconds tvSec' tvNsec')).toNat : ℤ) * 1000000 -
      ((tvSec' * 1000000000 + tvNsec' : ℕ) - (tvSec * 1000000000 + tvNsec : ℕ) : ℤ)| <
        1000000 := by
  rw [timeSince_eq, milliseconds_eq, milliseconds_eq, toNat_ofNat_sub (by omega) (by omega), abs_lt]
  omega

theorem elapsed_time_exact_wrap :
    |((timeSince (milliseconds 4294967 295000000) (milliseconds 4294967 796000000)).toNat : ℤ) *
      1000000 - 501000000| < 1000000 := by
  simpa using elapsed_time_exact 4294967 295000000 4294967 796000000 (by decide) (by decide)

end BcmUtils.SerialThreads
