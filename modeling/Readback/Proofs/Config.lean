import Readback.Config
import Readback.Proofs.Except

namespace Readback.Config

/-- What a configuration that is not refused has. -/
structure Valid (c : Config) : Prop where
  blockSize : Geometry.checkBlockSize c.blockSize.toNat = .ok ()
  maxBlocksPerOp : c.maxBlocksPerOp ≠ 0
  percentages : c.uniquePct.toNat + c.trimPct.toNat ≤ 100
  workers : c.workers ≠ 0
  reportInterval : c.reportInterval.isZero = false
  count : c.count ≠ some 0
  duration : c.duration.any Duration.isZero = false

theorem valid_of_validate {c : Config} (h : c.validate = .ok ()) : c.Valid := by
  obtain ⟨u, hb, h⟩ := bind_eq_ok h
  simp only [bind, Except.bind, throw, throwThe, MonadExceptOf.throw, pure, Except.pure] at h
  by_cases hm : c.maxBlocksPerOp = 0
  · simp [hm] at h
  by_cases hp : 100 < c.uniquePct.toNat + c.trimPct.toNat
  · simp [hm, hp] at h
  by_cases hw : c.workers = 0
  · simp [hm, hp, hw] at h
  cases hr : c.reportInterval.isZero with
  | true => simp [hm, hp, hw, hr] at h
  | false =>
  by_cases hc : c.count = some 0
  · simp [hm, hp, hw, hr, hc] at h
  cases hd : c.duration.any Duration.isZero with
  | true => simp [hm, hp, hw, hr, hc, hd] at h
  | false => exact ⟨mapError_eq_ok hb, hm, Nat.le_of_not_lt hp, hw, hr, hc, hd⟩

end Readback.Config
