import TrustlistCore.DataModel

namespace TrustlistCore.DataModel

open Library Unicode EventBus

def isUpper (point : CodePoint) : Bool :=
  0x41 ≤ point.val ∧ point.val ≤ 0x5A

theorem toNat_ofNat {n : ℕ} (h : (Char.ofNat n).toNat ≠ 0) : (Char.ofNat n).toNat = n := by
  by_cases hvalid : n.isValidChar
  · rw [Char.ofNat, dif_pos hvalid]
    rfl
  · rw [Char.ofNat, dif_neg hvalid] at h
    exact absurd rfl h

section Url
variable {Timestamp Jsonb : Type} {server : Server Timestamp Jsonb}

end Url

end TrustlistCore.DataModel
