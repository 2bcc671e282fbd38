import Mathlib.Data.List.Basic
import Mathlib.Tactic.Common

/-!
# Octets.Hex — bytes in hexadecimal digits

A text is the list of its code units.  A digit may be in either case.
-/

namespace Octets

/-- `[0-9a-fA-F]` and what it counts for. -/
def hexValue (c : ℕ) : Option ℕ :=
  if 0x30 ≤ c ∧ c ≤ 0x39 then some (c - 0x30)
  else if 0x41 ≤ c ∧ c ≤ 0x46 then some (c - 0x37)
  else if 0x61 ≤ c ∧ c ≤ 0x66 then some (c - 0x57)
  else none

/-- Two digits of a byte, each in whatever case it is written. -/
structure HexOf (byte : UInt8) (high low : ℕ) : Prop where
  high : hexValue high = some (byte.toNat / 16)
  low : hexValue low = some (byte.toNat % 16)

theorem hexValue_bounds {c n : ℕ} (h : hexValue c = some n) :
    0x30 ≤ c ∧ c ≤ 0x66 ∧ c ≠ 0x3D ∧ c ≠ 0x3F ∧ c ≠ 0x5F ∧ n < 16 := by
  unfold hexValue at h
  split_ifs at h with h1 h2 h3
  all_goals
    obtain rfl := Option.some.inj h
    omega

theorem HexOf.byte {byte : UInt8} {high low : ℕ} (h : HexOf byte high low) :
    ∃ a b, hexValue high = some a ∧ hexValue low = some b ∧ UInt8.ofNat (16 * a + b) = byte := by
  refine ⟨_, _, h.high, h.low, ?_⟩
  rw [Nat.div_add_mod, UInt8.ofNat_toNat]

end Octets
