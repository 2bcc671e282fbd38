import Mathlib.Data.List.Basic
import Mathlib.Tactic.Common

/-!
# Octets.Base64 — bytes in base 64

The decoder skips what is no character of the alphabet, and knows both alphabets.  The encoder
writes the padding.
-/

namespace Octets

/-- The character a sextet is written as. -/
def base64Digit (n : ℕ) : ℕ :=
  if n < 26 then 0x41 + n
  else if n < 52 then 0x61 + (n - 26)
  else if n < 62 then 0x30 + (n - 52)
  else if n = 62 then 0x2B
  else 0x2F

def base64Value (c : ℕ) : Option ℕ :=
  if 0x41 ≤ c ∧ c ≤ 0x5A then some (c - 0x41)
  else if 0x61 ≤ c ∧ c ≤ 0x7A then some (c - 0x61 + 26)
  else if 0x30 ≤ c ∧ c ≤ 0x39 then some (c - 0x30 + 52)
  else if c = 0x2B ∨ c = 0x2D then some 62
  else if c = 0x2F ∨ c = 0x5F then some 63
  else none

def PADDING : ℕ := 0x3D

/-- The bytes of sextets, four of them for every three. -/
def ofSextets : List ℕ → List UInt8
  | a :: b :: c :: d :: rest =>
    UInt8.ofNat (a * 4 + b / 16) :: UInt8.ofNat (b % 16 * 16 + c / 4) ::
      UInt8.ofNat (c % 4 * 64 + d) :: ofSextets rest
  | [a, b, c] => [UInt8.ofNat (a * 4 + b / 16), UInt8.ofNat (b % 16 * 16 + c / 4)]
  | [a, b] => [UInt8.ofNat (a * 4 + b / 16)]
  | _ => []

def decodeBase64 (text : List ℕ) : List UInt8 := ofSextets (text.filterMap base64Value)

def encodeBase64 : List UInt8 → List ℕ
  | a :: b :: c :: rest =>
    base64Digit (a.toNat / 4) :: base64Digit (a.toNat % 4 * 16 + b.toNat / 16) ::
      base64Digit (b.toNat % 16 * 4 + c.toNat / 64) :: base64Digit (c.toNat % 64) ::
        encodeBase64 rest
  | [a, b] =>
    [base64Digit (a.toNat / 4), base64Digit (a.toNat % 4 * 16 + b.toNat / 16),
      base64Digit (b.toNat % 16 * 4), PADDING]
  | [a] => [base64Digit (a.toNat / 4), base64Digit (a.toNat % 4 * 16), PADDING, PADDING]
  | [] => []

theorem base64Value_digit {n : ℕ} (h : n < 64) : base64Value (base64Digit n) = some n := by
  have hall : ∀ n : Fin 64, base64Value (base64Digit n) = some (n : ℕ) := by decide
  exact hall ⟨n, h⟩

theorem base64Digit_printable (n : ℕ) (h : n < 64) :
    0x2B ≤ base64Digit n ∧ base64Digit n ≤ 0x7A ∧ base64Digit n ≠ 0x3F := by
  have hall : ∀ n : Fin 64, 0x2B ≤ base64Digit n ∧ base64Digit n ≤ 0x7A ∧ base64Digit n ≠ 0x3F := by
    decide
  exact hall ⟨n, h⟩

/-- **What is encoded** is decoded to the same bytes. -/
theorem decodeBase64_encodeBase64 : ∀ bytes : List UInt8, decodeBase64 (encodeBase64 bytes) = bytes := by
  have hbyte : ∀ (n : ℕ) (byte : UInt8), n = byte.toNat → UInt8.ofNat n = byte := by
    rintro n byte rfl
    exact UInt8.ofNat_toNat
  have hlt : ∀ byte : UInt8, byte.toNat < 256 := fun byte => byte.toNat_lt
  intro bytes
  induction bytes using encodeBase64.induct with
  | case1 a b c rest ih =>
    have ha := hlt a
    have hb := hlt b
    have hc := hlt c
    unfold decodeBase64 at ih ⊢
    unfold encodeBase64
    rw [List.filterMap_cons_some (base64Value_digit (by omega)),
      List.filterMap_cons_some (base64Value_digit (by omega)),
      List.filterMap_cons_some (base64Value_digit (by omega)),
      List.filterMap_cons_some (base64Value_digit (by omega)), ofSextets, ih,
      hbyte _ a (by omega), hbyte _ b (by omega), hbyte _ c (by omega)]
  | case2 a b =>
    have ha := hlt a
    have hb := hlt b
    unfold decodeBase64 encodeBase64
    rw [List.filterMap_cons_some (base64Value_digit (by omega)),
      List.filterMap_cons_some (base64Value_digit (by omega)),
      List.filterMap_cons_some (base64Value_digit (by omega))]
    show [UInt8.ofNat _, UInt8.ofNat _] = _
    rw [hbyte _ a (by omega), hbyte _ b (by omega)]
  | case3 a =>
    have ha := hlt a
    unfold decodeBase64 encodeBase64
    rw [List.filterMap_cons_some (base64Value_digit (by omega)),
      List.filterMap_cons_some (base64Value_digit (by omega))]
    show [UInt8.ofNat _] = _
    rw [hbyte _ a (by omega)]
  | case4 => rfl

theorem mem_encodeBase64 : ∀ {bytes : List UInt8}, ∀ c ∈ encodeBase64 bytes,
    0x2B ≤ c ∧ c ≤ 0x7A ∧ c ≠ 0x3F := by
  have hlt : ∀ byte : UInt8, byte.toNat < 256 := fun byte => byte.toNat_lt
  have hpadding : 0x2B ≤ PADDING ∧ PADDING ≤ 0x7A ∧ PADDING ≠ 0x3F := by decide
  intro bytes
  induction bytes using encodeBase64.induct with
  | case1 a b c rest ih =>
    have ha := hlt a
    have hb := hlt b
    have hc := hlt c
    intro d hd
    unfold encodeBase64 at hd
    simp only [List.mem_cons] at hd
    rcases hd with rfl | rfl | rfl | rfl | hd
    · exact base64Digit_printable _ (by omega)
    · exact base64Digit_printable _ (by omega)
    · exact base64Digit_printable _ (by omega)
    · exact base64Digit_printable _ (by omega)
    · exact ih d hd
  | case2 a b =>
    have ha := hlt a
    have hb := hlt b
    intro d hd
    unfold encodeBase64 at hd
    simp only [List.mem_cons, List.not_mem_nil, or_false] at hd
    rcases hd with rfl | rfl | rfl | rfl
    · exact base64Digit_printable _ (by omega)
    · exact base64Digit_printable _ (by omega)
    · exact base64Digit_printable _ (by omega)
    · exact hpadding
  | case3 a =>
    have ha := hlt a
    intro d hd
    unfold encodeBase64 at hd
    simp only [List.mem_cons, List.not_mem_nil, or_false] at hd
    rcases hd with rfl | rfl | rfl | rfl
    · exact base64Digit_printable _ (by omega)
    · exact base64Digit_printable _ (by omega)
    · exact hpadding
    · exact hpadding
  | case4 =>
    intro d hd
    cases hd

end Octets
