import OpenBrf.Shared.CalendarDates

/-!
# Fees.PaymentReference — the number a notice is paid under (`payment-reference.ts`)

Two digits of the year and two of the month the period opens in, four of the notice's place in its
run, and a check digit.
-/

namespace OpenBrf.Fees

open Lang Shared

def POSITION_DIGITS : ℕ := 4

/-- The largest position the format can carry. -/
def MAX_NOTICES_PER_RUN : ℕ := 10 ^ POSITION_DIGITS - 1

/-- The modulus 10 check digit over digits, every second one from the right doubled. -/
def checkDigitOf (payload : List Char) : Char :=
  let total := (payload.reverse.zipIdx.map fun entry =>
    let value := entry.1.toNat - 48
    let doubled := if entry.2 % 2 = 0 then value * 2 else value
    if 9 < doubled then doubled - 9 else doubled).sum
  digit (10 - total % 10)

/-- The year and the month of a reference. -/
def openingOf (periodFrom : LocalDay) : List Char :=
  padStart 2 (periodFrom.year % 100).toNat ++ padStart 2 periodFrom.month.toNat

/-- The reference for one notice.  The year of a period is written with four digits. -/
def paymentReferenceFor (periodFrom : LocalDay) (position : ℕ) : String :=
  let payload := openingOf periodFrom ++ padStart POSITION_DIGITS position
  String.ofList (payload ++ [checkDigitOf payload])

example : paymentReferenceFor ⟨2026, 1, 1⟩ 7 = "260100078" := by decide +kernel

theorem length_openingOf (periodFrom : LocalDay) : (openingOf periodFrom).length = 4 := by
  unfold openingOf
  rw [List.length_append, length_padStart, length_padStart]

theorem toList_paymentReferenceFor (periodFrom : LocalDay) (position : ℕ) :
    ∃ rest, (paymentReferenceFor periodFrom position).toList = openingOf periodFrom ++ rest ∧
      rest.take 4 = padStart 4 position := by
  refine ⟨padStart 4 position ++ [checkDigitOf (openingOf periodFrom ++ padStart 4 position)], ?_,
    ?_⟩
  · unfold paymentReferenceFor
    rw [String.toList_ofList, List.append_assoc]
    rfl
  · exact List.take_left' (length_padStart 4 position)

/-- The references of runs that open in different months of a century differ. -/
theorem openingOf_eq {periodFrom periodFrom' : LocalDay} {position position' : ℕ}
    (h : paymentReferenceFor periodFrom position = paymentReferenceFor periodFrom' position') :
    openingOf periodFrom = openingOf periodFrom' := by
  obtain ⟨rest, hrest, -⟩ := toList_paymentReferenceFor periodFrom position
  obtain ⟨rest', hrest', -⟩ := toList_paymentReferenceFor periodFrom' position'
  have hlist := congrArg String.toList h
  rw [hrest, hrest'] at hlist
  refine (List.append_inj hlist ?_).1
  rw [length_openingOf, length_openingOf]

/-- The references of one run differ. -/
theorem position_eq {periodFrom : LocalDay} {position position' : ℕ}
    (hle : position ≤ MAX_NOTICES_PER_RUN) (hle' : position' ≤ MAX_NOTICES_PER_RUN)
    (h : paymentReferenceFor periodFrom position = paymentReferenceFor periodFrom position') :
    position = position' := by
  obtain ⟨rest, hrest, hposition⟩ := toList_paymentReferenceFor periodFrom position
  obtain ⟨rest', hrest', hposition'⟩ := toList_paymentReferenceFor periodFrom position'
  have hlist := congrArg String.toList h
  rw [hrest, hrest'] at hlist
  have hsame := List.append_cancel_left hlist
  have hlt : ∀ p ≤ MAX_NOTICES_PER_RUN, p < 10 ^ 4 := by
    intro p hp
    unfold MAX_NOTICES_PER_RUN POSITION_DIGITS at hp
    omega
  apply padStart_inj (hlt _ hle) (hlt _ hle')
  rw [← hposition, ← hposition', hsame]

end OpenBrf.Fees
