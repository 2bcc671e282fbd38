import Mathlib.Data.List.SplitOn
import OpenBrf.Shared.IsoStrings

/-!
# Motions.QueueCursor — where a page of the motion queue ends (`motion.service.ts`)
-/

namespace OpenBrf.Motions

open Lang Shared Retention

inductive MotionStatus where
  | SUBMITTED
  | ACKNOWLEDGED
  | WITHDRAWN
  deriving DecidableEq, Repr

/-- A status as it is written. -/
def MotionStatus.text : MotionStatus → List Char
  | SUBMITTED => "SUBMITTED".toList
  | ACKNOWLEDGED => "ACKNOWLEDGED".toList
  | WITHDRAWN => "WITHDRAWN".toList

/-- The order the queue is read in, written out. -/
def QUEUE_STATUS_ORDER : List MotionStatus := [.SUBMITTED, .ACKNOWLEDGED, .WITHDRAWN]

/-- An identifier the database gave: lower-case letters and digits. -/
@[ext]
structure Cuid where
  value : String
  valid : value ≠ "" ∧ ∀ c ∈ value.toList, c.isLower || c.isDigit
  deriving DecidableEq, Repr

/-- Where a page of the queue ends. -/
structure MotionQueueCursor where
  status : MotionStatus
  submittedAt : Instant
  id : String
  deriving DecidableEq, Repr

/-- A character none of the three can contain. -/
def CURSOR_SEPARATOR : Char := '|'

/-- The cursor for the page ending at a motion. -/
def motionQueueCursor (status : MotionStatus) (submittedAt : Instant) (id : String) : String :=
  String.ofList ([CURSOR_SEPARATOR].intercalate [status.text, toISOString submittedAt, id.toList])

/-- The cursor a reader handed back, or none when it is not one. -/
def parseMotionQueueCursor (value : String) : Option MotionQueueCursor :=
  match value.toList.splitOn CURSOR_SEPARATOR with
  | [status, instant, id] =>
    if id = [] then none
    else (QUEUE_STATUS_ORDER.find? fun known => known.text = status).bind fun status =>
      (parseInstant instant).map fun submittedAt => ⟨status, submittedAt, String.ofList id⟩
  | _ => none

/-! ### The round trip -/

theorem find_status (status : MotionStatus) :
    (QUEUE_STATUS_ORDER.find? fun known => known.text = status.text) = some status := by
  cases status <;> rfl

theorem separator_not_mem_status (status : MotionStatus) : CURSOR_SEPARATOR ∉ status.text := by
  cases status <;> decide

theorem digit_ne_separator (n : ℕ) : digit n ≠ CURSOR_SEPARATOR := by
  intro h
  have hnat := toNat_digit n
  rw [h] at hnat
  have hseparator : CURSOR_SEPARATOR.toNat = 124 := rfl
  omega

theorem separator_not_mem_padStart : ∀ k n : ℕ, CURSOR_SEPARATOR ∉ padStart k n
  | 0, _ => List.not_mem_nil
  | k + 1, n => by
    unfold padStart
    rw [List.mem_append, List.mem_singleton, not_or]
    exact ⟨separator_not_mem_padStart k _, (digit_ne_separator n).symm⟩

theorem separator_not_mem_toISOString (instant : Instant) :
    CURSOR_SEPARATOR ∉ toISOString instant := by
  have hyear : ∀ year, CURSOR_SEPARATOR ∉ yearText year := by
    intro year
    unfold yearText
    split_ifs
    · exact separator_not_mem_padStart _ _
    · exact List.not_mem_cons_of_ne_of_not_mem (by decide) (separator_not_mem_padStart _ _)
    · exact List.not_mem_cons_of_ne_of_not_mem (by decide) (separator_not_mem_padStart _ _)
  have hmark : ∀ c : Char, c ∈ ['-', 'T', ':', '.', 'Z'] → CURSOR_SEPARATOR ≠ c := by
    rintro c hc rfl
    exact absurd hc (by decide)
  unfold toISOString clockText
  simp only [List.mem_append, List.mem_cons, not_or]
  simp [hyear, separator_not_mem_padStart, hmark]

/-- **The round trip** of a cursor: it is read back as the position it was written from. -/
theorem parse_motionQueueCursor (status : MotionStatus) (submittedAt : Instant) (id : Cuid) :
    parseMotionQueueCursor (motionQueueCursor status submittedAt id.value) =
      some ⟨status, submittedAt, id.value⟩ := by
  have hid : CURSOR_SEPARATOR ∉ id.value.toList := fun hmem => by
    have hlower := id.valid.2 _ hmem
    exact absurd hlower (by decide)
  have hne : id.value.toList ≠ [] := fun h => id.valid.1 (String.toList_inj.mp h)
  have hsplit : ([CURSOR_SEPARATOR].intercalate
      [status.text, toISOString submittedAt, id.value.toList]).splitOn CURSOR_SEPARATOR =
        [status.text, toISOString submittedAt, id.value.toList] := by
    refine List.splitOn_intercalate _ ?_ (List.cons_ne_nil _ _)
    intro half hhalf
    rw [List.mem_cons, List.mem_cons, List.mem_singleton] at hhalf
    rcases hhalf with rfl | rfl | rfl
    · exact separator_not_mem_status status
    · exact separator_not_mem_toISOString submittedAt
    · exact hid
  unfold parseMotionQueueCursor motionQueueCursor
  rw [String.toList_ofList, hsplit]
  show (if id.value.toList = [] then none else _) = _
  rw [if_neg hne, find_status, parseInstant_eq_some.mpr rfl]
  simp

end OpenBrf.Motions
