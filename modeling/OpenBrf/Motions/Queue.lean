import OpenBrf.Lang.Sorting
import OpenBrf.Motions.QueueCursor

/-!
# Motions.Queue — the board's motion queue, and what writes into it (`motion.service.ts`)

The database compares identifiers by a collation, the same one in an ordering and in a comparison.
Each write here is one conditional statement, as it takes effect when it commits; what is read in
front of it only refuses.
-/

namespace OpenBrf.Motions

open Lang Shared Retention

/-- How the database orders texts. -/
structure Collation where
  le : String → String → Bool
  trans : ∀ a b c, le a b → le b c → le a c
  total : ∀ a b, le a b || le b a
  antisymm : ∀ a b, le a b → le b a → a = b

/-- The order of the code units. -/
def Collation.byCodeUnits : Collation where
  le a b := decide (utf16 a ≤ utf16 b)
  trans a b c hab hbc := decide_eq_true (le_trans (of_decide_eq_true hab) (of_decide_eq_true hbc))
  total a b := by simpa using le_total (utf16 a) (utf16 b)
  antisymm a b hab hba := utf16_inj (le_antisymm (of_decide_eq_true hab) (of_decide_eq_true hba))

structure Motion where
  id : Cuid
  title : String
  body : String
  status : MotionStatus
  submittedAt : Instant
  submittedByPersonId : String
  closedAt : Option Instant
  closedByPersonId : Option String
  meetingId : Option String
  deriving DecidableEq

/-! ### Reading a page -/

def MOTIONS_PER_PAGE : ℕ := 50

/-- How many motions a reader asks for at once; the schemas ask for one at least. -/
structure QueueFilter where
  status : Option MotionStatus
  limit : Option {n : ℕ // 0 < n}

structure MotionQueuePage where
  motions : List Motion
  nextCursor : Option String
  deriving DecidableEq

section Queue

variable (collation : Collation)

/-- The place of a status in the order the enum declares. -/
def MotionStatus.rank : MotionStatus → ℕ
  | SUBMITTED => 0
  | ACKNOWLEDGED => 1
  | WITHDRAWN => 2

/-- `orderBy: [{ status: "asc" }, { submittedAt: "asc" }, { id: "asc" }]` -/
def queueLe (a b : Motion) : Bool :=
  a.status.rank < b.status.rank || a.status.rank = b.status.rank &&
    (a.submittedAt.time < b.submittedAt.time || a.submittedAt.time = b.submittedAt.time &&
      collation.le a.id.value b.id.value)

/-- Everything in the queue strictly after one point in it. -/
def afterInQueue (cursor : MotionQueueCursor) (motion : Motion) : Bool :=
  let later := QUEUE_STATUS_ORDER.drop (QUEUE_STATUS_ORDER.idxOf cursor.status + 1)
  motion.status = cursor.status && (cursor.submittedAt.time < motion.submittedAt.time ||
      motion.submittedAt = cursor.submittedAt && !collation.le motion.id.value cursor.id) ||
    motion.status ∈ later

/-- The motions a filter lets through. -/
def QueueFilter.allows (filter : QueueFilter) (motion : Motion) : Bool :=
  filter.status.all (· = motion.status)

def QueueFilter.pageSize (filter : QueueFilter) : ℕ :=
  min ((filter.limit.map (·.1)).getD MOTIONS_PER_PAGE) MOTIONS_PER_PAGE

/-- One page of the board's queue. -/
def queue (filter : QueueFilter) (after : Option MotionQueueCursor) (motions : List Motion) :
    MotionQueuePage :=
  let limit := filter.pageSize
  let rows := ((motions.filter fun motion =>
    filter.allows motion && after.all (afterInQueue collation · motion)).mergeSort
      (queueLe collation)).take (limit + 1)
  let page := rows.take limit
  let nextCursor := page.getLast?.bind fun last =>
    if page.length < rows.length then
      some (motionQueueCursor last.status last.submittedAt last.id.value)
    else none
  ⟨page, nextCursor⟩

end Queue

/-! ### Writing -/

/-- `Extract<MotionStatus, "ACKNOWLEDGED" | "WITHDRAWN">` -/
inductive ClosingStatus where
  | ACKNOWLEDGED
  | WITHDRAWN
  deriving DecidableEq, Repr

def ClosingStatus.toStatus : ClosingStatus → MotionStatus
  | ACKNOWLEDGED => .ACKNOWLEDGED
  | WITHDRAWN => .WITHDRAWN

/-- `submit`: a new row, under an identifier no other row has. -/
def submitted (id : Cuid) (title body personId : String) (now : Instant) (motions : List Motion) :
    List Motion :=
  if id ∈ motions.map (·.id) then motions
  else motions ++ [⟨id, title, body, .SUBMITTED, now, personId, none, none, none⟩]

/-- `close`: only while the motion is open. -/
def closed (motionId : Cuid) (status : ClosingStatus) (closedAt : Instant) (personId : String)
    (motions : List Motion) : List Motion :=
  motions.map fun motion =>
    if motion.id = motionId ∧ motion.status = .SUBMITTED then
      { motion with
        status := status.toStatus, closedAt := some closedAt, closedByPersonId := some personId }
    else motion

/-- `setMeeting`: only while the motion is on the meeting that was read, and not withdrawn. -/
def metAt (motionId : Cuid) (existing meetingId : Option String) (motions : List Motion) :
    List Motion :=
  motions.map fun motion =>
    if motion.id = motionId ∧ motion.meetingId = existing ∧ motion.status ≠ .WITHDRAWN then
      { motion with meetingId := meetingId }
    else motion

/-- What is written into the queue while it is read. -/
inductive QueueChange where
  | submit (id : Cuid) (title body personId : String) (now : Instant)
  | close (motionId : Cuid) (status : ClosingStatus) (closedAt : Instant) (personId : String)
  | setMeeting (motionId : Cuid) (existing meetingId : Option String)
  /-- The purge's `deleteMany`. -/
  | erase (named : Motion → Bool)

def QueueChange.apply : QueueChange → List Motion → List Motion
  | submit id title body personId now => submitted id title body personId now
  | close motionId status closedAt personId => closed motionId status closedAt personId
  | setMeeting motionId existing meetingId => metAt motionId existing meetingId
  | erase named => List.filter fun motion => !named motion

/-! ### The order is total -/

section Order

variable {collation : Collation} {a b c : Motion}

theorem queueLe_iff : queueLe collation a b = true ↔ a.status.rank < b.status.rank ∨
    a.status.rank = b.status.rank ∧ (a.submittedAt.time < b.submittedAt.time ∨
      a.submittedAt.time = b.submittedAt.time ∧ collation.le a.id.value b.id.value = true) := by
  unfold queueLe
  simp only [Bool.or_eq_true, Bool.and_eq_true, decide_eq_true_eq]

theorem rank_inj {s t : MotionStatus} (h : s.rank = t.rank) : s = t := by
  cases s <;> cases t <;> first | rfl | cases h

theorem queueLe_trans (hab : queueLe collation a b = true) (hbc : queueLe collation b c = true) :
    queueLe collation a c = true := by
  rw [queueLe_iff] at *
  rcases hab with hab | ⟨hab, hab'⟩
  · rcases hbc with hbc | ⟨hbc, -⟩
    · exact .inl (hab.trans hbc)
    · exact .inl (hbc ▸ hab)
  · rcases hbc with hbc | ⟨hbc, hbc'⟩
    · exact .inl (hab ▸ hbc)
    · refine .inr ⟨hab.trans hbc, ?_⟩
      rcases hab' with hlt | ⟨heq, hle⟩
      · rcases hbc' with hlt' | ⟨heq', -⟩
        · exact .inl (hlt.trans hlt')
        · exact .inl (heq' ▸ hlt)
      · rcases hbc' with hlt' | ⟨heq', hle'⟩
        · exact .inl (heq ▸ hlt')
        · exact .inr ⟨heq.trans heq', collation.trans _ _ _ hle hle'⟩

theorem queueLe_total (a b : Motion) :
    (queueLe collation a b || queueLe collation b a) = true := by
  rw [Bool.or_eq_true, queueLe_iff, queueLe_iff]
  have htotal := collation.total a.id.value b.id.value
  rw [Bool.or_eq_true] at htotal
  rcases lt_trichotomy a.status.rank b.status.rank with h | h | h
  · exact .inl (.inl h)
  · rcases lt_trichotomy a.submittedAt.time b.submittedAt.time with h' | h' | h'
    · exact .inl (.inr ⟨h, .inl h'⟩)
    · rcases htotal with hle | hle
      · exact .inl (.inr ⟨h, .inr ⟨h', hle⟩⟩)
      · exact .inr (.inr ⟨h.symm, .inr ⟨h'.symm, hle⟩⟩)
    · exact .inr (.inr ⟨h.symm, .inl h'⟩)
  · exact .inr (.inl h)

/-- Two motions that come before each other have one identifier. -/
theorem id_eq_of_queueLe (hab : queueLe collation a b = true) (hba : queueLe collation b a = true) :
    a.id = b.id := by
  rw [queueLe_iff] at hab hba
  have hid : a.id.value = b.id.value := by
    rcases hab with hab | ⟨hab, hab' | ⟨hab', hle⟩⟩
    · omega
    · omega
    · rcases hba with hba | ⟨hba, hba' | ⟨hba', hle'⟩⟩
      · omega
      · omega
      · exact collation.antisymm _ _ hle hle'
  exact Cuid.ext hid

theorem instant_eq : ∀ {t u : Instant}, t.time = u.time → t = u
  | ⟨_, _⟩, ⟨_, _⟩, rfl => rfl

/-- The position of a motion in the queue. -/
def Motion.position (motion : Motion) : MotionQueueCursor :=
  ⟨motion.status, motion.submittedAt, motion.id.value⟩

theorem mem_later {s t : MotionStatus} :
    t ∈ QUEUE_STATUS_ORDER.drop (QUEUE_STATUS_ORDER.idxOf s + 1) ↔ s.rank < t.rank := by
  cases s <;> cases t <;> decide

theorem afterInQueue_iff {cursor : MotionQueueCursor} {motion : Motion} :
    afterInQueue collation cursor motion = true ↔ cursor.status.rank < motion.status.rank ∨
      motion.status = cursor.status ∧ (cursor.submittedAt.time < motion.submittedAt.time ∨
        motion.submittedAt = cursor.submittedAt ∧
          collation.le motion.id.value cursor.id = false) := by
  unfold afterInQueue
  simp only [Bool.or_eq_true, Bool.and_eq_true, decide_eq_true_eq, Bool.not_eq_true', mem_later]
  exact or_comm

/-- **After a motion's position** is what the ordering puts behind it. -/
theorem afterInQueue_position (a b : Motion) :
    afterInQueue collation a.position b = !queueLe collation b a := by
  refine Bool.eq_iff_iff.mpr ?_
  rw [Bool.not_eq_true', ← Bool.not_eq_true, queueLe_iff, afterInQueue_iff]
  have hstatus : b.status = a.status ↔ b.status.rank = a.status.rank :=
    ⟨fun h => h ▸ rfl, rank_inj⟩
  have hinstant : b.submittedAt = a.submittedAt ↔ b.submittedAt.time = a.submittedAt.time :=
    ⟨fun h => h ▸ rfl, instant_eq⟩
  show a.status.rank < b.status.rank ∨ b.status = a.status ∧
    (a.submittedAt.time < b.submittedAt.time ∨ b.submittedAt = a.submittedAt ∧
      collation.le b.id.value a.id.value = false) ↔ _
  rw [hstatus, hinstant]
  cases collation.le b.id.value a.id.value with
  | false =>
    simp only [Bool.false_eq_true, and_false, or_false, and_true]
    omega
  | true =>
    simp only [Bool.true_eq_false, and_false, or_false, and_true]
    omega

end Order

end OpenBrf.Motions
