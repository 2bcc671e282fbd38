import OpenBrf.Motions.Queue

/-!
# Motions.QueueReading — the queue read page after page

A motion that is yet to be read stands after the cursor: it moves to a later group only, and a page
that does not hold it ends in front of it.
-/

namespace OpenBrf.Motions

open Lang Shared Retention

/-! ### One page -/

section Page

variable {collation : Collation} {filter : QueueFilter} {after : Option MotionQueueCursor}
  {motions : List Motion}

/-- What a page is cut from. -/
def behind (collation : Collation) (filter : QueueFilter) (after : Option MotionQueueCursor)
    (motions : List Motion) : List Motion :=
  (motions.filter fun motion => filter.allows motion &&
    after.all (afterInQueue collation · motion)).mergeSort (queueLe collation)

theorem mem_behind {motion : Motion} : motion ∈ behind collation filter after motions ↔
    motion ∈ motions ∧ filter.allows motion = true ∧
      after.all (afterInQueue collation · motion) = true := by
  unfold behind
  rw [List.mem_mergeSort, List.mem_filter, Bool.and_eq_true]

theorem pageSize_pos (filter : QueueFilter) : 0 < filter.pageSize := by
  unfold QueueFilter.pageSize
  have hmax : MOTIONS_PER_PAGE = 50 := rfl
  cases filter.limit with
  | none => exact Nat.lt_min.mpr ⟨by decide, by decide⟩
  | some limit => exact Nat.lt_min.mpr ⟨limit.2, by decide⟩

/-- A strict order: each motion before the ones behind it, and none of them before it. -/
def InOrder (collation : Collation) (motions : List Motion) : Prop :=
  motions.Pairwise fun a b => queueLe collation a b = true ∧ queueLe collation b a = false

theorem sorted_mergeSort (motions : List Motion) :
    (motions.mergeSort (queueLe collation)).Pairwise fun a b => queueLe collation a b = true := by
  have htrans : ∀ a b c : Motion, queueLe collation a b = true → queueLe collation b c = true →
      queueLe collation a c = true := fun _ _ _ => queueLe_trans
  exact List.pairwise_mergeSort htrans queueLe_total motions

theorem inOrder_mergeSort (hids : (motions.map (·.id)).Nodup) :
    InOrder collation (motions.mergeSort (queueLe collation)) := by
  have hperm := (List.mergeSort_perm motions (queueLe collation)).map (·.id)
  have happart := List.pairwise_map.mp (hperm.nodup_iff.mpr hids)
  refine (happart.and (sorted_mergeSort motions)).imp fun {a b} h => ⟨h.2, ?_⟩
  exact Bool.eq_false_iff.mpr fun hba => h.1 (id_eq_of_queueLe h.2 hba)

theorem inOrder_behind (hids : (motions.map (·.id)).Nodup) :
    InOrder collation (behind collation filter after motions) :=
  inOrder_mergeSort (hids.sublist (List.filter_sublist.map _))

/-- What a page and its cursor are of the rows behind a point. -/
def pageOf (limit : ℕ) (rows : List Motion) : MotionQueuePage :=
  ⟨(rows.take (limit + 1)).take limit, ((rows.take (limit + 1)).take limit).getLast?.bind fun last =>
    if ((rows.take (limit + 1)).take limit).length < (rows.take (limit + 1)).length then
      some (motionQueueCursor last.status last.submittedAt last.id.value)
    else none⟩

theorem queue_eq : queue collation filter after motions =
    pageOf filter.pageSize (behind collation filter after motions) := rfl

/-- **A page that is not the last** ends in a motion whose position the cursor is. -/
theorem pageOf_more (front : List Motion) (last : Motion) {back : List Motion} (hback : back ≠ []) :
    pageOf (front.length + 1) (front ++ last :: back) = ⟨front ++ [last],
      some (motionQueueCursor last.status last.submittedAt last.id.value)⟩ := by
  obtain ⟨next, back, rfl⟩ := List.exists_cons_of_ne_nil hback
  have htake : ∀ rest : List Motion,
      (front ++ last :: rest).take (front.length + 1) = front ++ [last] := by
    intro rest
    rw [List.take_append, List.take_of_length_le (Nat.le_succ _), Nat.add_sub_cancel_left]
    rfl
  have htake' : (front ++ last :: next :: back).take (front.length + 1 + 1) =
      front ++ [last, next] := by
    rw [List.take_append, List.take_of_length_le (by omega),
      show front.length + 1 + 1 - front.length = 2 by omega]
    rfl
  unfold pageOf
  rw [htake', htake, List.getLast?_concat]
  simp

theorem pageOf_last {limit : ℕ} {rows : List Motion} (h : rows.length ≤ limit) :
    pageOf limit rows = ⟨rows, none⟩ := by
  unfold pageOf
  rw [List.take_of_length_le (Nat.le_succ_of_le h), List.take_of_length_le h]
  cases rows.getLast? with
  | none => rfl
  | some last => simp

/-- The rows behind a point are one page, or a page and more. -/
theorem page_cases (filter : QueueFilter) (rows : List Motion) :
    rows.length ≤ filter.pageSize ∨ ∃ front last back, rows = front ++ last :: back ∧
      filter.pageSize = front.length + 1 ∧ back ≠ [] := by
  rcases Nat.lt_or_ge filter.pageSize rows.length with hmore | hless
  · have hpos := pageSize_pos filter
    obtain ⟨n, hn⟩ : ∃ n, filter.pageSize = n + 1 := ⟨filter.pageSize - 1, by omega⟩
    have hlast : n < rows.length := by omega
    refine .inr ⟨rows.take n, rows[n], rows.drop (n + 1), ?_, ?_, ?_⟩
    · rw [← List.drop_eq_getElem_cons hlast, List.take_append_drop]
    · rw [List.length_take, Nat.min_eq_left (by omega), hn]
    · rw [Ne, List.drop_eq_nil_iff]
      omega
  · exact .inl hless

/-- Behind a motion's position stands what the order puts behind it. -/
theorem filter_after {front back : List Motion} {last : Motion}
    (h : InOrder collation (front ++ last :: back)) :
    (front ++ last :: back).filter (afterInQueue collation last.position) = back := by
  obtain ⟨-, hlast, hfront⟩ := List.pairwise_append.mp h
  have hself : queueLe collation last last = true := by simpa using queueLe_total last last
  have hafter : ∀ motion,
      afterInQueue collation last.position motion = !queueLe collation motion last :=
    afterInQueue_position last
  have hnone : front.filter (afterInQueue collation last.position) = [] := by
    refine List.filter_eq_nil_iff.mpr fun motion hmem => ?_
    rw [hafter, (hfront motion hmem last List.mem_cons_self).1]
    exact Bool.false_ne_true
  have hall : back.filter (afterInQueue collation last.position) = back := by
    refine List.filter_eq_self.mpr fun motion hmem => ?_
    rw [hafter, ((List.pairwise_cons.mp hlast).1 motion hmem).2]
    rfl
  have hnot : ¬afterInQueue collation last.position last = true := by
    rw [hafter, hself]
    exact Bool.false_ne_true
  rw [List.filter_append, hnone, List.filter_cons_of_neg hnot, hall, List.nil_append]

end Page

/-! ### Runs -/

/-- What a reader does next. -/
inductive Reader where
  /-- It hands back the cursor of the page before, or none at the start. -/
  | reading (after : Option String)
  | done
  /-- The schema refused what it handed back. -/
  | refused
  deriving DecidableEq

structure Reading where
  motions : List Motion
  reader : Reader
  pages : List MotionQueuePage

inductive QueueEvent where
  | read
  | change (what : QueueChange)

section Runs

variable (collation : Collation) (filter : QueueFilter)

/-- The page a reader asks for, and where it leaves it. -/
def Reading.page (s : Reading) (after : Option MotionQueueCursor) : Reading :=
  let page := queue collation filter after s.motions
  { s with
    pages := s.pages ++ [page]
    reader := match page.nextCursor with
      | none => .done
      | some cursor => .reading (some cursor) }

def Reading.read (s : Reading) : Reading :=
  match s.reader with
  | .reading none => s.page collation filter none
  | .reading (some cursor) =>
    match parseMotionQueueCursor cursor with
    | some after => s.page collation filter (some after)
    | none => { s with reader := .refused }
  | _ => s

def Reading.step (s : Reading) : QueueEvent → Reading
  | .read => s.read collation filter
  | .change what => { s with motions := what.apply s.motions }

def Reading.run (s : Reading) (events : List QueueEvent) : Reading :=
  events.foldl (Reading.step collation filter) s

end Runs

/-- A reader that has read nothing yet. -/
def startOf (motions : List Motion) : Reading := ⟨motions, .reading none, []⟩

/-- The motions of the pages, one after the other. -/
def Reading.listed (s : Reading) : List Motion := s.pages.flatMap (·.motions)

/-! ### Identifiers -/

section Identifiers

variable {motions : List Motion}

theorem ids_map_of_same {f : Motion → Motion} (h : ∀ motion, (f motion).id = motion.id)
    (motions : List Motion) : (motions.map f).map (·.id) = motions.map (·.id) := by
  rw [List.map_map]
  exact List.map_congr_left fun motion _ => h motion

theorem closed_id (motionId : Cuid) (status : ClosingStatus) (closedAt : Instant)
    (personId : String) (motion : Motion) :
    (if motion.id = motionId ∧ motion.status = .SUBMITTED then
      { motion with
        status := status.toStatus, closedAt := some closedAt, closedByPersonId := some personId }
    else motion).id = motion.id := by
  split_ifs <;> rfl

theorem metAt_id (motionId : Cuid) (existing meetingId : Option String) (motion : Motion) :
    (if motion.id = motionId ∧ motion.meetingId = existing ∧ motion.status ≠ .WITHDRAWN then
      { motion with meetingId := meetingId }
    else motion).id = motion.id := by
  split_ifs <;> rfl

/-- No two motions have one identifier, whatever is written. -/
theorem nodup_apply (hids : (motions.map (·.id)).Nodup) (what : QueueChange) :
    ((what.apply motions).map (·.id)).Nodup := by
  cases what with
  | submit id title body personId now =>
    show ((submitted id title body personId now motions).map (·.id)).Nodup
    unfold submitted
    split_ifs with hmem
    · exact hids
    · rw [List.map_append]
      refine List.nodup_append'.mpr ⟨hids, List.nodup_singleton _, ?_⟩
      intro other hother hnew
      obtain rfl : other = id := List.mem_singleton.mp hnew
      exact hmem hother
  | close motionId status closedAt personId =>
    show ((closed motionId status closedAt personId motions).map (·.id)).Nodup
    unfold closed
    rwa [ids_map_of_same (closed_id motionId status closedAt personId)]
  | setMeeting motionId existing meetingId =>
    show ((metAt motionId existing meetingId motions).map (·.id)).Nodup
    unfold metAt
    rwa [ids_map_of_same (metAt_id motionId existing meetingId)]
  | erase named => exact hids.sublist (List.filter_sublist.map _)

theorem motion_inj (hids : (motions.map (·.id)).Nodup) {a b : Motion} (ha : a ∈ motions)
    (hb : b ∈ motions) (h : a.id = b.id) : a = b :=
  List.inj_on_of_nodup_map hids ha hb h

end Identifiers

/-! ### A motion moves to a later group only -/

section Moves

variable {collation : Collation} {motions : List Motion}

/-- The same motion at another time: submitted at the same instant, and with the status it had or
one a motion is closed with. -/
structure Onward (before now : Motion) : Prop where
  id : now.id = before.id
  submittedAt : now.submittedAt = before.submittedAt
  status : now.status = before.status ∨
    before.status = .SUBMITTED ∧ (now.status = .ACKNOWLEDGED ∨ now.status = .WITHDRAWN)

theorem Onward.refl (motion : Motion) : Onward motion motion := ⟨rfl, rfl, .inl rfl⟩

/-- **What stands after a cursor** stands after it still. -/
theorem Onward.after {before now : Motion} (h : Onward before now) {cursor : MotionQueueCursor}
    (hafter : afterInQueue collation cursor before = true) :
    afterInQueue collation cursor now = true := by
  rw [afterInQueue_iff] at hafter ⊢
  rw [h.id, h.submittedAt]
  rcases h.status with hsame | ⟨hopen, hclosed⟩
  · rwa [hsame]
  · have hlater : MotionStatus.SUBMITTED.rank < now.status.rank := by
      rcases hclosed with hclosed | hclosed <;> rw [hclosed] <;> decide
    rcases hafter with hrank | ⟨hstatus, -⟩
    · exact .inl (Nat.lt_trans (hopen ▸ hrank) hlater)
    · rw [← hstatus, hopen]
      exact .inl hlater

/-- **One change**: what is there before it and behind it has moved onward. -/
theorem onward_apply (hids : (motions.map (·.id)).Nodup) (what : QueueChange) {before now : Motion}
    (hbefore : before ∈ motions) (hnow : now ∈ what.apply motions) (hid : now.id = before.id) :
    Onward before now := by
  cases what with
  | submit id title body personId now' =>
    have hnow' : now ∈ submitted id title body personId now' motions := hnow
    unfold submitted at hnow'
    split_ifs at hnow' with hmem
    · obtain rfl := motion_inj hids hnow' hbefore hid
      exact .refl now
    · rcases List.mem_append.mp hnow' with hold | hnew
      · obtain rfl := motion_inj hids hold hbefore hid
        exact .refl now
      · obtain rfl := List.mem_singleton.mp hnew
        exact absurd (List.mem_map.mpr ⟨before, hbefore, hid.symm⟩) hmem
  | close motionId status closedAt personId =>
    obtain ⟨motion, hmotion, rfl⟩ := List.mem_map.mp hnow
    rw [closed_id] at hid
    obtain rfl := motion_inj hids hmotion hbefore hid
    split_ifs with hopen
    · refine ⟨rfl, rfl, .inr ⟨hopen.2, ?_⟩⟩
      cases status
      · exact .inl rfl
      · exact .inr rfl
    · exact .refl motion
  | setMeeting motionId existing meetingId =>
    obtain ⟨motion, hmotion, rfl⟩ := List.mem_map.mp hnow
    rw [metAt_id] at hid
    obtain rfl := motion_inj hids hmotion hbefore hid
    split_ifs
    · exact ⟨rfl, rfl, .inl rfl⟩
    · exact .refl motion
  | erase named =>
    obtain rfl := motion_inj hids (List.mem_filter.mp hnow).1 hbefore hid
    exact .refl now

end Moves

/-! ### Nothing changes -/

section Unchanged

variable {collation : Collation} {filter : QueueFilter} {motions : List Motion} {s : Reading}

/-- The cursor of a motion, as a page ends with it. -/
def Motion.cursor (motion : Motion) : String :=
  motionQueueCursor motion.status motion.submittedAt motion.id.value

theorem parse_cursor (motion : Motion) :
    parseMotionQueueCursor motion.cursor = some motion.position :=
  parse_motionQueueCursor motion.status motion.submittedAt motion.id

theorem read_first (h : s.reader = .reading none) :
    s.read collation filter = s.page collation filter none := by
  unfold Reading.read
  rw [h]

theorem read_after {cursor : String} {position : MotionQueueCursor}
    (h : s.reader = .reading (some cursor)) (hparse : parseMotionQueueCursor cursor = some position) :
    s.read collation filter = s.page collation filter (some position) := by
  unfold Reading.read
  rw [h]
  dsimp only
  rw [hparse]

/-- Reading writes nothing. -/
theorem motions_read (s : Reading) : (s.read collation filter).motions = s.motions := by
  unfold Reading.read
  split
  · rfl
  · split <;> rfl
  · rfl

/-- A page is what is cut from the motions behind the point it is read from. -/
theorem page_eq {after : Option MotionQueueCursor} {rest : List Motion}
    (h : behind collation filter after s.motions = rest) : s.page collation filter after = { s with
      pages := s.pages ++ [pageOf filter.pageSize rest]
      reader := match (pageOf filter.pageSize rest).nextCursor with
        | none => .done
        | some cursor => .reading (some cursor) } := by
  unfold Reading.page
  rw [queue_eq, h]

theorem page_more {after : Option MotionQueueCursor} {front back : List Motion} {last : Motion}
    (h : behind collation filter after s.motions = front ++ last :: back)
    (hsize : filter.pageSize = front.length + 1) (hback : back ≠ []) :
    s.page collation filter after = ⟨s.motions, .reading (some last.cursor),
      s.pages ++ [⟨front ++ [last], some last.cursor⟩]⟩ := by
  rw [page_eq h, hsize, pageOf_more front last hback]
  rfl

theorem page_last {after : Option MotionQueueCursor} {rest : List Motion}
    (h : behind collation filter after s.motions = rest) (hsize : rest.length ≤ filter.pageSize) :
    s.page collation filter after = ⟨s.motions, .done, s.pages ++ [⟨rest, none⟩]⟩ := by
  rw [page_eq h, pageOf_last hsize]

/-- What is behind a point is cut from the queue in its order. -/
theorem behind_after (hids : (motions.map (·.id)).Nodup) (cursor : MotionQueueCursor) :
    behind collation filter (some cursor) motions =
      (behind collation filter none motions).filter (afterInQueue collation cursor) := by
  refine List.Perm.eq_of_pairwise ?_ (sorted_mergeSort _)
    ((sorted_mergeSort _).sublist List.filter_sublist) ?_
  · intro a b ha hb hab hba
    have ha' : a ∈ motions := (mem_behind.mp ha).1
    have hb' : b ∈ motions := (mem_behind.mp (List.mem_filter.mp hb).1).1
    exact motion_inj hids ha' hb' (id_eq_of_queueLe hab hba)
  · refine (List.mergeSort_perm _ _).trans ?_
    refine (List.Perm.of_eq ?_).trans ((List.mergeSort_perm _ _).filter _).symm
    rw [List.filter_filter]
    congr 1
    ext motion
    simp [Bool.and_comm]

/-- So many pages have been read of a queue that stays as it is. -/
inductive Unchanged (collation : Collation) (filter : QueueFilter) (motions : List Motion) (n : ℕ)
    (s : Reading) : Prop where
  | fresh (hmotions : s.motions = motions) (hzero : n = 0) (hpages : s.pages = [])
      (hreader : s.reader = .reading none)
  | amid (front : List Motion) (last : Motion) (back : List Motion)
      (hmotions : s.motions = motions) (hsplit : behind collation filter none motions =
        front ++ last :: back) (hback : back ≠ []) (hlisted : s.listed = front ++ [last])
      (hmany : n ≤ front.length + 1) (hreader : s.reader = .reading (some last.cursor))
  | ended (hmotions : s.motions = motions) (hlisted : s.listed = behind collation filter none motions)
      (hreader : s.reader = .done)

/-- A page read of the rest of the queue. -/
theorem unchanged_page {n : ℕ} (front rest : List Motion) {after : Option MotionQueueCursor}
    (hmotions : s.motions = motions)
    (hall : behind collation filter none motions = front ++ rest) (hlisted : s.listed = front)
    (hmany : n ≤ front.length) (hrest : behind collation filter after motions = rest) :
    Unchanged collation filter motions (n + 1) (s.page collation filter after) := by
  rw [← hmotions] at hrest
  rcases page_cases filter rest with hlast | ⟨front', last, back, rfl, hsize, hback⟩
  · rw [page_last hrest hlast]
    refine .ended hmotions ?_ rfl
    rw [hall]
    unfold Reading.listed at hlisted ⊢
    simp [hlisted]
  · rw [page_more hrest hsize hback]
    refine .amid (front ++ front') last back hmotions ?_ hback ?_ ?_ rfl
    · rw [hall, List.append_assoc]
    · unfold Reading.listed at hlisted ⊢
      simp [hlisted]
    · rw [List.length_append]
      omega

theorem unchanged_read (hids : (motions.map (·.id)).Nodup) {n : ℕ}
    (h : Unchanged collation filter motions n s) :
    Unchanged collation filter motions (n + 1) (s.read collation filter) := by
  cases h with
  | fresh hmotions hzero hpages hreader =>
    rw [read_first hreader]
    have hlisted : s.listed = [] := by
      unfold Reading.listed
      rw [hpages]
      rfl
    exact unchanged_page [] _ hmotions rfl hlisted (by rw [hzero]; exact Nat.le_refl 0) rfl
  | amid front last back hmotions hsplit hback hlisted hmany hreader =>
    rw [read_after hreader (parse_cursor last)]
    have horder : InOrder collation (front ++ last :: back) := hsplit ▸ inOrder_behind hids
    refine unchanged_page (front ++ [last]) back hmotions ?_ hlisted ?_ ?_
    · rw [hsplit, List.append_assoc]
      rfl
    · simpa using hmany
    · rw [behind_after hids, hsplit, filter_after horder]
  | ended hmotions hlisted hreader =>
    have hread : s.read collation filter = s := by
      unfold Reading.read
      rw [hreader]
    rw [hread]
    exact .ended hmotions hlisted hreader

theorem unchanged_reads (collation : Collation) (filter : QueueFilter)
    (hids : (motions.map (·.id)).Nodup) : ∀ n : ℕ,
    Unchanged collation filter motions n
      ((startOf motions).run collation filter (List.replicate n .read))
  | 0 => .fresh rfl rfl rfl rfl
  | n + 1 => by
    rw [List.replicate_succ', Reading.run, List.foldl_append]
    exact unchanged_read hids (unchanged_reads collation filter hids n)

/-- **Exactly once**: while nothing changes the pages list the queue in its order, and there are no
more of them than motions. -/
theorem listed_unchanged (collation : Collation) (filter : QueueFilter)
    (hids : (motions.map (·.id)).Nodup) {n : ℕ} (hn : motions.length < n) :
    ((startOf motions).run collation filter (List.replicate n .read)).reader = .done ∧
      ((startOf motions).run collation filter (List.replicate n .read)).listed =
        behind collation filter none motions := by
  cases unchanged_reads collation filter hids n with
  | fresh _ hzero _ _ => omega
  | amid front last back _ hsplit _ _ hmany _ =>
    have hlen : (behind collation filter none motions).length ≤ motions.length := by
      unfold behind
      rw [List.length_mergeSort]
      exact List.length_filter_le _ _
    rw [hsplit, List.length_append, List.length_cons] at hlen
    omega
  | ended _ hlisted hreader => exact ⟨hreader, hlisted⟩

end Unchanged

/-! ### Something changes -/

section Interleaved

variable {collation : Collation} {filter : QueueFilter} {s : Reading} {id : Cuid}

/-- A motion has been on a page, or stands after what the reader hands back next. -/
inductive Kept (collation : Collation) (id : Cuid) (s : Reading) : Prop where
  | listed (h : ∃ motion ∈ s.listed, motion.id = id)
  | ahead (after : Option String) (hreader : s.reader = .reading after)
      (hafter : ∀ cursor, after = some cursor → ∃ position,
        parseMotionQueueCursor cursor = some position ∧
          ∀ motion ∈ s.motions, motion.id = id → afterInQueue collation position motion = true)

/-- A motion is in the queue a reader reads. -/
def Stands (filter : QueueFilter) (id : Cuid) (s : Reading) : Prop :=
  ∃ motion ∈ s.motions, motion.id = id ∧ filter.allows motion = true

theorem kept_page (hids : (s.motions.map (·.id)).Nodup) (hstands : Stands filter id s)
    {after : Option MotionQueueCursor}
    (hafter : ∀ position, after = some position → ∀ motion ∈ s.motions, motion.id = id →
      afterInQueue collation position motion = true) :
    Kept collation id (s.page collation filter after) := by
  obtain ⟨motion, hmotion, rfl, hallows⟩ := hstands
  have hbehind : motion ∈ behind collation filter after s.motions := by
    refine mem_behind.mpr ⟨hmotion, hallows, ?_⟩
    cases after with
    | none => rfl
    | some position => exact hafter position rfl motion hmotion rfl
  have hlisted : (s.page collation filter after).listed =
      s.listed ++ (queue collation filter after s.motions).motions := by
    unfold Reading.listed Reading.page
    simp
  rcases page_cases filter (behind collation filter after s.motions) with
    hlast | ⟨front, last, back, hsplit, hsize, hback⟩
  · refine .listed ⟨motion, ?_, rfl⟩
    rw [hlisted, queue_eq, pageOf_last hlast]
    exact List.mem_append_right _ hbehind
  · have hpage : queue collation filter after s.motions = ⟨front ++ [last], some last.cursor⟩ := by
      rw [queue_eq, hsplit, hsize]
      exact pageOf_more front last hback
    have horder : InOrder collation (front ++ last :: back) := hsplit ▸ inOrder_behind hids
    rw [hsplit, ← List.singleton_append, ← List.append_assoc] at hbehind
    rcases List.mem_append.mp hbehind with hfront | hrest
    · refine .listed ⟨motion, ?_, rfl⟩
      rw [hlisted, hpage]
      exact List.mem_append_right _ hfront
    · -- the page ends in front of it
      refine .ahead (some last.cursor) ?_ ?_
      · unfold Reading.page
        rw [hpage]
      · rintro cursor hcursor
        obtain rfl := Option.some.inj hcursor
        refine ⟨last.position, parse_cursor last, fun other hother hid => ?_⟩
        obtain rfl := motion_inj hids hother hmotion hid
        rw [← filter_after horder] at hrest
        exact (List.mem_filter.mp hrest).2

theorem kept_read (hids : (s.motions.map (·.id)).Nodup) (hstands : Stands filter id s)
    (h : Kept collation id s) : Kept collation id (s.read collation filter) := by
  cases h with
  | listed h =>
    have hmore : ∀ after, Kept collation id (s.page collation filter after) := by
      intro after
      obtain ⟨motion, hmotion, hid⟩ := h
      refine .listed ⟨motion, ?_, hid⟩
      unfold Reading.listed at hmotion
      unfold Reading.listed Reading.page
      rw [List.flatMap_append]
      exact List.mem_append_left _ hmotion
    unfold Reading.read
    split
    · exact hmore none
    · split
      · exact hmore _
      · exact .listed h
    · exact .listed h
  | ahead after hreader hafter =>
    cases after with
    | none =>
      rw [read_first hreader]
      exact kept_page hids hstands fun _ hnone => by cases hnone
    | some cursor =>
      obtain ⟨position, hparse, hbehind⟩ := hafter cursor rfl
      rw [read_after hreader hparse]
      refine kept_page hids hstands fun other hother => ?_
      obtain rfl := Option.some.inj hother
      exact hbehind

theorem kept_change (hids : (s.motions.map (·.id)).Nodup) (hstands : Stands filter id s)
    (what : QueueChange) (h : Kept collation id s) :
    Kept collation id (s.step collation filter (.change what)) := by
  cases h with
  | listed h => exact .listed h
  | ahead after hreader hafter =>
    refine .ahead after hreader fun cursor hcursor => ?_
    obtain ⟨position, hparse, hbehind⟩ := hafter cursor hcursor
    refine ⟨position, hparse, fun now hnow hid => ?_⟩
    obtain ⟨before, hbefore, hid', -⟩ := hstands
    exact (onward_apply hids what hbefore hnow (hid.trans hid'.symm)).after
      (hbehind before hbefore hid')

/-- **A run keeps a motion** that stands in the queue all along. -/
theorem kept_run : ∀ (events : List QueueEvent) (s : Reading),
    (s.motions.map (·.id)).Nodup → Kept collation id s →
    (∀ earlier, earlier <+: events → Stands filter id (s.run collation filter earlier)) →
    Kept collation id (s.run collation filter events)
  | [], _, _, h, _ => h
  | event :: events, s, hids, h, hstands => by
    have hnow := hstands [] List.nil_prefix
    have hnext : Kept collation id (s.step collation filter event) ∧
        ((s.step collation filter event).motions.map (·.id)).Nodup := by
      cases event with
      | read =>
        refine ⟨kept_read hids hnow h, ?_⟩
        have hsame : (s.read collation filter).motions = s.motions := by
          unfold Reading.read Reading.page
          split
          · rfl
          · split <;> rfl
          · rfl
        show (((s.read collation filter).motions).map (·.id)).Nodup
        rwa [hsame]
      | change what => exact ⟨kept_change hids hnow what h, nodup_apply hids what⟩
    refine kept_run events _ hnext.2 hnext.1 fun earlier hearlier => ?_
    exact hstands (event :: earlier) (List.cons_prefix_cons.mpr ⟨rfl, hearlier⟩)

end Interleaved

/-! ### The queue read to its end -/

section Claims

variable {collation : Collation} {filter : QueueFilter} {s : Reading}

/-- **A page's cursor** is the position of the last motion on it. -/
theorem cursor_position {after : Option MotionQueueCursor} {motions : List Motion} {cursor : String}
    (h : (queue collation filter after motions).nextCursor = some cursor) :
    ∃ last, (queue collation filter after motions).motions.getLast? = some last ∧
      parseMotionQueueCursor cursor = some last.position := by
  rw [queue_eq] at h ⊢
  rcases page_cases filter (behind collation filter after motions) with
    hlast | ⟨front, last, back, hsplit, hsize, hback⟩
  · rw [pageOf_last hlast] at h
    cases h
  · rw [hsplit, hsize, pageOf_more front last hback] at h ⊢
    obtain rfl : last.cursor = cursor := Option.some.inj h
    exact ⟨last, List.getLast?_concat, parse_cursor last⟩

/-- What a reader hands back is a cursor. -/
structure Handed (s : Reading) : Prop where
  accepted : s.reader ≠ .refused
  parses : ∀ cursor, s.reader = .reading (some cursor) →
    ∃ position, parseMotionQueueCursor cursor = some position

theorem handed_page (s : Reading) (after : Option MotionQueueCursor) :
    Handed (s.page collation filter after) := by
  have hreader : (s.page collation filter after).reader =
      match (queue collation filter after s.motions).nextCursor with
      | none => .done
      | some cursor => .reading (some cursor) := rfl
  cases hnext : (queue collation filter after s.motions).nextCursor with
  | none =>
    rw [hnext] at hreader
    exact ⟨by rw [hreader]; exact Reader.noConfusion, fun _ h => by rw [hreader] at h; cases h⟩
  | some cursor =>
    rw [hnext] at hreader
    refine ⟨by rw [hreader]; exact Reader.noConfusion, fun other h => ?_⟩
    rw [hreader] at h
    obtain rfl : cursor = other := Option.some.inj (Reader.reading.inj h)
    obtain ⟨last, -, hparse⟩ := cursor_position hnext
    exact ⟨last.position, hparse⟩

theorem handed_step (h : Handed s) (event : QueueEvent) : Handed (s.step collation filter event) := by
  cases event with
  | change what => exact ⟨h.accepted, h.parses⟩
  | read =>
    show Handed (s.read collation filter)
    unfold Reading.read
    split
    · exact handed_page s none
    · next cursor hreader =>
      obtain ⟨position, hparse⟩ := h.parses cursor hreader
      rw [hparse]
      exact handed_page s (some position)
    · exact h

theorem handed_run : ∀ (events : List QueueEvent) {s : Reading}, Handed s →
    Handed (s.run collation filter events)
  | [], _, h => h
  | event :: events, _, h => handed_run events (handed_step h event)

/-- **The queue read page after page**: while nothing changes it is listed whole, in its order and
once; every cursor is read back as the position of the row it was written from; and whatever is
submitted, closed, put to a meeting or erased between the pages, no cursor is refused and a motion
that stands in the queue all along is on a page. -/
theorem queue_read (collation : Collation) (filter : QueueFilter) (motions : List Motion)
    (hids : (motions.map (·.id)).Nodup) :
    (∀ n, motions.length < n →
      ((startOf motions).run collation filter (List.replicate n .read)).reader = .done ∧
      ((startOf motions).run collation filter (List.replicate n .read)).listed.Perm
        (motions.filter filter.allows) ∧
      InOrder collation ((startOf motions).run collation filter (List.replicate n .read)).listed) ∧
    (∀ after rows cursor, (queue collation filter after rows).nextCursor = some cursor →
      ∃ last, (queue collation filter after rows).motions.getLast? = some last ∧
        parseMotionQueueCursor cursor = some ⟨last.status, last.submittedAt, last.id.value⟩) ∧
    ∀ events, ((startOf motions).run collation filter events).reader ≠ .refused ∧
      (((startOf motions).run collation filter events).reader = .done → ∀ id,
        (∀ earlier, earlier <+: events →
          ∃ motion ∈ ((startOf motions).run collation filter earlier).motions,
            motion.id = id ∧ filter.allows motion = true) →
        ∃ page ∈ ((startOf motions).run collation filter events).pages,
          ∃ motion ∈ page.motions, motion.id = id) := by
  refine ⟨fun n hn => ?_, fun after rows cursor h => cursor_position h, fun events => ⟨?_, ?_⟩⟩
  · obtain ⟨hdone, hlisted⟩ := listed_unchanged collation filter hids hn
    refine ⟨hdone, ?_, ?_⟩
    · rw [hlisted]
      refine (List.mergeSort_perm _ _).trans (List.Perm.of_eq ?_)
      congr 1
      ext motion
      simp
    · rw [hlisted]
      exact inOrder_behind hids
  · have hstart : Handed (startOf motions) :=
      ⟨Reader.noConfusion, fun _ h => by cases h⟩
    exact (handed_run events hstart).accepted
  · intro hdone id hstands
    have hstart : Kept collation id (startOf motions) := .ahead none rfl fun _ h => by cases h
    cases kept_run events _ hids hstart hstands with
    | listed h =>
      obtain ⟨motion, hmotion, hid⟩ := h
      obtain ⟨page, hpage, hmem⟩ := List.mem_flatMap.mp hmotion
      exact ⟨page, hpage, motion, hmem, hid⟩
    | ahead after hreader _ =>
      rw [hdone] at hreader
      cases hreader

/-! ### A reading of three motions submitted at one instant -/

def heatPumps : Motion :=
  ⟨⟨"cmf1", by decide, List.all_eq_true.mp (by decide)⟩, "Heat pumps", "Replace them.",
    .SUBMITTED, ⟨0, by decide⟩, "cmp1", none, none, none⟩

def bicycles : Motion :=
  { heatPumps with id := ⟨"cmf2", by decide, List.all_eq_true.mp (by decide)⟩, title := "Bicycles" }

def sauna : Motion :=
  { heatPumps with id := ⟨"cmf3", by decide, List.all_eq_true.mp (by decide)⟩, title := "Sauna" }

/-- One motion a page. -/
def oneByOne : QueueFilter := ⟨none, some ⟨1, by decide⟩⟩

/-- Acknowledged while the first page is read. -/
def bicyclesClosed : Motion :=
  { bicycles with
    status := .ACKNOWLEDGED, closedAt := some ⟨5, by decide⟩, closedByPersonId := some "cmp2" }

/-- The second motion is closed after the first page, and the first erased after the second. -/
def changedReading : List QueueEvent :=
  [.read, .change (.close bicycles.id .ACKNOWLEDGED ⟨5, by decide⟩ "cmp2"), .read,
    .change (.erase fun motion => motion.id = heatPumps.id), .read]

theorem run_changedReading : (startOf [heatPumps, bicycles, sauna]).run .byCodeUnits oneByOne
    changedReading = ⟨[bicyclesClosed, sauna], .done, [⟨[heatPumps], some heatPumps.cursor⟩,
      ⟨[sauna], some sauna.cursor⟩, ⟨[bicyclesClosed], none⟩]⟩ := by
  have hsize : oneByOne.pageSize = ([] : List Motion).length + 1 := rfl
  have hfirst : behind .byCodeUnits oneByOne none [heatPumps, bicycles, sauna] =
      [] ++ heatPumps :: [bicycles, sauna] :=
    List.mergeSort_of_pairwise (by decide)
  have hsecond : behind .byCodeUnits oneByOne (some heatPumps.position)
      [heatPumps, bicyclesClosed, sauna] = [] ++ sauna :: [bicyclesClosed] := by
    have hswapped : queueLe .byCodeUnits bicyclesClosed sauna = false := by decide
    show [bicyclesClosed, sauna].mergeSort _ = _
    simp [List.mergeSort, List.MergeSort.Internal.splitInTwo, hswapped]
  have hthird : behind .byCodeUnits oneByOne (some sauna.position) [bicyclesClosed, sauna] =
      [bicyclesClosed] :=
    List.mergeSort_singleton _
  have hone : (startOf [heatPumps, bicycles, sauna]).read .byCodeUnits oneByOne =
      ⟨[heatPumps, bicycles, sauna], .reading (some heatPumps.cursor),
        [⟨[heatPumps], some heatPumps.cursor⟩]⟩ := by
    rw [read_first rfl, page_more hfirst hsize (List.cons_ne_nil _ _)]
    rfl
  have htwo : (⟨[heatPumps, bicyclesClosed, sauna], .reading (some heatPumps.cursor),
      [⟨[heatPumps], some heatPumps.cursor⟩]⟩ : Reading).read .byCodeUnits oneByOne =
        ⟨[heatPumps, bicyclesClosed, sauna], .reading (some sauna.cursor),
          [⟨[heatPumps], some heatPumps.cursor⟩, ⟨[sauna], some sauna.cursor⟩]⟩ := by
    rw [read_after rfl (parse_cursor heatPumps),
      page_more hsecond hsize (List.cons_ne_nil _ _)]
    rfl
  show Reading.read _ _ (Reading.step _ _ (Reading.read _ _ (Reading.step _ _
    (Reading.read _ _ (startOf [heatPumps, bicycles, sauna])) _)) _) = _
  rw [hone]
  show Reading.read _ _ (Reading.step _ _ (Reading.read _ _ ⟨[heatPumps, bicyclesClosed, sauna],
    .reading (some heatPumps.cursor), [⟨[heatPumps], some heatPumps.cursor⟩]⟩) _) = _
  rw [htwo]
  show Reading.read _ _ ⟨[bicyclesClosed, sauna], .reading (some sauna.cursor),
    [⟨[heatPumps], some heatPumps.cursor⟩, ⟨[sauna], some sauna.cursor⟩]⟩ = _
  rw [read_after rfl (parse_cursor sauna), page_last hthird (by decide)]
  rfl

/-- Three motions are read one by one.  While nothing changes each is on one page; with the second
closed after the first page and the first erased after the second, both that stay are listed. -/
theorem queue_read_changed :
    ((startOf [heatPumps, bicycles, sauna]).run .byCodeUnits oneByOne
        (List.replicate 4 .read)).listed.Perm [heatPumps, bicycles, sauna] ∧
      ∀ motion ∈ [bicycles, sauna],
        ∃ page ∈ ((startOf [heatPumps, bicycles, sauna]).run .byCodeUnits oneByOne
            changedReading).pages,
          ∃ row ∈ page.motions, row.id = motion.id := by
  have hids : ([heatPumps, bicycles, sauna].map (·.id)).Nodup := by decide
  obtain ⟨hsame, -, hchanged⟩ := queue_read .byCodeUnits oneByOne [heatPumps, bicycles, sauna] hids
  refine ⟨(hsame 4 (by decide)).2.1, fun motion hmotion => ?_⟩
  refine (hchanged changedReading).2 (congrArg Reading.reader run_changedReading) motion.id ?_
  intro earlier hearlier
  have hmotions : ((startOf [heatPumps, bicycles, sauna]).run .byCodeUnits oneByOne
      earlier).motions ∈ [[heatPumps, bicycles, sauna], [heatPumps, bicyclesClosed, sauna],
        [bicyclesClosed, sauna]] := by
    simp only [changedReading, List.prefix_cons_iff, List.prefix_nil] at hearlier
    rcases hearlier with rfl | ⟨_, rfl, rfl | ⟨_, rfl, rfl | ⟨_, rfl, rfl | ⟨_, rfl, rfl |
      ⟨_, rfl, rfl⟩⟩⟩⟩⟩ <;>
      simp only [Reading.run, List.foldl_cons, List.foldl_nil, Reading.step, motions_read] <;>
      decide
  have hthere : ∀ motions ∈ [[heatPumps, bicycles, sauna], [heatPumps, bicyclesClosed, sauna],
      [bicyclesClosed, sauna]], ∀ motion ∈ [bicycles, sauna],
        ∃ row ∈ motions, row.id = motion.id ∧ oneByOne.allows row = true := by
    decide
  exact hthere _ hmotions motion hmotion

end Claims

end OpenBrf.Motions
