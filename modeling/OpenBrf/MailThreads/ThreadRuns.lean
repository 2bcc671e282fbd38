import OpenBrf.MailThreads.ThreadInterleaving

/-!
# MailThreads.ThreadRuns — what holds of the correspondence in every run

A thread's anchor is no earlier than anything written on it since the board's latest answer, an
answered thread has an answer on it, and a letter is on a thread of its own sender's.
-/

namespace OpenBrf.MailThreads

open Txn Lang ThreadStore

/-- What has been written since the board's latest answer, and that answer. -/
def sinceAnswer : List BoardMailboxMessage → List BoardMailboxMessage
  | [] => []
  | message :: messages =>
    if message.direction = .OUTBOUND then [message] else message :: sinceAnswer messages

/-- What the rows on the threads say of them. -/
structure Kept (rules : AddressRules) (s : ThreadStore) : Prop where
  anchored : ∀ thread ∈ s.threads, ∀ message ∈ sinceAnswer (s.messagesOn thread.id),
    message.occurredAt ≤ thread.lastMessageAt
  answered : ∀ thread ∈ s.threads, thread.status = .ANSWERED →
    ∃ message ∈ s.messagesOn thread.id, message.direction = .OUTBOUND
  collected : ∀ threadId letter, .collected threadId letter ∈ s.log →
    ∀ thread ∈ s.threads, thread.id = threadId → ∃ address, letter.fromAddress = some address ∧
      thread.correspondentEmailIndex = emailIndex rules address
  /-- A letter is on record under an identifier that is or was a thread's. -/
  placed : ∀ threadId letter, .collected threadId letter ∈ s.log →
    threadId ∈ s.threads.map (·.id) ∨ threadId ∈ s.retired

theorem kept_empty (rules : AddressRules) : Kept rules {} where
  anchored _ h := absurd h List.not_mem_nil
  answered _ h := absurd h List.not_mem_nil
  collected _ _ h := absurd h List.not_mem_nil
  placed _ _ h := absurd h List.not_mem_nil

/-- What one step leaves of a thread. -/
inductive ThreadStep (t : Int) (s s' : ThreadStore) (thread : BoardMailboxThread) : Prop
  /-- It stays, and its anchor goes back only to where the clock stood at an answer. -/
  | stays (thread' : BoardMailboxThread) : thread' ∈ s'.threads → SameCorrespondent thread thread' →
      (thread'.lastMessageAt < thread.lastMessageAt → ∃ personId now,
        s'.log = .replied thread.id personId now :: s.log ∧ thread'.lastMessageAt = now) →
      ThreadStep t s s' thread
  /-- It is erased, on request or past its retention, and its identifier is not given again. -/
  | erased (requested : Bool) (now : Int) (retentionDays : ℕ) : thread.id ∈ s'.retired →
      s'.log = .purged thread.id requested now retentionDays :: s.log → now ≤ t →
      (requested = true ∨ thread.lastMessageAt ≤ boardMailboxPurgeCutoff now retentionDays) →
      ThreadStep t s s' thread

variable {rules : AddressRules} {s s' : ThreadStore} {thread thread' : BoardMailboxThread}
  {added : Option BoardMailboxMessage} {entry : ThreadEntry} {t : Int}

theorem mem_sinceAnswer : ∀ {messages : List BoardMailboxMessage} {message : BoardMailboxMessage},
    message ∈ sinceAnswer messages → message ∈ messages
  | [], _, h => by cases h
  | first :: messages, message, h => by
    unfold sinceAnswer at h
    split_ifs at h
    · rw [List.mem_singleton.mp h]
      exact List.mem_cons_self
    · rcases List.mem_cons.mp h with rfl | h
      · exact List.mem_cons_self
      · exact List.mem_cons_of_mem _ (mem_sinceAnswer h)

theorem lastMessageAt_movedForward (thread : BoardMailboxThread) (occurredAt : Int) :
    (thread.movedForward occurredAt).lastMessageAt = max thread.lastMessageAt occurredAt := by
  rw [movedForward_eq]

/-- **An act keeps a thread's anchor** behind what is written on it since the latest answer. -/
theorem Rewrites.anchored (h : Rewrites rules s thread thread' added entry)
    {messages : List BoardMailboxMessage}
    (hkept : ∀ message ∈ sinceAnswer messages, message.occurredAt ≤ thread.lastMessageAt) :
    ∀ message ∈ sinceAnswer (added.toList ++ messages),
      message.occurredAt ≤ thread'.lastMessageAt := by
  intro other hother
  cases h with
  | @joined letter address message _ _ _ _ hdirection =>
    rw [lastMessageAt_movedForward]
    change other ∈ sinceAnswer (message :: messages) at hother
    unfold sinceAnswer at hother
    rw [if_neg (by rw [hdirection]; nofun)] at hother
    rcases List.mem_cons.mp hother with rfl | hother
    · exact le_max_right _ _
    · exact (hkept other hother).trans (le_max_left _ _)
  | @replied personId message now takenAt _ _ hdirection hle =>
    change other ∈ sinceAnswer (message :: messages) at hother
    unfold sinceAnswer at hother
    rw [if_pos hdirection] at hother
    rw [List.mem_singleton.mp hother]
    exact hle
  | _ => exact hkept other hother

/-- An answered thread has an answer, of the one it had or the one it is given. -/
theorem Rewrites.answered (h : Rewrites rules s thread thread' added entry)
    (hkept : thread.status = .ANSWERED →
      ∃ message ∈ s.messagesOn thread.id, message.direction = .OUTBOUND)
    (hstatus : thread'.status = .ANSWERED) :
    ∃ message ∈ added.toList ++ s.messagesOn thread.id, message.direction = .OUTBOUND := by
  have hold : thread.status = .ANSWERED →
      ∃ message ∈ added.toList ++ s.messagesOn thread.id, message.direction = .OUTBOUND := by
    intro hwas
    obtain ⟨message, hmessage, hdirection⟩ := hkept hwas
    exact ⟨message, List.mem_append_right _ hmessage, hdirection⟩
  cases h with
  | joined =>
    rw [movedForward_eq] at hstatus
    change thread.statusAfterLetter = .ANSWERED at hstatus
    unfold BoardMailboxThread.statusAfterLetter at hstatus
    split_ifs at hstatus with hover
    exact hold hstatus
  | taken =>
    change (if thread.status = .CLOSED ∨ thread.status = .NEW then _ else thread.status) = _ at hstatus
    split_ifs at hstatus
    exact hold hstatus
  | released =>
    change (if thread.status = .TAKEN then _ else thread.status) = _ at hstatus
    split_ifs at hstatus
    exact hold hstatus
  | @replied _ message _ _ _ _ hdirection _ =>
    exact ⟨message, List.mem_cons_self, hdirection⟩
  | closed => cases hstatus
  | reopened =>
    change thread.statusWhenReopened (newestMessage s thread.id) = .ANSWERED at hstatus
    unfold BoardMailboxThread.statusWhenReopened at hstatus
    split_ifs at hstatus with hnewest
    obtain ⟨message, hmessage, hdirection⟩ := Option.map_eq_some_iff.mp hnewest
    exact ⟨message, List.mem_append_right _ (mem_of_firstBy hmessage), hdirection⟩

theorem messagesOn_opened (h : Sound rules s) {message : BoardMailboxMessage}
    (hnew : message.threadId ∉ s.threads.map (·.id)) : s.messagesOn message.threadId = [] := by
  refine List.filter_eq_nil_iff.mpr fun other hother => ?_
  rw [decide_eq_true_eq]
  intro hid
  obtain ⟨row, hrow, hrowId⟩ := h.owned other hother
  exact hnew (List.mem_map.mpr ⟨row, hrow, hrowId.trans hid⟩)

theorem Rewrites.messagesOn_self (h : Rewrites rules s thread thread' added entry)
    {threads : List BoardMailboxThread} {log : List ThreadEntry} :
    ({ s with threads, messages := added.toList ++ s.messages, log } : ThreadStore).messagesOn
      thread.id = added.toList ++ s.messagesOn thread.id := by
  show (added.toList ++ s.messages).filter _ = added.toList ++ s.messages.filter _
  rw [List.filter_append]
  congr 1
  refine List.filter_eq_self.mpr fun message hmessage => ?_
  exact decide_eq_true (h.on_thread message (Option.mem_toList.mp hmessage))

theorem Rewrites.messagesOn_of_ne (h : Rewrites rules s thread thread' added entry) {id : String}
    (hid : id ≠ thread.id) {threads : List BoardMailboxThread} {log : List ThreadEntry} :
    ({ s with threads, messages := added.toList ++ s.messages, log } : ThreadStore).messagesOn id =
      s.messagesOn id := by
  show (added.toList ++ s.messages).filter _ = s.messages.filter _
  rw [List.filter_append]
  have hnone : added.toList.filter (fun message => decide (message.threadId = id)) = [] := by
    refine List.filter_eq_nil_iff.mpr fun message hmessage => ?_
    rw [decide_eq_true_eq, h.on_thread message (Option.mem_toList.mp hmessage)]
    exact hid.symm
  rw [hnone, List.nil_append]

theorem messagesOn_erased {threadId id : String} (hid : id ≠ threadId) :
    (s.deleteThread threadId).messagesOn id = s.messagesOn id := by
  show (s.messages.filter _).filter _ = s.messages.filter _
  rw [List.filter_filter]
  congr 1
  funext message
  by_cases hmessage : message.threadId = id
  · simp [hmessage, hid]
  · simp [hmessage]

/-! ### Every act keeps what the rows say -/

/-- A letter that opens a thread is all there is on it. -/
theorem Kept.opened (h : Kept rules s) (hsound : Sound rules s) {letter : Letter} {address : String}
    {correspondentPersonId : Option String} {message : BoardMailboxMessage}
    (hsender : letter.fromAddress = some address)
    (hnew : message.threadId ∉ s.threads.map (·.id)) (halive : message.threadId ∉ s.retired) :
    Kept rules { s with
      threads := letter.thread rules address correspondentPersonId message.occurredAt
        message.threadId :: s.threads
      messages := message :: s.messages
      log := .collected message.threadId letter :: s.log } where
  anchored row hrow other hother := by
    change other ∈ sinceAnswer ((s.addMessage message).messagesOn row.id) at hother
    rw [messagesOn_cons] at hother
    rcases List.mem_cons.mp hrow with rfl | hrow
    · change other ∈ sinceAnswer (if message.threadId = message.threadId then
        message :: s.messagesOn message.threadId else s.messagesOn message.threadId) at hother
      rw [if_pos rfl, messagesOn_opened hsound hnew] at hother
      rw [List.mem_singleton.mp (mem_sinceAnswer hother)]
      exact le_refl _
    · rw [if_neg fun hid => hnew (List.mem_map.mpr ⟨row, hrow, hid.symm⟩)] at hother
      exact h.anchored row hrow other hother
  answered row hrow hstatus := by
    rcases List.mem_cons.mp hrow with rfl | hrow
    · cases hstatus
    · obtain ⟨other, hother, hdirection⟩ := h.answered row hrow hstatus
      obtain ⟨hother, hid⟩ := mem_messagesOn.mp hother
      exact ⟨other, mem_messagesOn.mpr ⟨List.mem_cons_of_mem _ hother, hid⟩, hdirection⟩
  collected threadId other hother row hrow hid := by
    rcases List.mem_cons.mp hother with heq | hother
    · obtain ⟨rfl, rfl⟩ := ThreadEntry.collected.inj heq
      rcases List.mem_cons.mp hrow with rfl | hrow
      · exact ⟨address, hsender, rfl⟩
      · exact absurd (List.mem_map.mpr ⟨row, hrow, hid⟩) hnew
    · rcases List.mem_cons.mp hrow with rfl | hrow
      · -- an identifier that is new is on no record
        change message.threadId = threadId at hid
        rw [← hid] at hother
        exact ((h.placed _ _ hother).elim hnew halive).elim
      · exact h.collected threadId other hother row hrow hid
  placed threadId other hother := by
    rcases List.mem_cons.mp hother with heq | hother
    · obtain ⟨rfl, -⟩ := ThreadEntry.collected.inj heq
      exact .inl List.mem_cons_self
    · exact (h.placed threadId other hother).imp_left fun hmem => List.mem_cons_of_mem _ hmem

theorem Kept.rewritten (h : Kept rules s) (hthread : thread ∈ s.threads)
    (hwrites : Rewrites rules s thread thread' added entry) :
    Kept rules { s with
      threads := (s.writeThread thread.id fun _ => thread').threads
      messages := added.toList ++ s.messages
      log := entry :: s.log } where
  anchored row hrow := by
    rcases (hwrites.mem hthread).mp hrow with rfl | ⟨hrow, hid⟩
    · rw [hwrites.same.id, hwrites.messagesOn_self]
      exact hwrites.anchored (h.anchored thread hthread)
    · rw [hwrites.messagesOn_of_ne hid]
      exact h.anchored row hrow
  answered row hrow := by
    rcases (hwrites.mem hthread).mp hrow with rfl | ⟨hrow, hid⟩
    · rw [hwrites.same.id, hwrites.messagesOn_self]
      exact hwrites.answered (h.answered thread hthread)
    · rw [hwrites.messagesOn_of_ne hid]
      exact h.answered row hrow
  collected threadId letter hletter row hrow hid := by
    rcases List.mem_cons.mp hletter with heq | hletter
    · subst heq
      cases hwrites with
      | joined hsender _ hindex _ _ =>
        rcases List.mem_map.mp hrow with ⟨other, hother, rfl⟩
        split_ifs with hsame
        · exact ⟨_, hsender, by rw [movedForward_eq]; exact hindex⟩
        · rw [if_neg hsame] at hid
          exact absurd hid hsame
    · rcases (hwrites.mem hthread).mp hrow with hsame | ⟨hrow, -⟩
      · rw [hsame, hwrites.same.index]
        rw [hsame, hwrites.same.id] at hid
        exact h.collected threadId letter hletter thread hthread hid
      · exact h.collected threadId letter hletter row hrow hid
  placed threadId letter hletter := by
    rw [hwrites.ids]
    rcases List.mem_cons.mp hletter with heq | hletter
    · subst heq
      cases hwrites with
      | joined => exact .inl (List.mem_map.mpr ⟨thread, hthread, rfl⟩)
    · exact h.placed threadId letter hletter

theorem Kept.erased (h : Kept rules s) (threadId : String) {requested : Bool} {now : Int}
    {retentionDays : ℕ} : Kept rules ((s.deleteThread threadId).record
      (.purged threadId requested now retentionDays)) where
  anchored row hrow message hmessage := by
    obtain ⟨hrow, hid⟩ := mem_deleteThread.mp hrow
    rw [show ((s.deleteThread threadId).record (.purged threadId requested now
      retentionDays)).messagesOn row.id = s.messagesOn row.id from messagesOn_erased hid] at hmessage
    exact h.anchored row hrow message hmessage
  answered row hrow hstatus := by
    obtain ⟨hrow, hid⟩ := mem_deleteThread.mp hrow
    rw [show ((s.deleteThread threadId).record (.purged threadId requested now
      retentionDays)).messagesOn row.id = s.messagesOn row.id from messagesOn_erased hid]
    exact h.answered row hrow hstatus
  collected id letter hletter row hrow := by
    obtain hletter := (List.mem_cons.mp hletter).resolve_left nofun
    exact h.collected id letter hletter row (mem_deleteThread.mp hrow).1
  placed id letter hletter := by
    obtain hletter := (List.mem_cons.mp hletter).resolve_left nofun
    rcases h.placed id letter hletter with hmem | hgone
    · obtain ⟨row, hrow, hid⟩ := List.mem_map.mp hmem
      by_cases hsame : row.id = threadId
      · rw [← hid, hsame]
        exact .inr List.mem_cons_self
      · exact .inl (List.mem_map.mpr ⟨row, mem_deleteThread.mpr ⟨hrow, hsame⟩, hid⟩)
    · exact .inr (List.mem_cons_of_mem _ hgone)

theorem Kept.acted (h : Kept rules s) (hsound : Sound rules s) (hacted : Acted rules t s s') :
    Kept rules s' := by
  rcases hacted with rfl | hact
  · exact h
  · cases hact with
    | opened hsender hnew halive _ => exact h.opened hsound hsender hnew halive
    | rewritten hthread hwrites => exact h.rewritten hthread hwrites
    | erased => exact h.erased _

/-! ### Runs -/

/-- What a thread is after one act. -/
theorem Acted.step (hsound : Sound rules s) (hacted : Acted rules t s s')
    (hthread : thread ∈ s.threads) : ThreadStep t s s' thread := by
  have hstays : ∀ row ∈ s'.threads, SameCorrespondent thread row →
      row.lastMessageAt = thread.lastMessageAt → ThreadStep t s s' thread :=
    fun row hrow hsame hanchor => .stays row hrow hsame fun hlt => absurd hanchor hlt.ne
  rcases hacted with rfl | hact
  · exact hstays thread hthread (.refl thread) rfl
  · cases hact with
    | opened => exact hstays thread (List.mem_cons_of_mem _ hthread) (.refl thread) rfl
    | @rewritten row row' added entry hrow hwrites =>
      by_cases hid : thread.id = row.id
      · obtain rfl := hsound.eq_of_id hthread hrow hid
        refine .stays row' ((hwrites.mem hthread).mpr (.inl rfl)) hwrites.same fun hback => ?_
        cases hwrites with
        | joined =>
          rw [lastMessageAt_movedForward] at hback
          exact absurd (le_max_left _ _) hback.not_ge
        | @replied personId _ now => exact ⟨personId, now, rfl, rfl⟩
        | _ => exact absurd hback (lt_irrefl _)
      · exact hstays thread ((hwrites.mem hrow).mpr (.inr ⟨hthread, hid⟩)) (.refl thread) rfl
    | @erased row requested now retentionDays hrow hnow hdue =>
      by_cases hid : thread.id = row.id
      · obtain rfl := hsound.eq_of_id hthread hrow hid
        exact .erased requested now retentionDays List.mem_cons_self rfl hnow hdue
      · exact hstays thread (mem_deleteThread.mpr ⟨hthread, hid⟩) (.refl thread) rfl

section Runs

variable {c c' : Config ThreadStore ThreadLock Drawn ThreadFailure}

theorem acted_of_reaches (hsound : Sound rules s)
    (hrun : Reaches (threadSystem rules) (.quiet s t) c) (hstep : Step (threadSystem rules) c c') :
    Sound rules c.store ∧ Acted rules c.clock c.store c'.store := by
  refine ⟨inv_of_reaches (D := threadDiscipline rules) (fun _ hp => safe_calls hp) hsound hrun, ?_⟩
  rcases allowed_of_reaches (D := threadDiscipline rules) (fun _ hp => safe_calls hp) hsound hrun
    hstep with hsame | ⟨_, _, _, hacted⟩
  · exact .inl hsame
  · exact hacted

theorem kept_of_reaches (hsound : Sound rules s) (hkept : Kept rules s)
    (hrun : Reaches (threadSystem rules) (.quiet s t) c) :
    Kept rules c.store ∧ Since s c.store := by
  induction hrun with
  | refl => exact ⟨hkept, .refl s⟩
  | tail hrun hstep ih =>
    obtain ⟨hkept, hsince⟩ := ih
    obtain ⟨hsound', hacted⟩ := acted_of_reaches hsound hrun hstep
    exact ⟨hkept.acted hsound' hacted, hsince.trans (hacted.since hsound')⟩

/-- **The correspondence in every run** of letters, board members and the purge beside each other:
what each thread says of itself agrees, a letter is with its own sender, and a thread is erased on
request or once its anchor is past its retention; the anchor goes back only to the clock that an
answer read. -/
theorem threads_of_reaches (hsound : Sound rules s) (hkept : Kept rules s)
    (hrun : Reaches (threadSystem rules) (.quiet s t) c) :
    Sound rules c.store ∧ Kept rules c.store ∧ Since s c.store ∧
      ∀ c', Step (threadSystem rules) c c' → ∀ thread ∈ c.store.threads,
        ThreadStep c.clock c.store c'.store thread := by
  obtain ⟨hkept', hsince⟩ := kept_of_reaches hsound hkept hrun
  have hsound' := inv_of_reaches (D := threadDiscipline rules) (fun _ hp => safe_calls hp) hsound
    hrun
  refine ⟨hsound', hkept', hsince, fun c' hstep thread hthread => ?_⟩
  exact (acted_of_reaches hsound hrun hstep).2.step hsound' hthread

end Runs

section SlowClock

def plainAddresses : AddressRules := ⟨id, id⟩

/-- A letter from somebody whose clock is an hour ahead. -/
def aheadOfTime : Letter :=
  ⟨some "<1@example.org>", none, some "anna@example.org", "Vatten", "Det läcker", some 700003600000,
    none⟩

def collectedAhead : ThreadStore where
  threads := [⟨"t1", "Vatten", "anna@example.org", some "anna@example.org", none, .NEW, none, none,
    none, none, 700003600000⟩]
  messages := [⟨"m1", "t1", .INBOUND, some "<1@example.org>", none, "Det läcker", none,
    700003600000, 5⟩]
  log := [.collected "t1" aheadOfTime]

theorem firstCommit_aheadOfTime : firstCommit (collectOne plainAddresses aheadOfTime false none)
    ⟨700000000000, fun n => if n = 0 then ⟨"t1", 4⟩ else ⟨"m1", 5⟩, {}, {}⟩ =
      some collectedAhead := by
  decide +kernel

/-- It is answered at once, and the anchor goes back to the board's own clock. -/
theorem threads_of_answer : ∃ c c' : Config ThreadStore ThreadLock Drawn ThreadFailure,
    Reaches (threadSystem plainAddresses) (.quiet {} 700000000000) c ∧
      Step (threadSystem plainAddresses) c c' ∧
      (∀ thread ∈ c.store.threads, thread.lastMessageAt = 700003600000 ∧
        ThreadStep c.clock c.store c'.store thread) ∧
      c'.store.threads.map (·.lastMessageAt) = [700000000000] := by
  have hcollect : (threadSystem plainAddresses).calls
    (collectOne plainAddresses aheadOfTime false none) := .collect aheadOfTime false none
  obtain ⟨_, _, hbefore, hcollects, -, -, -, hcollected⟩ :=
    reaches_call hcollect _ firstCommit_aheadOfTime
  have hanswered : (firstCommit (reply "t1" "p1" "Vi kommer" true) ⟨700000000000,
      fun n => if n = 0 then ⟨"<2@example.org>", 6⟩ else ⟨"m2", 7⟩, collectedAhead,
      collectedAhead⟩).map (fun s => s.threads.map (·.lastMessageAt)) = some [700000000000] := by
    decide +kernel
  obtain ⟨s', hs', hanchor⟩ := Option.map_eq_some_iff.mp hanswered
  have hreply : (threadSystem plainAddresses).calls (reply "t1" "p1" "Vi kommer" true) :=
    .reply "t1" "p1" "Vi kommer" true
  obtain ⟨c, c', hrun, hstep, -, hstore, hstore', -⟩ := reaches_call hreply _ hs'
  have hreaches := ((hbefore.tail hcollects).trans hcollected).trans hrun
  have hthreads := (threads_of_reaches (sound_empty _) (kept_empty _) hreaches).2.2.2 c' hstep
  refine ⟨c, c', hreaches, hstep, fun thread hthread => ⟨?_, hthreads thread hthread⟩, ?_⟩
  · rw [hstore] at hthread
    rw [List.mem_singleton.mp hthread]
  · rw [hstore', hanchor]

end SlowClock

end OpenBrf.MailThreads
