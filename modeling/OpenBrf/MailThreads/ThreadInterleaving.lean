import OpenBrf.MailThreads.ThreadActs
import OpenBrf.Txn.Safe

/-!
# MailThreads.ThreadInterleaving — letters, board members and the purge beside each other

Whoever writes a thread holds its lock, so what is committed is an act on the thread as it stands.
-/

namespace OpenBrf.MailThreads

open Txn Lang ThreadStore

/-- What is called. -/
inductive ThreadCall (rules : AddressRules) : ThreadTx Unit → Prop
  | collect (letter : Letter) (withheld : Bool) (correspondentPersonId : Option String) :
      ThreadCall rules (collectOne rules letter withheld correspondentPersonId)
  | take (threadId personId : String) : ThreadCall rules (take threadId personId)
  | release (threadId personId : String) : ThreadCall rules (release threadId personId)
  | reply (threadId personId body : String) (configured : Bool) :
      ThreadCall rules (reply threadId personId body configured)
  | setClosed (threadId : String) (closed : Bool) (personId : String) :
      ThreadCall rules (setClosed threadId closed personId)
  | purge (w : Withholding) (later : String → Withholding) (retentionDays : ℕ) :
      ThreadCall rules (purge w later retentionDays)

/-- The calls beside each other. -/
def threadSystem (rules : AddressRules) : System ThreadStore ThreadLock Drawn ThreadFailure where
  calls := ThreadCall rules
  prompt _ := False

inductive ThreadFact where
  | row (id : String)
  | since

/-- A thread and its rows are as they were. -/
structure SameThread (id : String) (s s' : ThreadStore) : Prop where
  thread : s'.findThread id = s.findThread id
  messages : s'.messagesOn id = s.messagesOn id
  retired : id ∈ s'.retired ↔ id ∈ s.retired

theorem SameThread.trans {id : String} {s s' s'' : ThreadStore} (h : SameThread id s s')
    (h' : SameThread id s' s'') : SameThread id s s'' :=
  ⟨h'.thread.trans h.thread, h'.messages.trans h.messages, h'.retired.trans h.retired⟩

/-- What commits keep of the threads: somebody who holds one finds it as it was. -/
def threadDiscipline (rules : AddressRules) : Discipline ThreadStore ThreadLock ThreadFact where
  inv _ s := Sound rules s
  guards k l m := ∃ id, k = .row id ∧ l = .thread id ∧ m = .exclusive
  keeps
    | .row id, s, s' => SameThread id s s'
    | .since, s, s' => Since s s'
  allowed _ t s s' := Acted rules t s s'
  inv_mono _ h := h
  keeps_refl
    | .row _, _ => ⟨rfl, rfl, Iff.rfl⟩
    | .since, s => .refl s
  keeps_trans := by
    rintro (id | _) s₁ s₂ s₃ h h'
    · exact SameThread.trans h h'
    · exact Since.trans h h'

variable {rules : AddressRules}

section Commits

variable {held : List (ThreadLock × Mode)} {reads : List (Sight ThreadStore ThreadLock)} {t : Int}
  {s s' : ThreadStore} {thread thread' : BoardMailboxThread} {threadId : String}

theorem same_of_rely (threadId : String)
    (hheld : (ThreadLock.thread threadId, Mode.exclusive) ∈ held)
    (h : (threadDiscipline rules).Rely held s s') : SameThread threadId s s' := by
  refine h (.row threadId) fun l m hl => ?_
  obtain ⟨id, hrow, rfl, rfl⟩ := hl
  obtain rfl := ThreadFact.row.inj hrow
  exact ⟨.exclusive, hheld, fun _ => rfl⟩

theorem since_of_rely (h : (threadDiscipline rules).Rely held s s') : Since s s' := by
  refine h .since fun l m hl => ?_
  obtain ⟨id, hrow, -⟩ := hl
  cases hrow

/-- An act on a thread whose lock is held. -/
theorem commits_of_act (hinv : Sound rules s) (hacted : Acted rules t s s')
    (hheld : (ThreadLock.thread threadId, Mode.exclusive) ∈ held)
    (hothers : ∀ id, id ≠ threadId → SameThread id s s') :
    (threadDiscipline rules).Commits held reads t s s' := by
  refine ⟨hinv.acted hacted, hacted, ?_⟩
  rintro (id | _) hk
  · refine hothers id ?_
    rintro rfl
    cases (hk (.thread id) .exclusive ⟨id, rfl, rfl, rfl⟩ .exclusive hheld).1
  · exact hacted.since hinv

theorem commits_nothing (hinv : Sound rules s) :
    (threadDiscipline rules).Commits held reads t s s :=
  ⟨hinv, .inl rfl, fun k _ => (threadDiscipline rules).keeps_refl k s⟩

theorem findThread_some (hinv : Sound rules s) :
    s.findThread threadId = some thread ↔ thread ∈ s.threads ∧ thread.id = threadId := by
  unfold findThread
  constructor
  · intro h
    exact ⟨List.mem_of_find?_eq_some h, by simpa using List.find?_some h⟩
  · rintro ⟨hmem, rfl⟩
    cases hfound : s.threads.find? fun row => row.id = thread.id with
    | none => simpa using List.find?_eq_none.mp hfound thread hmem
    | some row =>
      have hid : row.id = thread.id := by simpa using List.find?_some hfound
      rw [hinv.eq_of_id (List.mem_of_find?_eq_some hfound) hmem hid]

/-- Only one row has an identifier, so what is written over it is written from it. -/
theorem writeThread_eq (hinv : Sound rules s) (hthread : s.findThread threadId = some thread)
    (f : BoardMailboxThread → BoardMailboxThread) :
    s.writeThread threadId f = s.writeThread thread.id fun _ => f thread := by
  obtain ⟨hmem, rfl⟩ := (findThread_some hinv).mp hthread
  unfold writeThread
  congr 1
  refine List.map_congr_left fun row hrow => ?_
  split_ifs with hid
  · rw [hinv.eq_of_id hrow hmem hid]
  · rfl

theorem findThread_write_of_ne {id : String} (hid : id ≠ threadId)
    {f : BoardMailboxThread → BoardMailboxThread} (hf : ∀ row, row.id = threadId →
      (f row).id = threadId) : (s.writeThread threadId f).findThread id = s.findThread id := by
  unfold writeThread findThread
  rw [List.find?_map]
  have hp : ((fun row : BoardMailboxThread => decide (row.id = id)) ∘ fun row =>
      if row.id = threadId then f row else row) = fun row => decide (row.id = id) := by
    funext row
    show decide ((if row.id = threadId then f row else row).id = id) = _
    split_ifs with hrow
    · rw [hf row hrow, hrow]
    · rfl
  rw [hp]
  cases hfound : s.threads.find? fun row => decide (row.id = id) with
  | none => rfl
  | some row =>
    have hrow : row.id = id := by simpa using List.find?_some hfound
    show some (if row.id = threadId then f row else row) = some row
    rw [if_neg (by rw [hrow]; exact hid)]

theorem findThread_write_self (hinv : Sound rules s) (hthread : s.findThread threadId = some thread)
    {f : BoardMailboxThread → BoardMailboxThread} (hf : ∀ row, (f row).id = row.id) :
    (s.writeThread threadId f).findThread threadId = some (f thread) := by
  obtain ⟨-, hid⟩ := (findThread_some hinv).mp hthread
  unfold findThread at hthread
  unfold findThread writeThread
  rw [List.find?_map]
  have hp : ((fun row : BoardMailboxThread => decide (row.id = threadId)) ∘ fun row =>
      if row.id = threadId then f row else row) = fun row => decide (row.id = threadId) := by
    funext row
    show decide ((if row.id = threadId then f row else row).id = threadId) = _
    split_ifs with hrow
    · rw [hf row]
    · rfl
  rw [hp, hthread]
  exact congrArg some (if_pos hid)

/-- Written over twice. -/
theorem writeThread_writeThread {f : BoardMailboxThread → BoardMailboxThread}
    (hf : ∀ row, (f row).id = row.id) (g : BoardMailboxThread → BoardMailboxThread) :
    (s.writeThread threadId f).writeThread threadId g = s.writeThread threadId (g ∘ f) := by
  unfold writeThread
  rw [List.map_map]
  congr 1
  refine List.map_congr_left fun row _ => ?_
  show (if (if row.id = threadId then f row else row).id = threadId then _ else _) = _
  by_cases hrow : row.id = threadId
  · rw [if_pos hrow, if_pos hrow, if_pos ((hf row).trans hrow)]
    exact congrArg g (if_pos hrow)
  · rw [if_neg hrow, if_neg hrow, if_neg hrow]

/-- A thread is written over, with a message on it or without. -/
theorem commits_rewritten {f : BoardMailboxThread → BoardMailboxThread}
    {added : Option BoardMailboxMessage} {entry : ThreadEntry}
    (hwrites : Rewrites rules s thread (f thread) added entry)
    (hinv : Sound rules s) (hthread : s.findThread threadId = some thread)
    (hheld : (ThreadLock.thread threadId, Mode.exclusive) ∈ held)
    (hs' : s' = { s with
      threads := (s.writeThread threadId f).threads
      messages := added.toList ++ s.messages
      log := entry :: s.log }) : (threadDiscipline rules).Commits held reads t s s' := by
  rw [writeThread_eq hinv hthread f] at hs'
  obtain ⟨hmem, rfl⟩ := (findThread_some hinv).mp hthread
  subst hs'
  refine commits_of_act hinv (.inr (.rewritten hmem hwrites)) hheld fun id hid => ⟨?_, ?_, Iff.rfl⟩
  · exact findThread_write_of_ne hid fun _ _ => hwrites.same.id
  · show (added.toList ++ s.messages).filter _ = s.messages.filter _
    rw [List.filter_append]
    have hnone : added.toList.filter (fun message => decide (message.threadId = id)) = [] := by
      refine List.filter_eq_nil_iff.mpr fun message hmessage => ?_
      rw [decide_eq_true_eq, hwrites.on_thread message (Option.mem_toList.mp hmessage)]
      exact hid.symm
    rw [hnone, List.nil_append]

theorem commits_erased {requested : Bool} {now : Int} {retentionDays : ℕ}
    (hinv : Sound rules s) (hthread : thread ∈ s.threads) (hnow : now ≤ t)
    (hheld : (ThreadLock.thread thread.id, Mode.exclusive) ∈ held)
    (hdue : requested = true ∨ thread.lastMessageAt ≤ boardMailboxPurgeCutoff now retentionDays)
    (hs' : s' = (s.deleteThread thread.id).record
      (.purged thread.id requested now retentionDays)) :
    (threadDiscipline rules).Commits held reads t s s' := by
  subst hs'
  refine commits_of_act hinv (.inr (.erased hthread hnow hdue)) hheld fun id hid => ⟨?_, ?_, ?_⟩
  · show (s.threads.filter _).find? _ = s.threads.find? _
    rw [List.find?_filter]
    congr 1
    funext row
    by_cases hrow : row.id = id
    · simp [hrow, hid]
    · simp [hrow]
  · show (s.messages.filter _).filter _ = s.messages.filter _
    rw [List.filter_filter]
    congr 1
    funext message
    by_cases hmessage : message.threadId = id
    · simp [hmessage, hid]
    · simp [hmessage]
  · show id ∈ thread.id :: s.retired ↔ id ∈ s.retired
    rw [List.mem_cons, or_iff_right hid]

theorem commits_opened {letter : Letter} {address : String}
    (correspondentPersonId : Option String) (message : BoardMailboxMessage)
    (hinv : Sound rules s) (hsender : letter.fromAddress = some address)
    (hnew : message.threadId ∉ s.threads.map (·.id)) (halive : message.threadId ∉ s.retired)
    (hdirection : message.direction = .INBOUND)
    (hheld : (ThreadLock.thread message.threadId, Mode.exclusive) ∈ held)
    (hs' : s' = { s with
      threads := letter.thread rules address correspondentPersonId message.occurredAt
        message.threadId :: s.threads
      messages := message :: s.messages
      log := .collected message.threadId letter :: s.log }) :
    (threadDiscipline rules).Commits held reads t s s' := by
  subst hs'
  refine commits_of_act hinv (.inr (.opened hsender hnew halive hdirection)) hheld
    fun id hid => ⟨?_, ?_, Iff.rfl⟩
  · refine List.find?_cons_of_neg ?_
    rw [decide_eq_true_eq]
    exact hid.symm
  · exact List.filter_cons_of_neg (by simpa using hid.symm)

end Commits

section Calls

variable {prompt : ThreadLock → Prop} {c : Ctx ThreadStore ThreadLock} {threadId personId : String}

/-! ### What a board member does -/

/-- Once it is locked a thread is as it was read. -/
theorem safe_lockedThread {Q : BoardMailboxThread → Ctx ThreadStore ThreadLock → Prop}
    (hp : c.pending = id)
    (h : ∀ thread c', c'.pending = id → (ThreadLock.thread threadId, Mode.exclusive) ∈ c'.held →
      (∀ t s, c'.knows t s → s.findThread threadId = some thread) → Q thread c') :
    Safe (threadDiscipline rules) prompt (lockedThread threadId) Q c := by
  unfold lockedThread
  rw [safe_bind, safe_acquire]
  intro t₀ s₀ _ _ _
  rw [safe_bind, safe_snapshot]
  intro t₁ s₁ _ _
  rw [show (Ctx.observe (threadDiscipline rules) (c.acquire (.thread threadId) .exclusive) t₀
    s₀).pending = id from hp]
  split
  · exact safe_fail
  · rename_i thread hfound
    rw [safe_pure]
    refine h thread _ hp List.mem_cons_self fun t s hk => ?_
    exact (same_of_rely _ List.mem_cons_self hk.2.2).thread.trans hfound

theorem safe_take : SafeCall (threadDiscipline rules) prompt (take threadId personId) := by
  unfold SafeCall take
  rw [safe_transaction, safe_bind]
  refine safe_lockedThread rfl fun thread c hp hheld hthread => ?_
  rw [safe_bind, safe_readClock]
  intro now s₀ _ _
  rw [safe_bind, safe_update, safe_update]
  refine ⟨fun t s hinv hk => ?_, trivial⟩
  have hwrites : Rewrites rules s thread (thread.takenOver personId now thread) none
      (.taken thread.id personId) := .taken
  have hid := ((findThread_some hinv).mp (hthread t s hk.1)).2
  refine commits_rewritten hwrites hinv (hthread t s hk.1) hheld ?_
  show ((c.pending s).writeThread threadId _).record _ = _
  rw [hp, hid]
  rfl

theorem safe_release : SafeCall (threadDiscipline rules) prompt (release threadId personId) := by
  unfold SafeCall release
  rw [safe_transaction, safe_bind]
  refine safe_lockedThread rfl fun thread c hp hheld hthread => ?_
  rw [safe_bind, safe_update, safe_update]
  refine ⟨fun t s hinv hk => ?_, trivial⟩
  have hwrites : Rewrites rules s thread (thread.putBack thread) none
      (.released thread.id personId) := .released
  have hid := ((findThread_some hinv).mp (hthread t s hk)).2
  refine commits_rewritten hwrites hinv (hthread t s hk) hheld ?_
  show ((c.pending s).writeThread threadId _).record _ = _
  rw [hp, hid]
  rfl

theorem safe_reply {body : String} {configured : Bool} :
    SafeCall (threadDiscipline rules) prompt (reply threadId personId body configured) := by
  unfold SafeCall reply
  rw [safe_bind, safe_refuseIf]
  intro _
  rw [safe_bind, safe_refuseIf]
  intro _
  unfold replyTx
  rw [safe_transaction, safe_bind]
  refine safe_lockedThread rfl fun thread c hp hheld hthread => ?_
  rw [safe_bind, safe_snapshot]
  intro t₀ s₀ _ _
  rw [safe_bind, safe_refuseIf]
  intro hopen
  rw [safe_bind, safe_fresh]
  intro minted
  rw [safe_bind, safe_fresh]
  intro drawn
  rw [safe_bind, safe_readClock]
  intro occurredAt s₁ _ _
  rw [safe_bind, safe_update, safe_bind, safe_readClock]
  intro lastMessageAt s₂ _ hknown
  rw [safe_bind, safe_readClock]
  intro takenAt s₃ _ _
  rw [safe_bind, safe_update, safe_update]
  refine ⟨fun t s hinv hk => ?_, trivial⟩
  -- what the locks keep was known before the clock was read
  have hfound := hthread t s hk.1.1.1.1
  obtain ⟨-, hid⟩ := (findThread_some hinv).mp hfound
  let message : BoardMailboxMessage := ⟨drawn.id, threadId, .OUTBOUND, some minted.id,
    newestLetter (c.pending s₀) threadId, slice (trim body) MAX_REPLY_CHARACTERS, some personId,
    occurredAt, drawn.createdAt⟩
  have hwrites : Rewrites rules s thread (thread.answered personId lastMessageAt takenAt thread)
      (some message) (.replied thread.id personId lastMessageAt) :=
    .replied hopen hid.symm rfl hknown.2.1
  refine commits_rewritten hwrites hinv hfound hheld ?_
  show (((c.pending s).addMessage message).writeThread threadId _).record _ = _
  rw [hp, hid]
  rfl

theorem safe_setClosed {closed : Bool} :
    SafeCall (threadDiscipline rules) prompt (setClosed threadId closed personId) := by
  unfold SafeCall setClosed
  rw [safe_transaction, safe_bind]
  refine safe_lockedThread rfl fun thread c hp hheld hthread => ?_
  cases closed with
  | true =>
    show Safe _ _ (readClock >>= _) _ _
    rw [safe_bind, safe_readClock]
    intro now s₀ _ _
    rw [safe_bind, safe_update, safe_update]
    refine ⟨fun t s hinv hk => ?_, trivial⟩
    have hwrites : Rewrites rules s thread (thread.closedBy personId now) none
        (.closed thread.id personId) := .closed
    have hid := ((findThread_some hinv).mp (hthread t s hk.1)).2
    refine commits_rewritten hwrites hinv (hthread t s hk.1) hheld ?_
    show ((c.pending s).writeThread threadId _).record _ = _
    rw [hp, hid]
    rfl
  | false =>
    show Safe _ _ (reopenTx threadId personId) _ _
    unfold reopenTx reopen
    rw [safe_bind, safe_bind, safe_snapshot]
    intro t₀ s₀ hinv₀ hk₀
    rw [hp]
    split_ifs with hwas
    · rw [safe_bind, safe_update, safe_bind, safe_snapshot]
      intro t₁ s₁ hinv₁ hk₁
      -- the status is decided on the row that was locked, no longer closed
      have hunclosed := findThread_write_self hinv₁ (hthread t₁ s₁ hk₁.1)
        (f := fun row => row.unclosed) fun _ => rfl
      have hpending : ((c.see (threadDiscipline rules) t₀ s₀).write
          fun s => s.writeThread threadId (·.unclosed)).pending s₁ =
            s₁.writeThread threadId (·.unclosed) := by
        show (c.pending s₁).writeThread threadId _ = _
        rw [hp]
        rfl
      rw [hpending, hunclosed]
      show Safe _ _ (update _ >>= _) _ _
      rw [safe_bind, safe_update, safe_pure]
      show Safe _ _ (update _) _ _
      rw [safe_update]
      refine ⟨fun t s hinv hk => ?_, trivial⟩
      have hfound := hthread t s hk.1.1
      obtain ⟨hmem, hid⟩ := (findThread_some hinv).mp hfound
      have hsame := same_of_rely threadId hheld hk.2.2
      have hclosed : thread.status = .CLOSED := by
        obtain ⟨row, hrow, hrowid, hstatus⟩ := hwas
        obtain rfl := Option.some.inj
          (((findThread_some hinv₀).mpr ⟨hrow, hrowid⟩).symm.trans (hthread t₀ s₀ hk₀))
        exact hstatus
      have hwrites : Rewrites rules s thread { thread.unclosed with
          status := thread.statusWhenReopened (newestMessage s thread.id) } none
          (.reopened thread.id personId) := .reopened hclosed
      refine commits_rewritten (f := fun row => { row.unclosed with
        status := thread.statusWhenReopened (newestMessage s thread.id) }) hwrites hinv hfound
        hheld ?_
      have hnewest : newestMessage (s₁.writeThread threadId (·.unclosed)) threadId =
          newestMessage s thread.id := by
        unfold newestMessage
        rw [hid, hsame.messages]
        rfl
      show (((c.pending s).writeThread threadId (·.unclosed)).writeThread threadId fun row =>
        { row with
          status := thread.unclosed.statusWhenReopened (newestMessage _ threadId) }).record _ = _
      rw [hp, hnewest, hid, id_eq, writeThread_writeThread (f := fun row => row.unclosed) fun _ => rfl]
      rfl
    · rw [safe_pure]
      show Safe _ _ (pure ()) _ _
      rw [safe_pure]
      refine ⟨fun t s hinv hk => ?_, trivial⟩
      show (threadDiscipline rules).Commits _ _ t s (c.pending s)
      rw [hp]
      exact commits_nothing hinv

/-! ### Letters -/

/-- Nothing is written yet. -/
theorem safe_openThread {letter : Letter} {address : String}
    {correspondentPersonId : Option String} {occurredAt : Int}
    {Q : String → Ctx ThreadStore ThreadLock → Prop} (hp : c.pending = id)
    (h : ∀ threadId c', (ThreadLock.thread threadId, Mode.exclusive) ∈ c'.held →
      (∀ s, c'.pending s = { s with
        threads := letter.thread rules address correspondentPersonId occurredAt threadId ::
          s.threads }) →
      (∀ t s, (threadDiscipline rules).inv t s → c'.knows t s →
        threadId ∉ s.threads.map (·.id) ∧ threadId ∉ s.retired) → Q threadId c') :
    Safe (threadDiscipline rules) prompt
      (openThread rules letter address correspondentPersonId occurredAt) Q c := by
  unfold openThread
  rw [safe_bind, safe_fresh]
  intro drawn
  rw [safe_bind, safe_acquire]
  intro t₀ s₀ _ _ _
  rw [safe_bind, safe_snapshot]
  intro t₁ s₁ hinv₁ _
  rw [safe_bind, safe_refuseIf]
  intro hfree
  rw [safe_bind, safe_update, safe_pure]
  refine h drawn.id _ List.mem_cons_self (fun s => ?_) fun t s hinv hk => ?_
  · exact Ctx.pending_write hp _ s
  · -- whoever else creates it would hold its lock
    have hsame := same_of_rely drawn.id List.mem_cons_self hk.2.2
    change ¬ (drawn.id ∈ (c.pending s₁).threads.map (·.id) ∨ drawn.id ∈ (c.pending s₁).retired)
      at hfree
    rw [hp, not_or] at hfree
    refine ⟨fun hmem => hfree.1 ?_, fun hmem => hfree.2 (hsame.retired.mp hmem)⟩
    obtain ⟨row, hrow, hid⟩ := List.mem_map.mp hmem
    have hfound := hsame.thread.symm.trans ((findThread_some hinv).mpr ⟨hrow, hid⟩)
    obtain ⟨hrow', hid'⟩ := (findThread_some hinv₁).mp hfound
    exact List.mem_map.mpr ⟨row, hrow', hid'⟩

/-- A letter joins the thread that is there, and nothing is done where it is not. -/
theorem safe_joinThread {occurredAt : Int} {Q : Bool → Ctx ThreadStore ThreadLock → Prop}
    (hp : c.pending = id) (hgone : ∀ c', c'.pending = id → Q false c')
    (h : ∀ thread c', (ThreadLock.thread threadId, Mode.exclusive) ∈ c'.held →
      (∀ t s, c'.knows t s → c.knows t s ∧ s.findThread threadId = some thread) →
      (∀ s, c'.pending s = s.writeThread threadId fun row =>
        (row.followedUp thread.statusAfterLetter).movedForward occurredAt) → Q true c') :
    Safe (threadDiscipline rules) prompt (joinThread threadId occurredAt) Q c := by
  unfold joinThread
  rw [safe_bind, safe_acquire]
  intro t₀ s₀ _ _ _
  rw [safe_bind, safe_snapshot]
  intro t₁ s₁ _ _
  rw [show (Ctx.observe (threadDiscipline rules) (c.acquire (.thread threadId) .exclusive) t₀
    s₀).pending = id from hp]
  split
  · rw [safe_pure]
    exact hgone _ hp
  · rename_i thread hfound
    rw [safe_bind, safe_update, safe_bind, safe_update, safe_pure]
    refine h thread _ List.mem_cons_self (fun t s hk => ⟨hk.1.1, ?_⟩) fun s => ?_
    · exact (same_of_rely _ List.mem_cons_self hk.2.2).thread.trans hfound
    · show ((c.pending s).writeThread threadId _).writeThread threadId _ = _
      rw [hp]
      exact writeThread_writeThread
        (f := fun row => row.followedUp thread.statusAfterLetter) (fun _ => rfl) _

theorem mem_of_answeredThread {s : ThreadStore} {inReplyTo index : String}
    (h : answeredThread s inReplyTo index = some threadId) :
    ∃ thread ∈ s.threads, thread.id = threadId ∧ thread.correspondentEmailIndex = some index := by
  unfold answeredThread at h
  obtain ⟨message, hmessage, rfl⟩ := Option.map_eq_some_iff.mp h
  have hmem := mem_of_firstBy hmessage
  rw [List.mem_filter, decide_eq_true_eq] at hmem
  exact hmem.2.2.2

/-- The thread of a letter: a new one, or one of the same correspondent that it joins. -/
theorem safe_threadFor {letter : Letter} {address : String}
    {correspondentPersonId : Option String} {occurredAt : Int}
    {Q : String → Ctx ThreadStore ThreadLock → Prop} (hp : c.pending = id)
    (hopened : ∀ threadId c', (ThreadLock.thread threadId, Mode.exclusive) ∈ c'.held →
      (∀ s, c'.pending s = { s with
        threads := letter.thread rules address correspondentPersonId occurredAt threadId ::
          s.threads }) →
      (∀ t s, (threadDiscipline rules).inv t s → c'.knows t s →
        threadId ∉ s.threads.map (·.id) ∧ threadId ∉ s.retired) → Q threadId c')
    (hjoined : ∀ threadId thread c', (ThreadLock.thread threadId, Mode.exclusive) ∈ c'.held →
      (∀ t s, (threadDiscipline rules).inv t s → c'.knows t s →
        s.findThread threadId = some thread ∧ thread.correspondentEmailIndex ≠ none ∧
          thread.correspondentEmailIndex = emailIndex rules address) →
      (∀ s, c'.pending s = s.writeThread threadId fun row =>
        (row.followedUp thread.statusAfterLetter).movedForward occurredAt) → Q threadId c') :
    Safe (threadDiscipline rules) prompt
      (threadFor rules letter address correspondentPersonId occurredAt) Q c := by
  unfold threadFor
  split
  · rename_i inReplyTo index _ hindex
    rw [safe_bind, safe_snapshot]
    intro t₀ s₀ hinv₀ _
    rw [hp]
    split
    · exact safe_openThread hp hopened
    · rename_i threadId hanswered
      obtain ⟨row, hrow, hid, hrowIndex⟩ := mem_of_answeredThread hanswered
      rw [safe_bind]
      refine safe_joinThread hp (fun c' hp' => safe_openThread hp' hopened) ?_
      intro thread c' hheld hknows hpending
      show Safe _ _ (pure threadId) Q c'
      rw [safe_pure]
      refine hjoined threadId thread c' hheld (fun t s hinv hk => ?_) hpending
      obtain ⟨hseen, hfound⟩ := hknows t s hk
      -- a thread stays that of its correspondent
      obtain ⟨hthread, hthreadId⟩ := (findThread_some hinv).mp hfound
      have hsame := (since_of_rely hseen.2.2).same hinv hrow hthread (hthreadId.trans hid.symm)
      have hindexed : thread.correspondentEmailIndex = some index := hsame.index.trans hrowIndex
      exact ⟨hfound, by rw [hindexed]; exact Option.some_ne_none index, hindexed.trans hindex.symm⟩
  · exact safe_openThread hp hopened

theorem safe_collectOne {letter : Letter} {withheld : Bool}
    {correspondentPersonId : Option String} : SafeCall (threadDiscipline rules) prompt
      (collectOne rules letter withheld correspondentPersonId) := by
  unfold SafeCall collectOne
  rw [safe_bind, safe_readClock]
  intro now s₀ _ _
  dsimp only
  split
  · trivial
  · rename_i address hsender
    split_ifs
    · trivial
    · rw [safe_transaction]
      unfold storeLetter
      rw [safe_bind]
      apply safe_threadFor rfl
      · intro threadId c' hheld hpending hfree
        rw [safe_bind, safe_fresh]
        intro drawn
        rw [safe_bind, safe_update, safe_update]
        refine ⟨fun t s hinv hk => ?_, trivial⟩
        obtain ⟨hnew, halive⟩ := hfree t s hinv hk
        let message : BoardMailboxMessage := ⟨drawn.id, threadId, .INBOUND, letter.messageId,
          letter.inReplyTo, letter.text, none, trustedDate letter.date letter.receivedAt now,
          drawn.createdAt⟩
        refine commits_opened correspondentPersonId message hinv hsender hnew halive rfl hheld ?_
        show ((c'.pending s).addMessage message).record _ = _
        rw [hpending]
        rfl
      · intro threadId thread c' hheld hknows hpending
        rw [safe_bind, safe_fresh]
        intro drawn
        rw [safe_bind, safe_update, safe_update]
        refine ⟨fun t s hinv hk => ?_, trivial⟩
        obtain ⟨hfound, hindexed, hindex⟩ := hknows t s hinv hk
        obtain ⟨-, hid⟩ := (findThread_some hinv).mp hfound
        let message : BoardMailboxMessage := ⟨drawn.id, threadId, .INBOUND, letter.messageId,
          letter.inReplyTo, letter.text, none, trustedDate letter.date letter.receivedAt now,
          drawn.createdAt⟩
        have hwrites : Rewrites rules s thread
            ((thread.followedUp thread.statusAfterLetter).movedForward message.occurredAt)
            (some message) (.collected thread.id letter) :=
          .joined hsender hindexed hindex hid.symm rfl
        refine commits_rewritten (f := fun row =>
          (row.followedUp thread.statusAfterLetter).movedForward message.occurredAt) hwrites hinv
          hfound hheld ?_
        show ((c'.pending s).addMessage message).record _ = _
        rw [hpending, hid]
        rfl

/-! ### The purge -/

theorem safe_purgeThread {w : Withholding} {now : Int} {retentionDays : ℕ}
    {Q : Ctx ThreadStore ThreadLock → Prop} (hp : c.pending = id)
    (hnow : ∀ t s, c.knows t s → now ≤ t)
    (h : ∀ c', c'.pending = id → (∀ t s, c'.knows t s → now ≤ t) → Q c') :
    Safe (threadDiscipline rules) prompt (purgeThread w now retentionDays threadId)
      (fun _ => Q) c := by
  -- after a commit the clock has not gone back
  have hcommit : ∀ c' : Ctx ThreadStore ThreadLock, (∀ t s, c'.knows t s → now ≤ t) →
      Q (c'.commit (threadDiscipline rules)) := by
    intro c' hnow'
    refine h _ rfl ?_
    rintro t s ⟨t₀, s₀, -, hk, hle, -⟩
    exact (hnow' t₀ s₀ hk).trans hle
  have hnothing : ∀ c' : Ctx ThreadStore ThreadLock, c'.pending = id →
      ∀ t s, (threadDiscipline rules).inv t s → c'.knows t s →
        (threadDiscipline rules).Commits c'.held c'.reads t s (c'.pending s) := by
    intro c' hp' t s hinv _
    rw [hp']
    exact commits_nothing hinv
  unfold purgeThread
  rw [safe_bind, safe_snapshot]
  intro t₀ s₀ _ _
  split
  · rw [safe_pure]
    exact h _ hp fun t s hk => hnow t s hk.1
  · rename_i thread _
    rw [safe_transaction]
    unfold purgeTx
    rw [safe_bind, safe_acquire]
    intro t₁ s₁ _ _ _
    split_ifs
    · rw [safe_pure]
      exact ⟨hnothing _ hp, hcommit _ fun t s hk => hnow t s hk.1.1⟩
    · rw [safe_bind]
      have herase : ∀ c' : Ctx ThreadStore ThreadLock, c'.pending = id →
          (∀ t s, c'.knows t s → now ≤ t) →
          Safe (threadDiscipline rules) prompt
            (eraseThread thread.id (w.requested thread) now retentionDays) (fun _ c' =>
              (∀ t s, (threadDiscipline rules).inv t s → c'.knows t s →
                (threadDiscipline rules).Commits c'.held c'.reads t s (c'.pending s)) ∧
                Q (c'.commit (threadDiscipline rules))) c' := by
        intro c' hp' hnow'
        unfold eraseThread
        rw [safe_bind, safe_acquire]
        intro t₂ s₂ _ _ _
        rw [safe_bind, safe_snapshot]
        intro t₃ s₃ hinv₃ _
        split_ifs with hdue
        · rw [safe_bind, safe_update, safe_update]
          refine ⟨fun t s hinv hk => ?_, hcommit _ fun t s hk => hnow' t s hk.1.1⟩
          obtain ⟨row, hrow, hid, hwindow⟩ := hdue
          change row ∈ (c'.pending s₃).threads at hrow
          rw [hp'] at hrow
          have hsame := same_of_rely thread.id List.mem_cons_self hk.2.2
          have hfound := hsame.thread.trans ((findThread_some hinv₃).mpr ⟨hrow, hid⟩)
          obtain ⟨hrow', -⟩ := (findThread_some hinv).mp hfound
          refine commits_erased hinv hrow' (hnow' t s hk.1.1) (hid ▸ List.mem_cons_self) hwindow ?_
          show ((c'.pending s).deleteThread thread.id).record _ = _
          rw [hp', hid]
          rfl
        · rw [safe_pure]
          exact ⟨hnothing _ hp', hcommit _ fun t s hk => hnow' t s hk.1.1⟩
      unfold lockErasure
      split
      · rw [safe_pure]
        exact herase _ hp fun t s hk => hnow t s hk.1.1
      · rw [safe_acquire]
        intro t₂ s₂ _ _ _
        exact herase _ hp fun t s hk => hnow t s hk.1.1.1

theorem safe_purge {w : Withholding} {later : String → Withholding} {retentionDays : ℕ} :
    SafeCall (threadDiscipline rules) prompt (purge w later retentionDays) := by
  unfold SafeCall purge
  rw [safe_bind, safe_readClock]
  intro now s₀ _ _
  rw [safe_bind, safe_snapshot]
  intro t₁ s₁ _ _
  refine Safe.mono (fun _ _ _ => trivial) (safe_forM (Q := fun c' =>
    c'.pending = id ∧ ∀ t s, c'.knows t s → now ≤ t) ?_ ?_)
  · exact ⟨rfl, fun t s hk => hk.1.2.1⟩
  · rintro threadId - c' ⟨hp, hnow⟩
    exact safe_purgeThread hp hnow fun c'' hp' hnow' => ⟨hp', hnow'⟩

theorem safe_calls {p : ThreadTx Unit} (h : ThreadCall rules p) :
    SafeCall (threadDiscipline rules) prompt p := by
  cases h with
  | collect => exact safe_collectOne
  | take => exact safe_take
  | release => exact safe_release
  | reply => exact @safe_reply _ _ _ _ _ _
  | setClosed => exact safe_setClosed
  | purge => exact safe_purge

end Calls

end OpenBrf.MailThreads
