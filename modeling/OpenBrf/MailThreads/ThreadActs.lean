import Mathlib.Algebra.Order.Group.Int
import Mathlib.Data.List.Nodup
import OpenBrf.MailThreads.ThreadWrite

/-!
# MailThreads.ThreadActs — what a commit does to the threads

Every commit opens a thread, writes one over or erases one.  What its state, its holder and its
closing say of a thread agrees after each; whether the anchor moves back and whether the answer that
is owed is shown as given depends on what the clock and the rows say.
-/

namespace OpenBrf.MailThreads

open Txn Lang ThreadStore

variable {rules : AddressRules} {s s' s'' : ThreadStore} {thread thread' : BoardMailboxThread}
  {added : Option BoardMailboxMessage} {entry : ThreadEntry} {t : Int}

/-- Its state, its holder and its closing agree. -/
structure BoardMailboxThread.Coherent (thread : BoardMailboxThread) : Prop where
  taken : thread.status = .TAKEN → thread.takenByPersonId ≠ none
  new : thread.status = .NEW → thread.takenByPersonId = none
  closed : thread.status = .CLOSED ↔ thread.closedAt ≠ none

/-- What every committed state has. -/
structure Sound (rules : AddressRules) (s : ThreadStore) : Prop where
  ids : (s.threads.map (·.id)).Nodup
  alive : ∀ thread ∈ s.threads, thread.id ∉ s.retired
  owned : ∀ message ∈ s.messages, ∃ thread ∈ s.threads, thread.id = message.threadId
  coherent : ∀ thread ∈ s.threads, thread.Coherent
  indexed : ∀ thread ∈ s.threads,
    thread.correspondentEmailIndex = emailIndex rules thread.correspondentEmail

theorem sound_empty (rules : AddressRules) : Sound rules {} where
  ids := .nil
  alive _ h := absurd h List.not_mem_nil
  owned _ h := absurd h List.not_mem_nil
  coherent _ h := absurd h List.not_mem_nil
  indexed _ h := absurd h List.not_mem_nil

theorem Sound.eq_of_id (h : Sound rules s) (hthread : thread ∈ s.threads)
    (hthread' : thread' ∈ s.threads) (hid : thread.id = thread'.id) : thread = thread' :=
  List.inj_on_of_nodup_map h.ids hthread hthread' hid

theorem mem_messagesOn {message : BoardMailboxMessage} {threadId : String} :
    message ∈ s.messagesOn threadId ↔ message ∈ s.messages ∧ message.threadId = threadId := by
  unfold messagesOn
  rw [List.mem_filter, decide_eq_true_eq]

theorem messagesOn_cons (message : BoardMailboxMessage) (threadId : String) :
    (s.addMessage message).messagesOn threadId =
      if message.threadId = threadId then message :: s.messagesOn threadId
      else s.messagesOn threadId := by
  unfold messagesOn addMessage
  rw [List.filter_cons]
  simp only [decide_eq_true_eq]

theorem mem_of_firstBy {α : Type} {before : α → α → Bool} {rows : List α} {row : α}
    (h : firstBy before rows = some row) : row ∈ rows := by
  unfold firstBy at h
  -- whatever the fold has found is one of the rows
  refine List.foldlRecOn (motive := fun first => ∀ found, first = some found → found ∈ rows)
    rows _ (fun _ hnone => ?_) (fun first hfirst next hnext found hfound => ?_) row h
  · cases hnone
  · cases first with
    | none => exact Option.some.inj hfound ▸ hnext
    | some held =>
      dsimp only at hfound
      split_ifs at hfound
      · exact Option.some.inj hfound ▸ hnext
      · exact hfirst found hfound

/-! ### The acts -/

/-- What one writer makes of a thread as it stands: the row, what is written on it and what is left
on record. -/
inductive Rewrites (rules : AddressRules) (s : ThreadStore) (thread : BoardMailboxThread) :
    BoardMailboxThread → Option BoardMailboxMessage → ThreadEntry → Prop
  | joined {letter : Letter} {address : String} {message : BoardMailboxMessage} :
      letter.fromAddress = some address → thread.correspondentEmailIndex ≠ none →
      thread.correspondentEmailIndex = emailIndex rules address →
      message.threadId = thread.id → message.direction = .INBOUND →
      Rewrites rules s thread
        ((thread.followedUp thread.statusAfterLetter).movedForward message.occurredAt)
        (some message) (.collected thread.id letter)
  | taken {personId : String} {now : Int} :
      Rewrites rules s thread (thread.takenOver personId now thread) none
        (.taken thread.id personId)
  | released {personId : String} :
      Rewrites rules s thread (thread.putBack thread) none (.released thread.id personId)
  | replied {personId : String} {message : BoardMailboxMessage} {now takenAt : Int} :
      thread.status ≠ .CLOSED → message.threadId = thread.id → message.direction = .OUTBOUND →
      message.occurredAt ≤ now →
      Rewrites rules s thread (thread.answered personId now takenAt thread) (some message)
        (.replied thread.id personId now)
  | closed {personId : String} {now : Int} :
      Rewrites rules s thread (thread.closedBy personId now) none (.closed thread.id personId)
  | reopened {personId : String} : thread.status = .CLOSED →
      Rewrites rules s thread { thread.unclosed with
        status := thread.statusWhenReopened (newestMessage s thread.id) } none
        (.reopened thread.id personId)

/-- One commit, on the threads as they stand. -/
inductive ThreadAct (rules : AddressRules) (t : Int) (s : ThreadStore) : ThreadStore → Prop
  | opened {letter : Letter} {address : String} {correspondentPersonId : Option String}
      {message : BoardMailboxMessage} : letter.fromAddress = some address →
      message.threadId ∉ s.threads.map (·.id) → message.threadId ∉ s.retired →
      message.direction = .INBOUND →
      ThreadAct rules t s { s with
        threads := letter.thread rules address correspondentPersonId message.occurredAt
          message.threadId :: s.threads
        messages := message :: s.messages
        log := .collected message.threadId letter :: s.log }
  | rewritten {thread thread' : BoardMailboxThread} {added : Option BoardMailboxMessage}
      {entry : ThreadEntry} : thread ∈ s.threads → Rewrites rules s thread thread' added entry →
      ThreadAct rules t s { s with
        threads := (s.writeThread thread.id fun _ => thread').threads
        messages := added.toList ++ s.messages
        log := entry :: s.log }
  | erased {thread : BoardMailboxThread} {requested : Bool} {now : Int} {retentionDays : ℕ} :
      thread ∈ s.threads → now ≤ t →
      (requested = true ∨ thread.lastMessageAt ≤ boardMailboxPurgeCutoff now retentionDays) →
      ThreadAct rules t s
        ((s.deleteThread thread.id).record (.purged thread.id requested now retentionDays))

/-- Nothing, or one act. -/
def Acted (rules : AddressRules) (t : Int) (s s' : ThreadStore) : Prop :=
  s' = s ∨ ThreadAct rules t s s'

/-! ### Every act keeps the threads sound -/

/-- The same thread, of the same correspondent. -/
structure SameCorrespondent (thread thread' : BoardMailboxThread) : Prop where
  id : thread'.id = thread.id
  email : thread'.correspondentEmail = thread.correspondentEmail
  index : thread'.correspondentEmailIndex = thread.correspondentEmailIndex

theorem movedForward_eq (thread : BoardMailboxThread) (occurredAt : Int) :
    thread.movedForward occurredAt =
      { thread with lastMessageAt := max thread.lastMessageAt occurredAt } := by
  unfold BoardMailboxThread.movedForward
  split_ifs with hlt
  · rw [max_eq_right hlt.le]
  · rw [max_eq_left (not_lt.mp hlt)]

theorem Rewrites.same (h : Rewrites rules s thread thread' added entry) :
    SameCorrespondent thread thread' := by
  cases h with
  | joined =>
    rw [movedForward_eq]
    exact ⟨rfl, rfl, rfl⟩
  | _ => exact ⟨rfl, rfl, rfl⟩

theorem Rewrites.on_thread (h : Rewrites rules s thread thread' added entry) :
    ∀ message ∈ added, message.threadId = thread.id := by
  intro message hmessage
  cases h with
  | joined _ _ _ hthread _ =>
    obtain rfl := Option.some.inj hmessage
    exact hthread
  | replied _ hthread _ _ =>
    obtain rfl := Option.some.inj hmessage
    exact hthread
  | _ => cases hmessage

theorem statusAfterLetter_coherent (h : thread.Coherent) :
    (thread.statusAfterLetter = .TAKEN → thread.takenByPersonId ≠ none) ∧
      (thread.statusAfterLetter = .NEW → thread.takenByPersonId = none) ∧
      thread.statusAfterLetter ≠ .CLOSED ∧ thread.statusAfterLetter ≠ .ANSWERED := by
  unfold BoardMailboxThread.statusAfterLetter
  split_ifs with hover hnone
  · exact ⟨nofun, fun _ => hnone, nofun, nofun⟩
  · exact ⟨fun _ => hnone, nofun, nofun, nofun⟩
  · exact ⟨h.taken, h.new, fun hclosed => hover (.inr hclosed),
      fun hanswered => hover (.inl hanswered)⟩

theorem statusWhenReopened_coherent (thread : BoardMailboxThread)
    (newest : Option BoardMailboxMessage) :
    (thread.statusWhenReopened newest = .TAKEN → thread.takenByPersonId ≠ none) ∧
      (thread.statusWhenReopened newest = .NEW → thread.takenByPersonId = none) ∧
      thread.statusWhenReopened newest ≠ .CLOSED ∧
      (thread.statusWhenReopened newest = .ANSWERED ↔
        newest.map (·.direction) = some .OUTBOUND) := by
  unfold BoardMailboxThread.statusWhenReopened
  split_ifs with hours hnone
  · exact ⟨nofun, nofun, nofun, fun _ => hours, fun _ => rfl⟩
  · exact ⟨nofun, fun _ => hnone, nofun, nofun, fun h => absurd h hours⟩
  · exact ⟨fun _ => hnone, nofun, nofun, nofun, fun h => absurd h hours⟩

theorem Rewrites.coherent (h : Rewrites rules s thread thread' added entry)
    (hthread : thread.Coherent) : thread'.Coherent := by
  cases h with
  | joined =>
    obtain ⟨htaken, hnew, hclosed, -⟩ := statusAfterLetter_coherent hthread
    rw [movedForward_eq]
    exact ⟨htaken, hnew, fun h => absurd h hclosed, fun h => absurd rfl h⟩
  | taken =>
    refine ⟨fun _ => nofun, fun hnew => ?_, ?_⟩
    · change (if thread.status = .CLOSED ∨ thread.status = .NEW then _ else thread.status) = _
        at hnew
      split_ifs at hnew with hfree
      exact absurd (.inr hnew) hfree
    · show (if thread.status = .CLOSED ∨ thread.status = .NEW then _ else thread.status) = _ ↔
        (if thread.status = .CLOSED then none else thread.closedAt) ≠ none
      split_ifs with hfree hclosed hclosed
      · exact ⟨nofun, fun h => absurd rfl h⟩
      · exact ⟨nofun, fun h => absurd (hthread.closed.mpr h) hclosed⟩
      · exact absurd (.inl hclosed) hfree
      · exact hthread.closed
  | released =>
    refine ⟨fun htaken => ?_, fun _ => rfl, ?_⟩
    · change (if thread.status = .TAKEN then _ else thread.status) = _ at htaken
      split_ifs at htaken with hwas
      exact absurd htaken hwas
    · show (if thread.status = .TAKEN then _ else thread.status) = _ ↔ thread.closedAt ≠ none
      split_ifs with hwas
      · refine ⟨nofun, fun h => ?_⟩
        rw [hthread.closed.mpr h] at hwas
        cases hwas
      · exact hthread.closed
  | replied hopen =>
    exact ⟨nofun, nofun, nofun, fun h => absurd (hthread.closed.mpr h) hopen⟩
  | closed => exact ⟨nofun, nofun, fun _ => nofun, fun _ => rfl⟩
  | reopened =>
    obtain ⟨htaken, hnew, hclosed, -⟩ :=
      statusWhenReopened_coherent thread (newestMessage s thread.id)
    exact ⟨htaken, hnew, fun h => absurd h hclosed, fun h => absurd rfl h⟩

theorem mem_writeThread {id : String} {f : BoardMailboxThread → BoardMailboxThread}
    (h : thread' ∈ (s.writeThread id f).threads) :
    ∃ row ∈ s.threads, (row.id = id ∧ thread' = f row) ∨ (row.id ≠ id ∧ thread' = row) := by
  obtain ⟨row, hrow, rfl⟩ := List.mem_map.mp h
  refine ⟨row, hrow, ?_⟩
  split_ifs with hid
  · exact .inl ⟨hid, rfl⟩
  · exact .inr ⟨hid, rfl⟩

/-- The rows after one was written over: that one, and the others. -/
theorem Rewrites.mem (h : Rewrites rules s thread thread' added entry)
    (hthread : thread ∈ s.threads) {row' : BoardMailboxThread} :
    row' ∈ (s.writeThread thread.id fun _ => thread').threads ↔
      row' = thread' ∨ (row' ∈ s.threads ∧ row'.id ≠ thread.id) := by
  constructor
  · intro hrow'
    obtain ⟨row, hrow, ⟨-, rfl⟩ | ⟨hid, rfl⟩⟩ := mem_writeThread hrow'
    · exact .inl rfl
    · exact .inr ⟨hrow, hid⟩
  · rintro (rfl | ⟨hrow, hid⟩)
    · exact List.mem_map.mpr ⟨thread, hthread, if_pos rfl⟩
    · exact List.mem_map.mpr ⟨row', hrow, if_neg hid⟩

theorem Rewrites.ids (h : Rewrites rules s thread thread' added entry) :
    (s.writeThread thread.id fun _ => thread').threads.map (·.id) = s.threads.map (·.id) := by
  unfold writeThread
  rw [List.map_map]
  refine List.map_congr_left fun row _ => ?_
  show (if row.id = thread.id then thread' else row).id = row.id
  split_ifs with hid
  · rw [h.same.id, hid]
  · rfl

theorem Sound.opened (h : Sound rules s) {letter : Letter} {address : String}
    {correspondentPersonId : Option String} {message : BoardMailboxMessage}
    {log : List ThreadEntry} (hnew : message.threadId ∉ s.threads.map (·.id))
    (halive : message.threadId ∉ s.retired) :
    Sound rules { s with
      threads := letter.thread rules address correspondentPersonId message.occurredAt
        message.threadId :: s.threads
      messages := message :: s.messages
      log } where
  ids := List.nodup_cons.mpr ⟨hnew, h.ids⟩
  alive row hrow := by
    rcases List.mem_cons.mp hrow with rfl | hrow
    · exact halive
    · exact h.alive row hrow
  owned other hother := by
    rcases List.mem_cons.mp hother with rfl | hother
    · exact ⟨_, List.mem_cons_self, rfl⟩
    · obtain ⟨row, hrow, hid⟩ := h.owned other hother
      exact ⟨row, List.mem_cons_of_mem _ hrow, hid⟩
  coherent row hrow := by
    rcases List.mem_cons.mp hrow with rfl | hrow
    · exact ⟨nofun, fun _ => rfl, nofun, fun h => absurd rfl h⟩
    · exact h.coherent row hrow
  indexed row hrow := by
    rcases List.mem_cons.mp hrow with rfl | hrow
    · rfl
    · exact h.indexed row hrow

theorem Sound.rewritten (h : Sound rules s) (hthread : thread ∈ s.threads)
    (hwrites : Rewrites rules s thread thread' added entry) {log : List ThreadEntry} :
    Sound rules { s with
      threads := (s.writeThread thread.id fun _ => thread').threads
      messages := added.toList ++ s.messages
      log } where
  ids := hwrites.ids ▸ h.ids
  alive row hrow := by
    rcases (hwrites.mem hthread).mp hrow with rfl | ⟨hrow, -⟩
    · rw [hwrites.same.id]
      exact h.alive thread hthread
    · exact h.alive row hrow
  owned message hmessage := by
    have hids : ∀ id, (∃ row ∈ s.threads, row.id = id) →
        ∃ row ∈ (s.writeThread thread.id fun _ => thread').threads, row.id = id := by
      intro id hrow
      have hid : id ∈ s.threads.map (·.id) := List.mem_map.mpr hrow
      rw [← hwrites.ids] at hid
      exact List.mem_map.mp hid
    refine hids _ ?_
    rcases List.mem_append.mp hmessage with hadded | hmessage
    · exact ⟨thread, hthread, (hwrites.on_thread message (Option.mem_toList.mp hadded)).symm⟩
    · exact h.owned message hmessage
  coherent row hrow := by
    rcases (hwrites.mem hthread).mp hrow with rfl | ⟨hrow, -⟩
    · exact hwrites.coherent (h.coherent thread hthread)
    · exact h.coherent row hrow
  indexed row hrow := by
    rcases (hwrites.mem hthread).mp hrow with rfl | ⟨hrow, -⟩
    · rw [hwrites.same.index, hwrites.same.email]
      exact h.indexed thread hthread
    · exact h.indexed row hrow

theorem mem_deleteThread {threadId : String} :
    thread ∈ (s.deleteThread threadId).threads ↔ thread ∈ s.threads ∧ thread.id ≠ threadId := by
  unfold deleteThread
  rw [List.mem_filter, decide_eq_true_eq]

theorem Sound.erased (h : Sound rules s) (threadId : String) (entry : ThreadEntry) :
    Sound rules ((s.deleteThread threadId).record entry) where
  ids := h.ids.sublist (List.filter_sublist.map _)
  alive row hrow := by
    obtain ⟨hrow, hid⟩ := mem_deleteThread.mp hrow
    exact List.not_mem_cons_of_ne_of_not_mem hid (h.alive row hrow)
  owned message hmessage := by
    obtain ⟨hmessage, hid⟩ := List.mem_filter.mp hmessage
    obtain ⟨row, hrow, hsame⟩ := h.owned message hmessage
    refine ⟨row, mem_deleteThread.mpr ⟨hrow, ?_⟩, hsame⟩
    rw [hsame]
    exact of_decide_eq_true hid
  coherent row hrow := h.coherent row (mem_deleteThread.mp hrow).1
  indexed row hrow := h.indexed row (mem_deleteThread.mp hrow).1

theorem Sound.acted (h : Sound rules s) (hacted : Acted rules t s s') : Sound rules s' := by
  rcases hacted with rfl | hact
  · exact h
  · cases hact with
    | opened _ hnew halive _ => exact h.opened hnew halive
    | rewritten hthread hwrites => exact h.rewritten hthread hwrites
    | erased => exact h.erased _ _

/-! ### Threads over time -/

/-- An identifier is given once, and a thread stays that of its correspondent. -/
structure Since (s s' : ThreadStore) : Prop where
  retired : s.retired ⊆ s'.retired
  threads : ∀ thread ∈ s.threads, thread.id ∈ s'.retired ∨
    ∃ thread' ∈ s'.threads, SameCorrespondent thread thread'

theorem SameCorrespondent.refl (thread : BoardMailboxThread) : SameCorrespondent thread thread :=
  ⟨rfl, rfl, rfl⟩

theorem SameCorrespondent.trans {thread'' : BoardMailboxThread}
    (h : SameCorrespondent thread thread') (h' : SameCorrespondent thread' thread'') :
    SameCorrespondent thread thread'' :=
  ⟨h'.id.trans h.id, h'.email.trans h.email, h'.index.trans h.index⟩

theorem Since.refl (s : ThreadStore) : Since s s :=
  ⟨List.Subset.refl _, fun thread hthread => .inr ⟨thread, hthread, .refl thread⟩⟩

theorem Since.trans (h : Since s s') (h' : Since s' s'') : Since s s'' := by
  refine ⟨List.Subset.trans h.retired h'.retired, fun thread hthread => ?_⟩
  rcases h.threads thread hthread with hgone | ⟨thread', hthread', hsame⟩
  · exact .inl (h'.retired hgone)
  · rcases h'.threads thread' hthread' with hgone | ⟨thread'', hthread'', hsame'⟩
    · exact .inl (hsame.id ▸ hgone)
    · exact .inr ⟨thread'', hthread'', hsame.trans hsame'⟩

/-- A thread that is still there is that of the same correspondent. -/
theorem Since.same (h : Since s s') (hsound : Sound rules s') (hthread : thread ∈ s.threads)
    (hthread' : thread' ∈ s'.threads) (hid : thread'.id = thread.id) :
    SameCorrespondent thread thread' := by
  rcases h.threads thread hthread with hgone | ⟨row, hrow, hsame⟩
  · exact absurd (hid ▸ hgone) (hsound.alive thread' hthread')
  · rwa [hsound.eq_of_id hthread' hrow (hid.trans hsame.id.symm)]

theorem Acted.since (hsound : Sound rules s) (h : Acted rules t s s') : Since s s' := by
  rcases h with rfl | hact
  · exact .refl _
  · cases hact with
    | opened =>
      exact ⟨List.Subset.refl _, fun row hrow =>
        .inr ⟨row, List.mem_cons_of_mem _ hrow, .refl row⟩⟩
    | @rewritten thread thread' _ _ hthread hwrites =>
      refine ⟨List.Subset.refl _, fun row hrow => .inr ?_⟩
      by_cases hid : row.id = thread.id
      · rw [hsound.eq_of_id hrow hthread hid]
        exact ⟨thread', (hwrites.mem hthread).mpr (.inl rfl), hwrites.same⟩
      · exact ⟨row, (hwrites.mem hthread).mpr (.inr ⟨hrow, hid⟩), .refl row⟩
    | @erased thread =>
      refine ⟨List.subset_cons_self _ _, fun row hrow => ?_⟩
      by_cases hid : row.id = thread.id
      · exact .inl (hid ▸ List.mem_cons_self)
      · exact .inr ⟨row, mem_deleteThread.mpr ⟨hrow, hid⟩, .refl row⟩

end OpenBrf.MailThreads
