import OpenBrf.BoardMailbox.Mailer

/-!
# BoardMailbox.ReplyDelivery — a reply among its attempts

The claim is the one right there is: whoever takes it hands the reply over and records what came
of it, and nobody takes it twice.  The handler of the dead letter and the purge only write the
row.
-/

namespace OpenBrf.BoardMailbox

open Async

namespace ReplyStore

/-- A reply nobody has claimed. -/
def Unclaimed (s : ReplyStore) : Prop := ∃ row ∈ s.row, row.unclaimed = true

/-- No reply is left pending. -/
def Settled (s : ReplyStore) : Prop := ∀ row ∈ s.row, row.deliveryStatus ≠ .PENDING

/-- The row reads that the mail server refused the reply. -/
def Refused (s : ReplyStore) : Prop :=
  ∃ row ∈ s.row, row.deliveryStatus = .FAILED ∧ row.deliveryFailure = some .refused

/-- The row reads that the reply was sent. -/
def Sent (s : ReplyStore) : Prop := ∃ row ∈ s.row, row.deliveryStatus = .SENT

/-- What is recorded of a reply is what became of it. -/
structure Truthful (s : ReplyStore) : Prop where
  once : s.handedOver.length ≤ 1
  interrupted : s.interrupted = true → s.handedOver = []
  sent : s.Sent → s.accepted ≠ []
  refused : s.Refused → s.accepted = []
  settled : s.completed = true ∨ s.givenUp = true → s.Settled

/-- Every reachable reply is handed over once at most, and its row reads what became of it. -/
structure Coherent (s : ReplyStore) : Prop extends s.Truthful where
  unclaimed : s.Unclaimed → s.handedOver = [] ∧ s.interrupted = false ∧ s.accepted = []

end ReplyStore

/-- A reply that can be addressed is sent from an instance in production, and the transport does
not fail on it once the server has accepted it. -/
def Instance.Reports (inst : Instance) : Prop :=
  ∀ message address recipient, inst.decrypt message.correspondentEmailCipher = some recipient →
    inst.production = true ∧ ¬ inst.driver.answers (replyMail message recipient address) true none

open ReplyStore

/-- What the statements keep: the claim is the only right. -/
def replyDiscipline : Discipline ReplyStore Unit where
  inv _ s := s.Coherent
  free _ s := s.Unclaimed
  always m m' :=
    (m'.2.Unclaimed → m.2.Unclaimed) ∧ (m.2.Settled → m'.2.Settled) ∧
      (¬ m.2.Unclaimed → m'.2.interrupted = m.2.interrupted)
  keeps _ m m' := m'.2.handedOver = m.2.handedOver ∧ m'.2.accepted = m.2.accepted ∧
    (m'.2.Refused → m.2.Refused)
  allowed _ _ := True
  inv_tick _ h := h
  always_tick _ := ⟨id, id, fun _ => rfl⟩
  keeps_tick _ := ⟨rfl, rfl, id⟩
  allowed_refl _ := trivial
  always_trans _ _ h h' := ⟨h.1 ∘ h'.1, h'.2.1 ∘ h.2.1, fun hu =>
    (h'.2.2 fun hu' => hu (h.1 hu')).trans (h.2.2 hu)⟩
  keeps_trans _ _ h h' := ⟨h'.1.trans h.1, h'.2.1.trans h.2.1, h.2.2 ∘ h'.2.2⟩
  free_of_always h := h.1

/-- A conditional update writes the row where it matches it. -/
theorem safe_updateMany {h : Unit → Prop} {m : Moment ReplyStore} {matched : ReplyRow → Bool}
    {data : Int → ReplyRow → ReplyRow}
    {Q : Except MailerError Bool → (Unit → Prop) → Moment ReplyStore → Prop}
    (hmissed : ∀ t s, replyDiscipline.Rely h m (t, s) → s.Coherent →
      (∀ row ∈ s.row, ¬ matched row = true) → Q (.ok false) h (t, s))
    (hwritten : ∀ t s row, replyDiscipline.Rely h m (t, s) → s.Coherent → s.row = some row →
      matched row = true → ∃ h', replyDiscipline.Commits h h' (t, s)
        (t, { s with row := some (data t row) }) ∧
          Q (.ok true) h' (t, { s with row := some (data t row) })) :
    Safe replyDiscipline (updateMany matched data) Q h m := by
  unfold updateMany
  refine safe_atomic fun t s hrely hinv => ?_
  match hrow : s.row with
  | none =>
    refine ⟨h, .refl hinv, hmissed t s hrely hinv fun row hr => ?_⟩
    rw [Option.mem_def, hrow] at hr
    cases hr
  | some row =>
    by_cases hmatched : matched row = true
    · simp only [hmatched, if_true]
      exact hwritten t s row hrely hinv hrow hmatched
    · simp only [hmatched]
      refine ⟨h, .refl hinv, hmissed t s hrely hinv fun r hr => ?_⟩
      obtain rfl := Option.some.inj (hrow.symm.trans hr)
      exact hmatched

/-! ### The attempt that has the claim -/

/-- What the attempt that has the claim knows: what the mail server was handed and accepted. -/
structure Mine (handed accepted : List OutgoingMail) (s : ReplyStore) : Prop where
  handedOver : s.handedOver = handed
  accepted : s.accepted = accepted
  interrupted : s.interrupted = false
  claimed : ¬ s.Unclaimed
  notRefused : ¬ s.Refused

/-- Nobody else touches it. -/
theorem Mine.rely {handed accepted : List OutgoingMail} {m m' : Moment ReplyStore}
    (hm : Mine handed accepted m.2) (hrely : replyDiscipline.Rely (fun _ => True) m m') :
    Mine handed accepted m'.2 := by
  obtain ⟨hhanded, haccepted, href⟩ := hrely.keeps () trivial
  refine ⟨hhanded.trans hm.handedOver, haccepted.trans hm.accepted, ?_, ?_, ?_⟩
  · rw [hrely.always.2.2 hm.claimed]
    exact hm.interrupted
  · exact fun hu => hm.claimed (hrely.always.1 hu)
  · exact fun hr => hm.notRefused (href hr)

section Claimed

variable {m : Moment ReplyStore} {handed accepted : List OutgoingMail}

/-- A write of the row that leaves no pending reply. -/
theorem commits_settling {t : Int} {s : ReplyStore} {row : ReplyRow} (hs : s.Coherent)
    (hpending : row.deliveryStatus ≠ .PENDING) (hsent : row.deliveryStatus = .SENT → s.accepted ≠ [])
    (href : row.deliveryStatus = .FAILED → row.deliveryFailure = some .refused → s.accepted = []) :
    replyDiscipline.Commits (fun _ => True) (fun _ => True) (t, s) (t, { s with row := some row }) := by
  have hset : ({ s with row := some row } : ReplyStore).Settled := by
    rintro r ⟨⟩
    exact hpending
  have hnot : ¬ ({ s with row := some row } : ReplyStore).Unclaimed := by
    rintro ⟨r, hr, hu⟩
    simp only [ReplyRow.unclaimed, decide_eq_true_eq] at hu
    exact hset r hr hu.1
  refine ⟨⟨⟨hs.once, hs.interrupted, ?_, ?_, fun _ => hset⟩, fun hu => absurd hu hnot⟩,
    ⟨fun hu => absurd hu hnot, fun _ => hset, fun _ => rfl⟩, fun _ hr => absurd trivial hr, trivial,
    fun _ _ => .inl trivial⟩
  · rintro ⟨r, ⟨⟩, hr⟩
    exact hsent hr
  · rintro ⟨r, ⟨⟩, hr, hfailure⟩
    exact href hr hfailure

/-- A record of the outcome, where it is what became of the reply. -/
theorem safe_updateRow {data : ReplyRow → ReplyRow}
    {Q : Except MailerError Unit → (Unit → Prop) → Moment ReplyStore → Prop}
    (hm : Mine handed accepted m.2) (hpending : ∀ row, (data row).deliveryStatus ≠ .PENDING)
    (hsent : ∀ row, (data row).deliveryStatus = .SENT → accepted ≠ [])
    (href : ∀ row, (data row).deliveryStatus = .FAILED →
      (data row).deliveryFailure = some .refused → accepted = [])
    (hok : ∀ m', m'.2.Settled → Q (.ok ()) (fun _ => True) m')
    (herror : ∀ m', Q (.error .recordNotFound) (fun _ => True) m') :
    Safe replyDiscipline (updateRow data) Q (fun _ => True) m := by
  unfold updateRow
  refine safe_bind (safe_updateMany ?_ ?_)
  · exact fun t s _ _ _ => herror (t, s)
  · intro t s row hrely hs _ _
    have hmine := hm.rely hrely
    refine ⟨fun _ => True, commits_settling hs (hpending row) ?_ ?_, hok _ ?_⟩
    · exact fun hstatus => hmine.accepted ▸ hsent row hstatus
    · exact fun hf hr => hmine.accepted ▸ href row hf hr
    · rintro r ⟨⟩
      exact hpending row

theorem safe_fail {failure : ReplyDeliveryFailure}
    {Q : Except MailerError Unit → (Unit → Prop) → Moment ReplyStore → Prop}
    (hm : Mine handed accepted m.2) (href : failure = .refused → accepted = [])
    (hok : ∀ m', m'.2.Settled → Q (.ok ()) (fun _ => True) m')
    (herror : ∀ m', Q (.error .recordNotFound) (fun _ => True) m') :
    Safe replyDiscipline (fail failure) Q (fun _ => True) m := by
  refine safe_updateRow hm ?_ ?_ ?_ hok herror
  · intro row h
    cases h
  · intro row h
    cases h
  · exact fun row _ h => href (Option.some.inj h)

theorem safe_recordSent {message : ReplyRow} {delivered : SentMail}
    {Q : Except MailerError Unit → (Unit → Prop) → Moment ReplyStore → Prop}
    (hm : Mine handed accepted m.2) (haccepted : accepted ≠ [])
    (hok : ∀ m', m'.2.Settled → Q (.ok ()) (fun _ => True) m')
    (herror : ∀ m', Q (.error .recordNotFound) (fun _ => True) m') :
    Safe replyDiscipline (recordSent message delivered) Q (fun _ => True) m := by
  have hstatus : ∀ row : ReplyRow, (if delivered ≠ none ∧ delivered ≠ message.messageId then
      { row with deliveryStatus := .SENT, messageId := delivered }
      else { row with deliveryStatus := .SENT } : ReplyRow).deliveryStatus = .SENT := by
    intro row
    split_ifs <;> rfl
  refine safe_updateRow hm ?_ (fun _ _ => haccepted) ?_ hok herror
  · intro row h
    rw [hstatus] at h
    cases h
  · intro row h
    rw [hstatus] at h
    cases h

/-! ### The handover -/

variable {inst : Instance}

/-- What is known where a handover ends: it failed and the server accepted nothing, or it did
not and the server accepted the message. -/
def Handed (a : Except MailerError SentMail) (h : Unit → Prop) (m : Moment ReplyStore) : Prop :=
  h = (fun _ => True) ∧ ∃ handed accepted, Mine handed accepted m.2 ∧
    match a with
    | .ok _ => accepted ≠ []
    | .error _ => accepted = []

theorem safe_driverSend {mail : OutgoingMail} (hm : Mine [] [] m.2)
    (hreports : ¬ inst.driver.answers mail true none) :
    Safe replyDiscipline (driverSend inst mail) Handed (fun _ => True) m := by
  unfold driverSend
  refine safe_update_bind fun t s hrely hinv => ⟨fun _ => True, ?_, ?_⟩
  · have hmine := hm.rely hrely
    have hcoherent : ({ s with handedOver := mail :: s.handedOver } : ReplyStore).Coherent := by
      refine ⟨⟨?_, ?_, hinv.sent, hinv.refused, hinv.settled⟩, fun hu => absurd hu hmine.claimed⟩
      · rw [hmine.handedOver]
        exact le_rfl
      · intro hint
        rw [hmine.interrupted] at hint
        cases hint
    exact ⟨hcoherent, ⟨id, id, fun _ => rfl⟩, fun _ hr => absurd trivial hr, trivial,
      fun _ _ => .inl trivial⟩
  · have hmine := hm.rely hrely
    have hm' : Mine [mail] [] ({ s with handedOver := mail :: s.handedOver } : ReplyStore) :=
      ⟨by rw [hmine.handedOver], hmine.accepted, hmine.interrupted, hmine.claimed, hmine.notRefused⟩
    refine safe_ask_bind fun t' s' w hrely' hinv' hmay => ⟨fun _ => True, ?_⟩
    have hmine' := hm'.rely hrely'
    -- the server has decided before the transport reports
    cases hw : w.accepted with
    | false =>
      rw [hw] at hmay
      refine ⟨.refl hinv', ?_⟩
      match ha : w.answer with
      | some sent =>
        rw [ha] at hmay
        cases inst.driver.resolves hmay
      | none => exact ⟨rfl, _, _, hmine', rfl⟩
    | true =>
      rw [hw] at hmay
      refine ⟨⟨?_, ⟨id, id, fun _ => rfl⟩, fun _ hr => absurd trivial hr, trivial,
        fun _ _ => .inl trivial⟩, ?_⟩
      · exact ⟨⟨hinv'.once, hinv'.interrupted, fun _ => by simp, fun hr =>
          absurd hr hmine'.notRefused, hinv'.settled⟩, fun hu => absurd hu hmine'.claimed⟩
      · match ha : w.answer with
        | some sent =>
          refine ⟨rfl, [mail], [mail], ⟨hmine'.handedOver, ?_, hmine'.interrupted, hmine'.claimed,
            hmine'.notRefused⟩, by simp⟩
          show mail :: s'.accepted = [mail]
          rw [hmine'.accepted]
        | none =>
          rw [ha] at hmay
          exact absurd hmay hreports

theorem safe_mailSend {mail : OutgoingMail} (hm : Mine [] [] m.2)
    (hproduction : inst.production = true) (hreports : ¬ inst.driver.answers mail true none) :
    Safe replyDiscipline (mailSend inst mail) Handed (fun _ => True) m := by
  unfold mailSend
  refine safe_ask_bind fun t s w hrely hinv _ => ⟨fun _ => True, .refl hinv, ?_⟩
  have hmine := hm.rely hrely
  match w.configuration with
  | .unreadable => exact ⟨rfl, _, _, hmine, rfl⟩
  | .missing =>
    simp only [hproduction, if_true]
    exact ⟨rfl, _, _, hmine, rfl⟩
  | .present => exact safe_driverSend hmine hreports

theorem safe_handOver {message : ReplyRow} {address : String} (hm : Mine [] [] m.2)
    (hreports : inst.Reports) :
    Safe replyDiscipline (handOver inst message address) Handed (fun _ => True) m := by
  unfold handOver
  match hto : inst.decrypt message.correspondentEmailCipher with
  | none => exact ⟨rfl, _, _, hm, rfl⟩
  | some recipient =>
    obtain ⟨hproduction, hanswers⟩ := hreports message address recipient hto
    exact safe_mailSend hm hproduction hanswers

/-! ### The jobs -/

/-- What is known where an attempt ends: one that did not fail has left no pending reply. -/
def Done {α : Type} (a : Except MailerError α) (_ : Unit → Prop) (m : Moment ReplyStore) : Prop :=
  ∀ x, a = .ok x → m.2.Settled

theorem safe_sendClaimed {message : ReplyRow} (hm : Mine [] [] m.2) (hreports : inst.Reports) :
    Safe replyDiscipline (sendClaimed inst message) Done (fun _ => True) m := by
  unfold sendClaimed loadBoardMailboxSettings
  refine safe_bind ((safe_ask_bind fun t s w hrely hinv _ =>
    ⟨fun _ => True, .refl hinv, ?_⟩))
  have hmine := hm.rely hrely
  match w.settings with
  | .unreadable =>
    intro x hx
    cases hx
  | .unset =>
    refine safe_bind (safe_fail hmine (fun h => by cases h) ?_ ?_)
    · exact fun m' hset _ _ => hset
    · intro m' x hx
      cases hx
  | .set address =>
    refine safe_bind (safe_catching (Safe.mono ?_ (safe_handOver hmine hreports)))
    rintro a h m' ⟨rfl, handed, accepted, hm', ha⟩
    cases a with
    | error e =>
      refine safe_bind (safe_fail hm' (fun _ => ha) ?_ ?_)
      · exact fun m' hset _ _ => hset
      · intro m' x hx
        cases hx
    | ok delivered =>
      refine safe_bind (safe_recordSent hm' ha ?_ ?_)
      · exact fun m' hset _ _ => hset
      · intro m' x hx
        cases hx

end Claimed

section Jobs

variable {inst : Instance} {m : Moment ReplyStore}

/-- A statement of a process without the claim that leaves the handovers as they are. -/
theorem commits_unclaimed {t : Int} {s : ReplyStore} {row : Option ReplyRow} (hs : s.Coherent)
    (hset : ({ s with row := row } : ReplyStore).Settled)
    (hsent : ¬ ({ s with row := row } : ReplyStore).Sent)
    (href : ¬ ({ s with row := row } : ReplyStore).Refused) :
    replyDiscipline.Commits (fun _ => False) (fun _ => False) (t, s)
      (t, { s with row := row }) := by
  have hnot : ¬ ({ s with row := row } : ReplyStore).Unclaimed := by
    rintro ⟨r, hr, hu⟩
    simp only [ReplyRow.unclaimed, decide_eq_true_eq] at hu
    exact hset r hr hu.1
  exact ⟨⟨⟨hs.once, hs.interrupted, fun h => absurd h hsent, fun h => absurd h href,
    fun _ => hset⟩, fun hu => absurd hu hnot⟩, ⟨fun hu => absurd hu hnot, fun _ => hset,
    fun _ => rfl⟩, fun _ _ => ⟨rfl, rfl, fun h => absurd h href⟩, trivial, fun _ h => h.elim⟩

theorem not_unclaimed_of_eq_none {s : ReplyStore} (h : s.row = none) : ¬ s.Unclaimed := by
  rintro ⟨r, hr, _⟩
  rw [Option.mem_def, h] at hr
  cases hr

/-- A pending reply is unclaimed or unsettled. -/
theorem settled_of_not {s : ReplyStore} (hunclaimed : ¬ s.Unclaimed)
    (hunsettled : ∀ row ∈ s.row, ¬ row.unsettled = true) : s.Settled := by
  intro row hrow hpending
  have hun := hunsettled row hrow
  refine hunclaimed ⟨row, hrow, ?_⟩
  simp only [ReplyRow.unsettled, ReplyRow.unclaimed, decide_eq_true_eq, hpending, true_and,
    not_not] at hun ⊢
  exact hun

/-- The claim gives the right, and is taken where nothing has been handed over. -/
theorem safe_claim {Q : Except MailerError Bool → (Unit → Prop) → Moment ReplyStore → Prop}
    (hclaimed : ∀ m', Mine [] [] m'.2 → Q (.ok true) (fun _ => True) m')
    (hmissed : ∀ m', ¬ m'.2.Unclaimed → Q (.ok false) (fun _ => False) m') :
    Safe replyDiscipline claim Q (fun _ => False) m := by
  unfold claim
  refine safe_updateMany ?_ ?_
  · rintro t s - - hnone
    exact hmissed (t, s) fun ⟨row, hrow, hu⟩ => hnone row hrow hu
  · intro t s row _ hs hrow hu
    have hun : s.Unclaimed := ⟨row, hrow, hu⟩
    obtain ⟨hhanded, hint, haccepted⟩ := hs.unclaimed hun
    simp only [ReplyRow.unclaimed, decide_eq_true_eq] at hu
    have hnot : ¬ ({ s with row := some { row with sentAt := some t } } : ReplyStore).Unclaimed := by
      rintro ⟨r, ⟨⟩, hu'⟩
      simp [ReplyRow.unclaimed] at hu'
    have hsent : ¬ ({ s with row := some { row with sentAt := some t } } : ReplyStore).Sent := by
      rintro ⟨r, ⟨⟩, hstatus⟩
      simp [hu.1] at hstatus
    have href :
        ¬ ({ s with row := some { row with sentAt := some t } } : ReplyStore).Refused := by
      rintro ⟨r, ⟨⟩, hstatus, _⟩
      simp [hu.1] at hstatus
    have hset : ¬ s.Settled := fun h => h row hrow hu.1
    refine ⟨fun _ => True, ⟨?_, ⟨fun h => absurd h hnot, fun h => absurd h hset, fun _ => rfl⟩,
      fun _ hr => absurd trivial hr, trivial, fun _ _ => .inr ⟨hun, hnot⟩⟩,
      hclaimed _ ⟨hhanded, haccepted, hint, hnot, href⟩⟩
    exact ⟨⟨hs.once, hs.interrupted, fun h => absurd h hsent, fun h => absurd h href,
      fun h => absurd (hs.settled h) hset⟩, fun h => absurd h hnot⟩

/-- A reply that was not claimed and is not unsettled has been settled. -/
theorem safe_refuseUnsettledClaim (hm : ¬ m.2.Unclaimed) :
    Safe replyDiscipline refuseUnsettledClaim Done (fun _ => False) m := by
  unfold refuseUnsettledClaim
  refine safe_look_bind fun t s hrely hinv => ?_
  have hclaimed : ¬ s.Unclaimed := fun h => hm (hrely.always.1 h)
  by_cases hun : s.row.any ReplyRow.unsettled = true
  · simp only [hun, if_true]
    intro x hx
    cases hx
  · rw [if_neg hun]
    intro _ _
    refine settled_of_not hclaimed fun row hrow => ?_
    rw [Option.mem_def] at hrow
    rwa [hrow, Option.any_some] at hun

theorem safe_sendReply (hreports : inst.Reports) :
    Safe replyDiscipline (sendReply inst) Done (fun _ => False) m := by
  unfold sendReply
  refine safe_look_bind fun t s _ _ => ?_
  match hrow : s.row with
  | none =>
    intro _ _ row h
    rw [hrow] at h
    cases h
  | some message =>
    refine safe_bind (safe_claim ?_ ?_)
    · exact fun m' hm => safe_sendClaimed hm hreports
    · intro m' hm
      refine safe_bind (Safe.mono ?_ (safe_refuseUnsettledClaim hm))
      intro a h m'' ha
      cases a with
      | ok _ => exact fun _ _ => ha () rfl
      | error e =>
        intro x hx
        cases hx

/-- The queue is told where no reply is left pending. -/
theorem safe_told {h : Unit → Prop} {mark : ReplyStore → ReplyStore} (hm : m.2.Settled)
    (hmark : ∀ s, mark s = { s with completed := true } ∨ mark s = { s with givenUp := true }) :
    Safe replyDiscipline (update mark : MailerProg Unit) (fun _ _ _ => True) h m := by
  refine safe_update fun t s hrely hinv => ⟨h, ?_, trivial⟩
  have hset : s.Settled := hrely.always.2.1 hm
  rcases hmark s with hs | hs <;> rw [hs] <;>
    exact ⟨⟨⟨hinv.once, hinv.interrupted, hinv.sent, hinv.refused, fun _ => hset⟩,
      hinv.unclaimed⟩, ⟨id, id, fun _ => rfl⟩, fun _ _ => ⟨rfl, rfl, id⟩, trivial, fun _ => .inl⟩

theorem safe_replyJob (hreports : inst.Reports) : SafeCall replyDiscipline (replyJob inst) := by
  intro t s _
  unfold replyJob
  refine safe_bind (Safe.mono ?_ (safe_sendReply hreports))
  intro a h m ha
  cases a with
  | ok x => exact safe_told (ha x rfl) fun _ => .inl rfl
  | error e => trivial

/-- The handler's second statement leaves no reply pending. -/
theorem safe_recordUnconfirmed (hm : ¬ m.2.Unclaimed) :
    Safe replyDiscipline (updateMany ReplyRow.unsettled fun _ row => row.failed .unconfirmed)
      Done (fun _ => False) m := by
  refine safe_updateMany ?_ ?_
  · intro t s hrely _ hnone _ _
    exact settled_of_not (fun h => hm (hrely.always.1 h)) hnone
  · intro t s row _ hs _ _
    have hset : ({ s with row := some (row.failed .unconfirmed) } : ReplyStore).Settled := by
      rintro r ⟨⟩ h
      cases h
    refine ⟨fun _ => False, commits_unclaimed hs hset ?_ ?_, fun _ _ => hset⟩
    · rintro ⟨r, ⟨⟩, h⟩
      cases h
    · rintro ⟨r, ⟨⟩, _, h⟩
      cases h

/-- Past its first statement no reply is unclaimed, and past its second none is pending. -/
theorem safe_recordAbandoned : Safe replyDiscipline recordAbandoned Done (fun _ => False) m := by
  unfold recordAbandoned
  refine safe_atomic_bind fun t s _ hinv => ⟨fun _ => False, ?_⟩
  have hsecond : ∀ m' : Moment ReplyStore, ¬ m'.2.Unclaimed →
      Safe replyDiscipline (do
        let _ ← updateMany ReplyRow.unsettled fun _ row => row.failed .unconfirmed)
        Done (fun _ => False) m' := by
    intro m' hm
    refine safe_bind (Safe.mono ?_ (safe_recordUnconfirmed hm))
    intro a h m'' ha
    cases a with
    | ok b => exact fun _ _ => ha b rfl
    | error e =>
      intro x hx
      cases hx
  match hrow : s.row with
  | none => exact ⟨.refl hinv, hsecond _ (not_unclaimed_of_eq_none hrow)⟩
  | some row =>
    by_cases hu : row.unclaimed = true
    · simp only [hu, if_true]
      have hun : s.Unclaimed := ⟨row, hrow, hu⟩
      obtain ⟨hhanded, _, haccepted⟩ := hinv.unclaimed hun
      have hset : ({ s with row := some row.interrupted, interrupted := true } :
          ReplyStore).Settled := by
        rintro r ⟨⟩ h
        cases h
      have hnot : ¬ ({ s with row := some row.interrupted, interrupted := true } :
          ReplyStore).Unclaimed := by
        rintro ⟨r, ⟨⟩, h⟩
        simp [ReplyRow.unclaimed, ReplyRow.interrupted] at h
      refine ⟨⟨⟨⟨hinv.once, fun _ => hhanded, ?_, fun _ => haccepted, fun _ => hset⟩,
        fun h => absurd h hnot⟩, ⟨fun h => absurd h hnot, fun _ => hset, fun h => absurd hun h⟩,
        fun _ _ => ⟨rfl, rfl, ?_⟩, trivial, fun _ h => h.elim⟩, hsecond _ hnot⟩
      · rintro ⟨r, ⟨⟩, h⟩
        cases h
      · rintro ⟨r, ⟨⟩, _, h⟩
        cases h
    · simp only [hu]
      refine ⟨.refl hinv, hsecond _ ?_⟩
      rintro ⟨r, hr, hu'⟩
      obtain rfl := Option.some.inj (hrow.symm.trans hr)
      exact hu hu'

theorem safe_abandonedJob : SafeCall replyDiscipline abandonedJob := by
  intro t s _
  unfold abandonedJob
  refine safe_bind (Safe.mono ?_ safe_recordAbandoned)
  intro a h m ha
  cases a with
  | ok x => exact safe_told (ha x rfl) fun _ => .inr rfl
  | error e => trivial

theorem safe_purgeReply : SafeCall replyDiscipline purgeReply := by
  intro t s _
  unfold purgeReply
  refine safe_update fun t s _ hinv => ⟨fun _ => False, commits_unclaimed hinv ?_ ?_ ?_, trivial⟩
  · rintro r ⟨⟩
  · rintro ⟨r, ⟨⟩, _⟩
  · rintro ⟨r, ⟨⟩, _⟩

theorem safe_mailerCalls (hreports : inst.Reports) :
    ∀ p, mailerCalls inst p → SafeCall replyDiscipline p := by
  rintro p (rfl | rfl | rfl)
  · exact safe_replyJob hreports
  · exact safe_abandonedJob
  · exact safe_purgeReply

end Jobs

/-! ### Every run -/

/-- A reply as it was accepted. -/
theorem coherent_accepted {row : ReplyRow} (hrow : row.unclaimed = true) :
    ({ row := some row } : ReplyStore).Coherent := by
  simp only [ReplyRow.unclaimed, decide_eq_true_eq] at hrow
  refine ⟨⟨Nat.zero_le _, fun _ => rfl, ?_, fun _ => rfl, ?_⟩, fun _ => ⟨rfl, rfl, rfl⟩⟩
  · rintro ⟨r, ⟨⟩, hsent⟩
    rw [hrow.1] at hsent
    cases hsent
  · rintro (h | h) <;> cases h

section Runs

variable {inst : Instance} {t : Int} {message : ReplyRow} {address recipient : String}

/-- An attempt alone, past a message the server accepted and the transport failed on. -/
theorem leads_lost (hmessage : message.unclaimed = true)
    (hto : inst.decrypt message.correspondentEmailCipher = some recipient)
    (hlost : inst.driver.answers (replyMail message recipient address) true none) :
    Leads t (replyJob inst) (List.replicate 7 ⟨.set address, .present, true, none⟩)
      { row := some message } { row := some (message.failed .refused)
                                handedOver := [replyMail message recipient address]
                                accepted := [replyMail message recipient address] } := by
  simp [Leads, replyJob, sendReply, claim, updateMany, sendClaimed, loadBoardMailboxSettings,
    handOver, mailSend, driverSend, look, atomic, ask, update, fail, updateRow, bind, Prog.bind,
    pure, hmessage, hto, Prog.catching, Async.fail, failureOf, hlost, List.replicate,
    ReplyRow.failed]

/-- An attempt alone, on a developer's machine with no mail configured. -/
theorem leads_suppressed (hmessage : message.unclaimed = true)
    (hto : inst.decrypt message.correspondentEmailCipher = some recipient)
    (hproduction : inst.production = false) :
    Leads t (replyJob inst) (List.replicate 5 ⟨.set address, .missing, false, none⟩)
      { row := some message }
      { row := some { message with deliveryStatus := .SENT, sentAt := some t } } := by
  simp [Leads, replyJob, sendReply, claim, updateMany, sendClaimed, loadBoardMailboxSettings,
    handOver, mailSend, look, atomic, ask, recordSent, updateRow, bind, Prog.bind,
    pure, hmessage, hto, hproduction, Prog.catching, List.replicate]

end Runs

/-- **A reply among its attempts.**  However often the job is run and given up on, whatever stops
between its statements and whenever the thread is erased, the reply is handed over once at most and
never once the handler has recorded that it did not go out, its row reads `SENT` only if the mail
server accepted it and refused only if it did not, and it is not left pending once the queue has
given up: if and only if the instance is in production and its transport never fails on a message
the server has accepted. -/
theorem replyDelivery_truthful (inst : Instance) :
    (∀ row t c, row.unclaimed = true →
      Reaches (mailerCalls inst) (.quiet { row := some row } t) c → c.store.Truthful) ↔
      inst.Reports := by
  constructor
  · intro htruthful message address recipient hto
    have hmessage : ({ message with deliveryStatus := .PENDING, sentAt := none } :
        ReplyRow).unclaimed = true := by
      simp [ReplyRow.unclaimed]
    have hjob : mailerCalls inst (replyJob inst) := .inl rfl
    constructor
    · -- nothing was handed over, and the row reads that it was sent
      by_contra hproduction
      have hlead := @leads_suppressed inst 0 _ address recipient hmessage hto (by simpa using hproduction)
      have hrun := reaches_call hjob hlead
      exact (htruthful _ _ _ hmessage hrun).sent ⟨_, rfl, rfl⟩ rfl
    · -- the server accepted it, and the row reads that it refused
      intro hlost
      have hrun := reaches_call hjob (leads_lost (t := 0) hmessage hto hlost)
      cases (htruthful _ _ _ hmessage hrun).refused ⟨_, rfl, rfl, rfl⟩
  · -- the invariant of the discipline
    intro hreports row t c hrow hrun
    exact (inv_of_reaches (safe_mailerCalls hreports) (coherent_accepted hrow) hrun).toTruthful

/-- A server that takes the message, behind a connection that may be gone before it says so. -/
def lossyInstance : Instance where
  production := true
  decrypt := some
  driver :=
    { answers := fun _ accepted answer => accepted = true ∨ answer = none
      resolves := fun h => h.resolve_right fun h => by cases h }

/-- A reply nobody has claimed. -/
def lostReply : ReplyRow where
  body := "Hej"
  messageId := some "a@example.se"
  inReplyTo := none
  subject := "Re: Fråga"
  correspondentEmailCipher := "x@example.se"
  deliveryStatus := .PENDING
  deliveryFailure := none
  sentAt := none

/-- The reply is on its way, and its row reads that the mail server refused it. -/
theorem replyDelivery_lost :
    ∃ c, Reaches (mailerCalls lossyInstance) (.quiet { row := some lostReply } 0) c ∧
      c.store.accepted ≠ [] ∧ c.store.Refused ∧ ¬ c.store.Truthful := by
  have hlost : lossyInstance.driver.answers
      (replyMail lostReply "x@example.se" "styrelsen@example.se") true none := .inl rfl
  have hjob : mailerCalls lossyInstance (replyJob lossyInstance) := .inl rfl
  have hrow : lostReply.unclaimed = true := rfl
  refine ⟨_, reaches_call hjob (leads_lost hrow rfl hlost), ?_, ⟨_, rfl, rfl, rfl⟩, fun h => ?_⟩
  · simp [Config.quiet]
  · cases h.refused ⟨_, rfl, rfl, rfl⟩

end OpenBrf.BoardMailbox
