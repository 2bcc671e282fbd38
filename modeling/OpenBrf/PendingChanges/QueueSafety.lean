import Mathlib.Data.List.Infix
import Mathlib.Data.List.Nodup
import OpenBrf.Async.Rights
import OpenBrf.PendingChanges.Queue

/-!
# PendingChanges.QueueSafety — a claim among the claims of a change

A claim is a right: the confirmation that makes it is the one to call the action, to record what it
answered and to take the stamp back.  Whoever else comes finds the change claimed, or gone.
-/

namespace OpenBrf.PendingChanges

open Async PendingStore

/-! ### What is on record of a change -/

def Act.isExpired : Act → Bool
  | .expired _ _ => true
  | _ => false

/-- What is on record of a change, but for its sweeping. -/
def about (id : String) (log : List Entry) : List Act :=
  (log.filter fun entry => entry.id = id && !entry.act.isExpired).map (·.act)

/-- A claim that has not been taken back. -/
structure Open (token : ℕ) (acts : List Act) : Prop where
  claimed : ∃ personId dispatchedAt, .claimed token personId dispatchedAt ∈ acts
  standing : .released token ∉ acts

/-- Every call of the action was refused. -/
def AllRefused (acts : List Act) : Prop :=
  ∀ token actionName input, .handedOver token actionName input ∈ acts →
    .answered token .refused ∈ acts

/-- It was neither confirmed nor rejected. -/
structure NotEnded (acts : List Act) : Prop where
  confirmed : ∀ personId failure, .confirmed personId failure ∉ acts
  rejected : ∀ personId now, .rejected personId now ∉ acts

/-- What a confirmation that records this has seen the action answer. -/
def recordedOutcome : Option ActionErrorReason → Outcome
  | none => .done
  | some reason => .failed reason

section Orderly

variable (carriesNumber : String → Bool)

/-- What is before an entry of the log. -/
def Follows (entry : Entry) (earlier : List Entry) : Prop :=
  match entry.act with
  | .proposed row takesNumber => (∀ other ∈ earlier, other.id ≠ entry.id) ∧ row.id = entry.id ∧
      (takesNumber = true ∨ walk carriesNumber [] row.input = [])
  | .claimed token personId dispatchedAt => token = earlier.length ∧
      (∃ row takesNumber, .proposed row takesNumber ∈ about entry.id earlier ∧
        row.proposedByPersonId = personId ∧ dispatchedAt < row.expiresAt) ∧
      AllRefused (about entry.id earlier) ∧ NotEnded (about entry.id earlier) ∧
      ∀ now dispatched, ⟨entry.id, .expired now dispatched⟩ ∉ earlier
  | .handedOver token actionName input =>
      (∃ personId dispatchedAt, .claimed token personId dispatchedAt ∈ about entry.id earlier) ∧
      (∃ row takesNumber, .proposed row takesNumber ∈ about entry.id earlier ∧
        row.actionName = actionName ∧ row.input = input) ∧
      AllRefused (about entry.id earlier) ∧ NotEnded (about entry.id earlier)
  | .answered token _ =>
      (∃ actionName input, .handedOver token actionName input ∈ about entry.id earlier) ∧
      ∀ outcome, .answered token outcome ∉ about entry.id earlier
  | .released token => .answered token .refused ∈ about entry.id earlier
  | .confirmed personId failure => NotEnded (about entry.id earlier) ∧ ∃ token dispatchedAt,
      .claimed token personId dispatchedAt ∈ about entry.id earlier ∧
      .answered token (recordedOutcome failure) ∈ about entry.id earlier
  | .rejected personId now => NotEnded (about entry.id earlier) ∧ AllRefused (about entry.id earlier) ∧
      ∃ row takesNumber, .proposed row takesNumber ∈ about entry.id earlier ∧
        row.proposedByPersonId = personId ∧ now < row.expiresAt
  | .expired now dispatched =>
      (∃ row takesNumber, .proposed row takesNumber ∈ about entry.id earlier ∧
        row.expiresAt ≤ now) ∧
      (dispatched = true → ∃ token personId dispatchedAt,
        .claimed token personId dispatchedAt ∈ about entry.id earlier)

/-- Every entry follows what has to be before it. -/
def Orderly : List Entry → Prop
  | [] => True
  | entry :: earlier => Follows carriesNumber entry earlier ∧ Orderly earlier

/-- A row is what was proposed, and stamped while a claim of it is open. -/
structure RowOn (log : List Entry) (row : PendingChange) : Prop where
  proposed : ∃ takesNumber, .proposed { row with dispatchedAt := none } takesNumber ∈
    about row.id log
  notEnded : NotEnded (about row.id log)
  unswept : ∀ now dispatched, ⟨row.id, .expired now dispatched⟩ ∉ log
  waiting : row.dispatchedAt = none → AllRefused (about row.id log) ∧
    ∀ token, ¬ Open token (about row.id log)
  stamped : ∀ dispatchedAt ∈ row.dispatchedAt, ∃ token personId,
    .claimed token personId dispatchedAt ∈ about row.id log ∧
      .released token ∉ about row.id log

/-- What holds at every moment. -/
structure Coherent (s : PendingStore) : Prop where
  ids : (s.rows.map (·.id)).Nodup
  orderly : Orderly carriesNumber s.log
  one : ∀ id token token', Open token (about id s.log) → Open token' (about id s.log) → token = token'
  rows : ∀ row ∈ s.rows, RowOn s.log row

end Orderly

variable {carriesNumber : String → Bool} {id : String} {act : Act} {log : List Entry}
  {s s' : PendingStore} {token : ℕ}

theorem about_cons (entry : Entry) : about id (entry :: log) =
    if entry.id = id ∧ entry.act.isExpired = false then entry.act :: about id log
    else about id log := by
  unfold about
  rw [List.filter_cons]
  by_cases hentry : entry.id = id ∧ entry.act.isExpired = false
  · rw [if_pos (by simpa using hentry), if_pos hentry, List.map_cons]
  · rw [if_neg (by simpa using hentry), if_neg hentry]

theorem about_of_ne {entry : Entry} (hid : entry.id ≠ id) :
    about id (entry :: log) = about id log := by
  rw [about_cons, if_neg fun h => hid h.1]

theorem about_self (hact : act.isExpired = false) :
    about id (⟨id, act⟩ :: log) = act :: about id log := by
  rw [about_cons, if_pos ⟨rfl, hact⟩]

theorem about_expired {entry : Entry} (hact : entry.act.isExpired = true) :
    about id (entry :: log) = about id log := by
  rw [about_cons, if_neg fun h => by rw [hact] at h; cases h.2]

theorem mem_about : act ∈ about id log ↔ ⟨id, act⟩ ∈ log ∧ act.isExpired = false := by
  unfold about
  constructor
  · intro h
    obtain ⟨entry, hentry, rfl⟩ := List.mem_map.mp h
    obtain ⟨hlogged, hkept⟩ := List.mem_filter.mp hentry
    obtain ⟨rfl, hexpired⟩ : entry.id = id ∧ entry.act.isExpired = false := by simpa using hkept
    exact ⟨hlogged, hexpired⟩
  · rintro ⟨hentry, hexpired⟩
    exact List.mem_map.mpr ⟨_, List.mem_filter.mpr ⟨hentry, by simp [hexpired]⟩, rfl⟩

/-- A row of a change that nothing but a sweep of others was recorded of. -/
theorem RowOn.of_about {log' : List Entry} {row : PendingChange} (hrow : RowOn log row)
    (h : about row.id log' = about row.id log)
    (hunswept : ∀ now dispatched, ⟨row.id, .expired now dispatched⟩ ∉ log') : RowOn log' row where
  proposed := h ▸ hrow.proposed
  notEnded := h ▸ hrow.notEnded
  unswept := hunswept
  waiting := h ▸ hrow.waiting
  stamped := h ▸ hrow.stamped

/-- The claims of the log are named apart. -/
theorem Orderly.lt_length : ∀ {log : List Entry}, Orderly carriesNumber log →
    ∀ {id personId dispatchedAt}, ⟨id, .claimed token personId dispatchedAt⟩ ∈ log →
      token < log.length
  | entry :: earlier, ⟨hfollows, horderly⟩, id, personId, dispatchedAt, hmem => by
    rcases List.mem_cons.mp hmem with rfl | hmem
    · obtain ⟨rfl, -⟩ := hfollows
      exact Nat.lt_succ_self _
    · exact (horderly.lt_length hmem).trans (Nat.lt_succ_self _)

theorem Orderly.claim_unique : ∀ {log : List Entry}, Orderly carriesNumber log →
    ∀ {id id' personId personId' dispatchedAt dispatchedAt'},
      ⟨id, .claimed token personId dispatchedAt⟩ ∈ log →
      ⟨id', .claimed token personId' dispatchedAt'⟩ ∈ log →
      id' = id ∧ personId' = personId ∧ dispatchedAt' = dispatchedAt
  | entry :: earlier, ⟨hfollows, horderly⟩, _, _, _, _, _, _, hmem, hmem' => by
    rcases List.mem_cons.mp hmem with rfl | hbefore
    · rcases List.mem_cons.mp hmem' with heq | hbefore'
      · obtain ⟨rfl, hact⟩ := Entry.mk.inj heq
        obtain ⟨-, rfl, rfl⟩ := Act.claimed.inj hact
        exact ⟨rfl, rfl, rfl⟩
      · obtain ⟨rfl, -⟩ := hfollows
        exact absurd (horderly.lt_length hbefore') (lt_irrefl _)
    · rcases List.mem_cons.mp hmem' with rfl | hbefore'
      · obtain ⟨rfl, -⟩ := hfollows
        exact absurd (horderly.lt_length hbefore) (lt_irrefl _)
      · exact horderly.claim_unique hbefore hbefore'

/-! ### What an entry leaves coherent -/

/-- An entry of one change leaves the rows of the others as they are. -/
theorem Coherent.entry (hs : Coherent carriesNumber s)
    (hfollows : Follows carriesNumber ⟨id, act⟩ s.log) (hlog : s'.log = ⟨id, act⟩ :: s.log)
    (hids : (s'.rows.map (·.id)).Nodup)
    (hone : ∀ token token', Open token (about id s'.log) → Open token' (about id s'.log) →
      token = token')
    (hothers : ∀ row ∈ s'.rows, row.id ≠ id → row ∈ s.rows)
    (hrow : ∀ row ∈ s'.rows, row.id = id → RowOn s'.log row) : Coherent carriesNumber s' where
  ids := hids
  orderly := by
    rw [hlog]
    exact ⟨hfollows, hs.orderly⟩
  one other token token' h h' := by
    by_cases hid : other = id
    · subst hid
      exact hone token token' h h'
    · have habout : about other s'.log = about other s.log := by
        rw [hlog, about_of_ne (Ne.symm hid)]
      rw [habout] at h h'
      exact hs.one other token token' h h'
  rows row hmem := by
    by_cases hid : row.id = id
    · exact hrow row hmem hid
    · have hon := hs.rows row (hothers row hmem hid)
      refine hon.of_about (by rw [hlog, about_of_ne (Ne.symm hid)]) fun now dispatched h => ?_
      rw [hlog] at h
      rcases List.mem_cons.mp h with heq | h
      · exact hid (Entry.mk.inj heq).1
      · exact hon.unswept now dispatched h

/-- Rows that go leave the others as they are. -/
theorem Coherent.filter (hs : Coherent carriesNumber s) (kept : PendingChange → Bool) :
    Coherent carriesNumber { s with rows := s.rows.filter kept } where
  ids := hs.ids.sublist (List.filter_sublist.map _)
  orderly := hs.orderly
  one := hs.one
  rows row hrow := hs.rows row (List.mem_of_mem_filter hrow)

theorem Coherent.eq_of_id (hs : Coherent carriesNumber s) {row row' : PendingChange}
    (hrow : row ∈ s.rows) (hrow' : row' ∈ s.rows) (hid : row.id = row'.id) : row = row' :=
  List.inj_on_of_nodup_map hs.ids hrow hrow' hid

/-- Only a claim opens one. -/
theorem open_of_open_cons {acts : List Act}
    (hact : ∀ personId dispatchedAt, act ≠ .claimed token personId dispatchedAt)
    (h : Open token (act :: acts)) : Open token acts := by
  obtain ⟨personId, dispatchedAt, hclaimed⟩ := h.claimed
  refine ⟨⟨personId, dispatchedAt, ?_⟩, fun hmem => h.standing (List.mem_cons_of_mem _ hmem)⟩
  exact (List.mem_cons.mp hclaimed).resolve_left fun heq => hact _ _ heq.symm

/-- **A sweep** records that rows are gone. -/
theorem Coherent.expired (hs : Coherent carriesNumber s) {now : Int} {dispatched : Bool}
    (hgone : ∀ row ∈ s.rows, row.id ≠ id)
    (hproposed : ∃ row takesNumber, .proposed row takesNumber ∈ about id s.log ∧
      row.expiresAt ≤ now)
    (hclaimed : dispatched = true → ∃ token personId dispatchedAt,
      .claimed token personId dispatchedAt ∈ about id s.log) :
    Coherent carriesNumber (s.record id (.expired now dispatched)) := by
  have hfollows : Follows carriesNumber ⟨id, .expired now dispatched⟩ s.log :=
    ⟨hproposed, hclaimed⟩
  refine hs.entry hfollows rfl hs.ids ?_ (fun row hrow _ => hrow)
    fun row hrow hid => absurd hid (hgone row hrow)
  rw [record_log, about_expired rfl]
  exact hs.one id

/-- **A proposal** is the first there is of its change. -/
theorem Coherent.proposed (hs : Coherent carriesNumber s) (row : PendingChange)
    {takesNumber : Bool} (hnew : ∀ entry ∈ s.log, entry.id ≠ row.id)
    (hwaiting : row.dispatchedAt = none)
    (hclean : takesNumber = true ∨ walk carriesNumber [] row.input = []) :
    Coherent carriesNumber (({ s with rows := row :: s.rows } : PendingStore).record row.id
      (.proposed row takesNumber)) := by
  have hnone : about row.id s.log = [] := by
    refine List.eq_nil_iff_forall_not_mem.mpr fun act hact => ?_
    exact hnew _ (mem_about.mp hact).1 rfl
  have habout : about row.id (⟨row.id, .proposed row takesNumber⟩ :: s.log) =
      [.proposed row takesNumber] := by
    rw [about_self rfl, hnone]
  have hold : ∀ other ∈ s.rows, other.id ≠ row.id := by
    intro other hother hid
    obtain ⟨takesNumber', hproposed⟩ := (hs.rows other hother).proposed
    exact hnew _ (mem_about.mp hproposed).1 hid
  have hopen : ∀ token, ¬ Open token [.proposed row takesNumber] := by
    rintro token ⟨⟨personId, dispatchedAt, hclaimed⟩, -⟩
    cases List.mem_singleton.mp hclaimed
  have hfollows : Follows carriesNumber ⟨row.id, .proposed row takesNumber⟩ s.log :=
    ⟨hnew, rfl, hclean⟩
  refine hs.entry hfollows rfl ?_ ?_ ?_ ?_
  · refine List.nodup_cons.mpr ⟨fun hmem => ?_, hs.ids⟩
    obtain ⟨other, hother, hid⟩ := List.mem_map.mp hmem
    exact hold other hother hid
  · intro token _ h _
    rw [record_log, habout] at h
    exact absurd h (hopen token)
  · intro other hother hid
    rcases List.mem_cons.mp hother with rfl | hother
    · exact absurd rfl hid
    · exact hother
  · intro other hother hid
    obtain rfl := (List.mem_cons.mp hother).resolve_right fun h => hold other h hid
    refine ⟨⟨takesNumber, ?_⟩, ?_, ?_, fun _ => ?_, ?_⟩
    · rw [record_log, habout, ← hwaiting]
      exact List.mem_singleton_self _
    · rw [record_log, habout]
      exact ⟨fun _ _ h => (by cases List.mem_singleton.mp h),
        fun _ _ h => (by cases List.mem_singleton.mp h)⟩
    · intro now dispatched h
      rcases List.mem_cons.mp h with heq | h
      · cases (Entry.mk.inj heq).2
      · exact hnew _ h rfl
    · rw [record_log, habout]
      exact ⟨fun _ _ _ h => (by cases List.mem_singleton.mp h), hopen⟩
    · intro dispatchedAt hat
      rw [hwaiting] at hat
      cases hat

/-! ### What is on record before what -/

theorem about_suffix {earlier : List Entry} (h : earlier <:+ log) (hact : act ∈ about id earlier) :
    act ∈ about id log := by
  obtain ⟨hentry, hexpired⟩ := mem_about.mp hact
  exact mem_about.mpr ⟨h.mem hentry, hexpired⟩

/-- What is before an entry of an orderly log. -/
theorem Orderly.follows : ∀ {log : List Entry}, Orderly carriesNumber log → ∀ {entry : Entry},
    entry ∈ log → ∃ earlier, earlier <:+ log ∧ Follows carriesNumber entry earlier
  | first :: earlier, ⟨hfollows, horderly⟩, entry, hmem => by
    rcases List.mem_cons.mp hmem with rfl | hmem
    · exact ⟨earlier, List.suffix_cons _ _, hfollows⟩
    · obtain ⟨before, hsuffix, hbefore⟩ := horderly.follows hmem
      exact ⟨before, hsuffix.trans (List.suffix_cons _ _), hbefore⟩

theorem Orderly.claimed_of_handedOver (h : Orderly carriesNumber log) {actionName : String}
    {input : Json} (hcalled : .handedOver token actionName input ∈ about id log) :
    ∃ personId dispatchedAt, .claimed token personId dispatchedAt ∈ about id log := by
  obtain ⟨earlier, hsuffix, ⟨personId, dispatchedAt, hclaimed⟩, -⟩ :=
    h.follows (mem_about.mp hcalled).1
  exact ⟨personId, dispatchedAt, about_suffix hsuffix hclaimed⟩

theorem Orderly.handedOver_of_answered (h : Orderly carriesNumber log) {outcome : Outcome}
    (hanswered : .answered token outcome ∈ about id log) :
    ∃ actionName input, .handedOver token actionName input ∈ about id log := by
  obtain ⟨earlier, hsuffix, ⟨actionName, input, hcalled⟩, -⟩ := h.follows (mem_about.mp hanswered).1
  exact ⟨actionName, input, about_suffix hsuffix hcalled⟩

theorem Orderly.answered_of_released (h : Orderly carriesNumber log)
    (hreleased : .released token ∈ about id log) : .answered token .refused ∈ about id log := by
  obtain ⟨earlier, hsuffix, hanswered⟩ := h.follows (mem_about.mp hreleased).1
  exact about_suffix hsuffix hanswered

/-- What a claim yet to be made is named by is on no record. -/
structure Unused (token : ℕ) (acts : List Act) : Prop where
  claimed : ∀ personId dispatchedAt, .claimed token personId dispatchedAt ∉ acts
  handedOver : ∀ actionName input, .handedOver token actionName input ∉ acts
  answered : ∀ outcome, .answered token outcome ∉ acts
  released : .released token ∉ acts

theorem Orderly.unused (h : Orderly carriesNumber log) (id : String) :
    Unused log.length (about id log) := by
  have hclaimed : ∀ personId dispatchedAt,
      .claimed log.length personId dispatchedAt ∉ about id log :=
    fun _ _ hmem => absurd (h.lt_length (mem_about.mp hmem).1) (lt_irrefl _)
  have hcalled : ∀ actionName input, .handedOver log.length actionName input ∉ about id log := by
    intro actionName input hmem
    obtain ⟨personId, dispatchedAt, hclaim⟩ := h.claimed_of_handedOver hmem
    exact hclaimed personId dispatchedAt hclaim
  have hanswered : ∀ outcome, .answered log.length outcome ∉ about id log := by
    intro outcome hmem
    obtain ⟨actionName, input, hcall⟩ := h.handedOver_of_answered hmem
    exact hcalled actionName input hcall
  exact ⟨hclaimed, hcalled, hanswered, fun hmem => hanswered _ (h.answered_of_released hmem)⟩

/-! ### A claim and what its confirmation records -/

/-- What a confirmation that has claimed a change knows of it. -/
structure Mine (token : ℕ) (personId : String) (dispatchedAt : Int) (acts : List Act) : Prop where
  claimed : .claimed token personId dispatchedAt ∈ acts
  standing : .released token ∉ acts
  notEnded : NotEnded acts
  others : ∀ token' actionName input, token' ≠ token → .handedOver token' actionName input ∈ acts →
    .answered token' .refused ∈ acts

theorem Mine.opened {personId : String} {dispatchedAt : Int} {acts : List Act}
    (h : Mine token personId dispatchedAt acts) : Open token acts :=
  ⟨⟨personId, dispatchedAt, h.claimed⟩, h.standing⟩

theorem mem_findWaiting {personId : String} {now : Int} {row : PendingChange}
    (h : s.findWaiting personId id now = some row) : row ∈ s.rows ∧ row.id = id ∧
      row.proposedByPersonId = personId ∧ now < row.expiresAt ∧ row.dispatchedAt = none := by
  have hmatched := List.find?_some h
  simp only [waitingFor, Bool.and_eq_true, decide_eq_true_eq] at hmatched
  obtain ⟨hid, ⟨hperson, hnow⟩, hnone⟩ := hmatched
  exact ⟨List.mem_of_find?_eq_some h, hid, hperson, hnow, hnone⟩

/-- The store after a claim. -/
def PendingStore.claimed (s : PendingStore) (personId id : String) (dispatchedAt : Int) :
    PendingStore where
  rows := s.rows.map fun row =>
    if row.id = id ∧ waitingFor personId dispatchedAt row = true then
      { row with dispatchedAt := some dispatchedAt }
    else row
  log := ⟨id, .claimed s.log.length personId dispatchedAt⟩ :: s.log

theorem AllRefused.cons {acts : List Act} (h : AllRefused acts)
    (hact : ∀ token actionName input, act ≠ .handedOver token actionName input) :
    AllRefused (act :: acts) := by
  intro token actionName input hmem
  have hold := (List.mem_cons.mp hmem).resolve_left fun heq => hact _ _ _ heq.symm
  exact List.mem_cons_of_mem _ (h token actionName input hold)

theorem NotEnded.cons {acts : List Act} (h : NotEnded acts)
    (hconfirmed : ∀ personId failure, act ≠ .confirmed personId failure)
    (hrejected : ∀ personId now, act ≠ .rejected personId now) : NotEnded (act :: acts) where
  confirmed personId failure hmem := h.confirmed personId failure
    ((List.mem_cons.mp hmem).resolve_left fun heq => hconfirmed _ _ heq.symm)
  rejected personId now hmem := h.rejected personId now
    ((List.mem_cons.mp hmem).resolve_left fun heq => hrejected _ _ heq.symm)

/-- **A claim** of a change that waits. -/
theorem Coherent.claimed (hs : Coherent carriesNumber s) {personId : String} {dispatchedAt : Int}
    {row : PendingChange} (hfound : s.findWaiting personId id dispatchedAt = some row) :
    Coherent carriesNumber (s.claimed personId id dispatchedAt) ∧
      (∀ token, ¬ Open token (about id s.log)) ∧
      Mine s.log.length personId dispatchedAt (.claimed s.log.length personId dispatchedAt ::
        about id s.log) := by
  obtain ⟨hrow, rfl, hperson, hnow, hnone⟩ := mem_findWaiting hfound
  have hon := hs.rows row hrow
  obtain ⟨hrefused, hopen⟩ := hon.waiting hnone
  obtain ⟨takesNumber, hproposed⟩ := hon.proposed
  have hunused := hs.orderly.unused row.id
  have habout : about row.id (s.claimed personId row.id dispatchedAt).log =
      .claimed s.log.length personId dispatchedAt :: about row.id s.log := about_self rfl
  have hmine : Mine s.log.length personId dispatchedAt
      (.claimed s.log.length personId dispatchedAt :: about row.id s.log) := by
    refine ⟨List.mem_cons_self, fun hmem => ?_, hon.notEnded.cons (fun _ _ => nofun)
      (fun _ _ => nofun), fun token' actionName input _ hmem =>
        hrefused.cons (fun _ _ _ heq => by cases heq) token' actionName input hmem⟩
    exact hunused.released ((List.mem_cons.mp hmem).resolve_left fun heq => by cases heq)
  have hfollows : Follows carriesNumber
      ⟨row.id, .claimed s.log.length personId dispatchedAt⟩ s.log :=
    ⟨rfl, ⟨_, takesNumber, hproposed, hperson, hnow⟩, hrefused, hon.notEnded, hon.unswept⟩
  refine ⟨hs.entry hfollows rfl ?_ ?_ ?_ ?_, hopen, hmine⟩
  · have hids : (s.claimed personId row.id dispatchedAt).rows.map (·.id) = s.rows.map (·.id) := by
      unfold PendingStore.claimed
      rw [List.map_map]
      refine List.map_congr_left fun other _ => ?_
      show (if other.id = row.id ∧ _ then _ else other : PendingChange).id = other.id
      split_ifs <;> rfl
    rw [hids]
    exact hs.ids
  · intro token token' h h'
    -- no other claim was open
    have hlatest : ∀ token, Open token (.claimed s.log.length personId dispatchedAt ::
        about row.id s.log) → token = s.log.length := by
      intro token h
      by_contra hne
      refine hopen token (open_of_open_cons (fun personId' dispatchedAt' heq => hne ?_) h)
      exact (Act.claimed.inj heq).1.symm
    rw [habout] at h h'
    exact (hlatest token h).trans (hlatest token' h').symm
  · intro other hother hid
    obtain ⟨before, hbefore, rfl⟩ := List.mem_map.mp hother
    split_ifs with hmatched
    · rw [if_pos hmatched] at hid
      exact absurd hmatched.1 hid
    · exact hbefore
  · intro other hother hid
    obtain ⟨before, hbefore, rfl⟩ := List.mem_map.mp hother
    have hsame : before = row := by
      refine hs.eq_of_id hbefore hrow ?_
      split_ifs at hid <;> exact hid
    subst hsame
    rw [if_pos ⟨rfl, by simp [waitingFor, hperson, hnow, hnone]⟩]
    refine ⟨⟨takesNumber, ?_⟩, ?_, ?_, fun h => absurd h (Option.some_ne_none _), ?_⟩
    · rw [habout]
      exact List.mem_cons_of_mem _ hproposed
    · rw [habout]
      exact hmine.notEnded
    · intro now dispatched h
      rcases List.mem_cons.mp h with heq | h
      · cases (Entry.mk.inj heq).2
      · exact hon.unswept now dispatched h
    · intro stamp hstamp
      obtain rfl := Option.some.inj hstamp
      rw [habout]
      exact ⟨_, personId, hmine.claimed, hmine.standing⟩

/-- A row of a change with an open claim bears the claim's stamp. -/
theorem Coherent.stamp_eq (hs : Coherent carriesNumber s) {personId : String} {dispatchedAt : Int}
    {row : PendingChange} (hrow : row ∈ s.rows)
    (hmine : Mine token personId dispatchedAt (about row.id s.log)) :
    row.dispatchedAt = some dispatchedAt := by
  have hon := hs.rows row hrow
  match hstamp : row.dispatchedAt with
  | none => exact absurd hmine.opened ((hon.waiting hstamp).2 token)
  | some stamp =>
    obtain ⟨token', personId', hclaimed, hstanding⟩ := hon.stamped stamp hstamp
    have htoken := hs.one row.id token' token ⟨⟨personId', stamp, hclaimed⟩, hstanding⟩ hmine.opened
    subst htoken
    obtain ⟨-, -, rfl⟩ := hs.orderly.claim_unique (mem_about.mp hmine.claimed).1
      (mem_about.mp hclaimed).1
    rfl

/-- What the confirmation that has the claim records, with its row as it is. -/
theorem Coherent.recorded (hs : Coherent carriesNumber s) {personId : String} {dispatchedAt : Int}
    (hmine : Mine token personId dispatchedAt (about id s.log))
    (hfollows : Follows carriesNumber ⟨id, act⟩ s.log) (hexpired : act.isExpired = false)
    (hclaim : ∀ token personId dispatchedAt, act ≠ .claimed token personId dispatchedAt)
    (hreleased : ∀ token, act ≠ .released token)
    (hended : NotEnded (act :: about id s.log)) : Coherent carriesNumber (s.record id act) := by
  have habout : about id (s.record id act).log = act :: about id s.log := about_self hexpired
  refine hs.entry hfollows rfl hs.ids (fun token token' h h' => ?_) (fun row hrow _ => hrow)
    fun row hrow hid => ?_
  · rw [habout] at h h'
    exact hs.one id token token' (open_of_open_cons (fun _ _ => hclaim _ _ _) h)
      (open_of_open_cons (fun _ _ => hclaim _ _ _) h')
  · subst hid
    have hon := hs.rows row hrow
    have hstamp := hs.stamp_eq hrow hmine
    obtain ⟨takesNumber, hproposed⟩ := hon.proposed
    refine ⟨⟨takesNumber, ?_⟩, ?_, ?_, fun hnone => ?_, fun stamp hat => ?_⟩
    · rw [habout]
      exact List.mem_cons_of_mem _ hproposed
    · rw [habout]
      exact hended
    · intro now dispatched h
      rcases List.mem_cons.mp h with heq | h
      · rw [← (Entry.mk.inj heq).2] at hexpired
        cases hexpired
      · exact hon.unswept now dispatched h
    · rw [hstamp] at hnone
      cases hnone
    · obtain ⟨token', personId', hclaimed, hstanding⟩ := hon.stamped stamp hat
      rw [habout]
      refine ⟨token', personId', List.mem_cons_of_mem _ hclaimed, fun hmem => hstanding ?_⟩
      exact (List.mem_cons.mp hmem).resolve_left fun heq => hreleased token' heq.symm

/-- The store after a claim is taken back. -/
def PendingStore.released (s : PendingStore) (id : String) (token : ℕ) (dispatchedAt : Int) :
    PendingStore :=
  ({ s with rows := s.rows.map fun row =>
      if row.id = id ∧ row.dispatchedAt = some dispatchedAt then { row with dispatchedAt := none }
      else row } : PendingStore).record id (.released token)

/-- **A claim is taken back**, once the action has refused. -/
theorem Coherent.released (hs : Coherent carriesNumber s) {personId : String} {dispatchedAt : Int}
    (hmine : Mine token personId dispatchedAt (about id s.log))
    (hrefused : .answered token .refused ∈ about id s.log) :
    Coherent carriesNumber (s.released id token dispatchedAt) := by
  have habout : about id (s.released id token dispatchedAt).log =
      .released token :: about id s.log := about_self rfl
  have hnone : ∀ token', ¬ Open token' (.released token :: about id s.log) := by
    intro token' h
    have htoken := hs.one id token' token (open_of_open_cons (fun _ _ heq => by cases heq) h)
      hmine.opened
    exact h.standing (htoken ▸ List.mem_cons_self)
  have hfollows : Follows carriesNumber ⟨id, .released token⟩ s.log := hrefused
  refine hs.entry hfollows rfl ?_ ?_ ?_ ?_
  · have hids : (s.released id token dispatchedAt).rows.map (·.id) = s.rows.map (·.id) := by
      unfold PendingStore.released
      rw [record_rows, List.map_map]
      refine List.map_congr_left fun other _ => ?_
      show (if other.id = id ∧ _ then _ else other : PendingChange).id = other.id
      split_ifs <;> rfl
    rw [hids]
    exact hs.ids
  · intro token token' h _
    rw [habout] at h
    exact absurd h (hnone token)
  · intro other hother hid
    obtain ⟨before, hbefore, rfl⟩ := List.mem_map.mp hother
    split_ifs with hmatched
    · rw [if_pos hmatched] at hid
      exact absurd hmatched.1 hid
    · exact hbefore
  · intro other hother hid
    obtain ⟨before, hbefore, rfl⟩ := List.mem_map.mp hother
    have hsame : before.id = id := by
      split_ifs at hid <;> exact hid
    subst hsame
    have hon := hs.rows before hbefore
    obtain ⟨takesNumber, hproposed⟩ := hon.proposed
    rw [if_pos ⟨rfl, hs.stamp_eq hbefore hmine⟩]
    refine ⟨⟨takesNumber, ?_⟩, ?_, ?_, fun _ => ?_, fun stamp hat => by cases hat⟩
    · rw [habout]
      exact List.mem_cons_of_mem _ hproposed
    · rw [habout]
      exact hon.notEnded.cons (fun _ _ => nofun) fun _ _ => nofun
    · intro now dispatched h
      rcases List.mem_cons.mp h with heq | h
      · cases (Entry.mk.inj heq).2
      · exact hon.unswept now dispatched h
    · rw [habout]
      refine ⟨AllRefused.cons (fun token' actionName input hcalled => ?_) fun _ _ _ => nofun, hnone⟩
      by_cases htoken : token' = token
      · rw [htoken]
        exact hrefused
      · exact hmine.others token' actionName input htoken hcalled

/-- **A change ends** with its row, confirmed or rejected. -/
theorem Coherent.ended (hs : Coherent carriesNumber s)
    (hfollows : Follows carriesNumber ⟨id, act⟩ s.log) (hexpired : act.isExpired = false)
    (hclaim : ∀ token personId dispatchedAt, act ≠ .claimed token personId dispatchedAt) :
    Coherent carriesNumber ((s.deleteMany [id]).record id act) := by
  refine (hs.filter fun row => row.id ∉ [id]).entry hfollows rfl
    (hs.filter fun row => row.id ∉ [id]).ids (fun token token' h h' => ?_) (fun row hrow _ => hrow)
    fun row hrow hid => ?_
  · rw [record_log, about_self hexpired] at h h'
    exact hs.one id token token' (open_of_open_cons (fun _ _ => hclaim _ _ _) h)
      (open_of_open_cons (fun _ _ => hclaim _ _ _) h')
  · have hnot := (List.mem_filter.mp hrow).2
    simp [hid] at hnot

end OpenBrf.PendingChanges
