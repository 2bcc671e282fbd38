import OpenBrf.Fees.Billing
import OpenBrf.Txn.Safe

/-!
# Fees.Interleaving — rates and runs beside each other

Whoever records a rate, removes one or issues a run holds the notifications alone.
-/

namespace OpenBrf.Fees

open Txn Shared

/-- What is called while no purge runs. -/
inductive FeeCall (registerOrder : FeeStore → Fee → Fee → Bool) (zone : Zone) : FeeTx Unit → Prop
  | record (input : RecordFeeInput) : FeeCall registerOrder zone (do let _ ← record input)
  | remove (feeId : String) : FeeCall registerOrder zone (remove feeId)
  | issue (input : IssueNotificationInput) :
      FeeCall registerOrder zone (do let _ ← issue registerOrder zone input)
  | updateFinances (financialYearStartMonth : Int) :
      FeeCall registerOrder zone (updateFinances financialYearStartMonth)

/-- The calls beside each other. -/
def feeSystem (registerOrder : FeeStore → Fee → Fee → Bool) (zone : Zone) :
    System FeeStore FeeLock String FeeFailure where
  calls := FeeCall registerOrder zone
  prompt _ := False

/-- What commits keep of the rates, the runs and the notices: somebody who holds the notifications
finds them as they were. -/
def feeDiscipline : Discipline FeeStore FeeLock Unit where
  inv := Billing
  guards _ l m := l = .notifications ∧ m = .exclusive
  keeps _ := SameBilling
  allowed _ _ s s' := ∀ fee ∈ s.fees, (∀ fee' ∈ s'.fees, fee'.id ≠ fee.id) → ¬ Billed s fee
  inv_mono ht h := h.later ht
  keeps_refl _ _ := ⟨rfl, rfl, rfl⟩
  keeps_trans := SameBilling.trans

section Commits

variable {held : List (FeeLock × Mode)} {reads : List (Sight FeeStore FeeLock)} {t : Int}
  {s s' : FeeStore}

theorem SameBilling.billing (h : SameBilling s s') (hinv : Billing t s) : Billing t s' := by
  obtain ⟨hfees, hruns, hnotices⟩ := h
  cases s
  cases s'
  subst hfees hruns hnotices
  exact ⟨hinv.apart, hinv.real, hinv.nonempty, hinv.recorded, hinv.period, hinv.owned,
    hinv.settled, hinv.before⟩

theorem same_of_rely (hheld : (FeeLock.notifications, Mode.exclusive) ∈ held)
    (h : feeDiscipline.Rely held s s') : SameBilling s s' := by
  refine h () fun l m hl => ?_
  obtain ⟨rfl, rfl⟩ := hl
  exact ⟨.exclusive, hheld, fun _ => rfl⟩

/-- A change by somebody who holds the notifications. -/
theorem commits_of_held (hheld : (FeeLock.notifications, Mode.exclusive) ∈ held)
    (hinv : Billing t s')
    (hallowed : ∀ fee ∈ s.fees, (∀ fee' ∈ s'.fees, fee'.id ≠ fee.id) → ¬ Billed s fee) :
    feeDiscipline.Commits held reads t s s' := by
  refine ⟨hinv, hallowed, fun k hk => ?_⟩
  obtain ⟨h, -⟩ := hk .notifications .exclusive ⟨rfl, rfl⟩ .exclusive hheld
  cases h

/-- A change of something else. -/
theorem commits_of_same (hinv : Billing t s) (h : SameBilling s s') :
    feeDiscipline.Commits held reads t s s' := by
  refine ⟨h.billing hinv, fun fee hfee hgone => ?_, fun _ _ => h⟩
  rw [h.fees] at hgone
  exact absurd rfl (hgone fee hfee)

theorem SameBilling.symm (h : SameBilling s s') : SameBilling s' s :=
  ⟨h.fees.symm, h.notifications.symm, h.notices.symm⟩

theorem SameBilling.bills (h : SameBilling s s') : bills s' = bills s := by
  ext run apartmentId
  unfold Fees.bills
  rw [h.notices]

theorem SameBilling.ratesOf (h : SameBilling s s') : ratesOf s' = ratesOf s := by
  ext1 apartmentId
  ext1 kind
  unfold Fees.ratesOf
  rw [h.fees]

theorem SameBilling.billedFrom (h : SameBilling s s') : billedFrom s' = billedFrom s := by
  ext1 fee
  unfold Fees.billedFrom
  rw [h.notifications, h.bills]

/-- What is committed of a rate, where nothing was refused. -/
theorem commits_recorded (created : Fee) {startMonth : StartMonth}
    (hheld : (FeeLock.notifications, Mode.exclusive) ∈ held) (hinv : Billing t s)
    (hunbilled : ¬ ∃ run ∈ s.notifications,
      (firstMonthBilled created.appliesFrom).number ≤ run.periodTo.number ∧
        bills s run created.apartmentId)
    (hlater : ¬ ∃ fee ∈ ratesOf s created.apartmentId created.kind,
      created.appliesFrom.number ≤ fee.appliesFrom.number)
    (hends : ¬ ∃ fee ∈ ratesOf s created.apartmentId created.kind,
      ∃ ended ∈ fee.appliesUntil, created.appliesFrom.number ≤ ended.number)
    (hreal : created.appliesFrom.Real) (hopen : created.appliesUntil = none)
    (hid : ∀ fee ∈ s.fees, fee.id ≠ created.id) (hat : created.createdAt ≤ t) :
    feeDiscipline.Commits held reads t s { s with
      fees := s.fees.map (closing (standingRate s created.apartmentId created.kind)
        created.appliesFrom startMonth) ++ [created] } := by
  have hclosed : ∀ fee ∈ s.fees, ClosedBefore created.apartmentId created.appliesFrom fee
      (closing (standingRate s created.apartmentId created.kind) created.appliesFrom startMonth
        fee) := by
    intro fee hfee
    refine closedBefore_closing hinv (fun rate hrate => ?_) hfee
    exact Int.not_le.mp fun hle => hlater ⟨rate, hrate, hle⟩
  apply commits_of_held hheld
  · refine hinv.record ⟨hclosed, ?_, ?_, hreal, hopen, hid, hat⟩
    · intro fee hfee hapartment hkind
      refine ended_closing hinv (fun rate hrate ended hended => ?_) hfee hapartment hkind
      exact Int.not_le.mp fun hle => hends ⟨rate, hrate, ended, hended, hle⟩
    · intro run hrun hbills month hmonth
      obtain ⟨-, hlast, index, rfl⟩ := hinv.month_in hrun hmonth
      rw [number_monthOf] at hlast ⊢
      refine Int.not_le.mp fun hle => hunbilled ⟨run, hrun, ?_, hbills⟩
      exact ((firstMonthBilled_le_iff hreal index).mpr hle).trans hlast
  · intro fee hfee hgone
    refine absurd (hclosed fee hfee).id (hgone _ ?_)
    exact List.mem_append_left _ (List.mem_map_of_mem hfee)

end Commits

section Calls

variable {registerOrder : FeeStore → Fee → Fee → Bool} {zone : Zone} {prompt : FeeLock → Prop}
  {c : Ctx FeeStore FeeLock}

/-! ### What is stated -/

theorem safe_readDate {text : String} {Q : LocalDay → Ctx FeeStore FeeLock → Prop}
    (h : ∀ day : LocalDay, day.Real → Q day c) :
    Safe feeDiscipline prompt (readDate text) Q c := by
  unfold readDate
  cases hparse : parseLocalDay text with
  | none => exact safe_fail
  | some day => exact h day (real_of_parseLocalDay hparse)

theorem safe_readAmount {amount : String} {Q : ℕ → Ctx FeeStore FeeLock → Prop}
    (h : ∀ ore, Q ore c) : Safe feeDiscipline prompt (readAmount amount) Q c := by
  unfold readAmount
  split
  · exact safe_fail
  · exact safe_fail
  · exact h _

theorem safe_readVatRate {treatment : FeeVatTreatment} {vatRatePercent : Option Int}
    {Q : Option Int → Ctx FeeStore FeeLock → Prop} (h : ∀ rate, Q rate c) :
    Safe feeDiscipline prompt (readVatRate treatment vatRatePercent) Q c := by
  unfold readVatRate
  split
  · exact safe_fail
  · exact h _
  · exact safe_fail
  · split_ifs
    · exact safe_fail
    · exact h _

theorem safe_readPeriod {periodFrom periodTo : String}
    {Q : LocalDay × LocalDay → Ctx FeeStore FeeLock → Prop}
    (h : ∀ period : LocalDay × LocalDay, period.1.Real → isWholeMonths period.1 period.2 = true →
      Q period c) : Safe feeDiscipline prompt (readPeriod periodFrom periodTo) Q c := by
  unfold readPeriod
  rw [safe_bind]
  apply safe_readDate
  intro start hstart
  rw [safe_bind]
  apply safe_readDate
  intro last _
  rw [safe_bind, safe_refuseIf]
  intro hwhole
  rw [safe_pure]
  exact h (start, last) hstart (Bool.eq_true_of_not_eq_false hwhole)

/-! ### Rates -/

/-- What a call that holds the notifications and has written nothing knows of the store. -/
structure Holds (s₀ : FeeStore) (c : Ctx FeeStore FeeLock) : Prop where
  pending : c.pending = id
  held : (FeeLock.notifications, Mode.exclusive) ∈ c.held
  same : ∀ t s, c.knows t s → SameBilling s₀ s

theorem Holds.see {s₀ : FeeStore} (hc : Holds s₀ c) (t : Int) (s : FeeStore) :
    Holds s₀ (c.see feeDiscipline t s) :=
  ⟨hc.pending, hc.held, fun t' s' hk => hc.same t' s' hk.1⟩

theorem Holds.readAt {s₀ : FeeStore} (hc : Holds s₀ c) (t : Int) (s : FeeStore) :
    Holds s₀ ((c.observe feeDiscipline t s).readAt t) :=
  ⟨hc.pending, hc.held, fun t' s' hk => hc.same t' s' hk.1⟩

/-- A lock that is taken holds what is held. -/
theorem Holds.acquire {s₀ : FeeStore} (hc : Holds s₀ c) (l : FeeLock) (m : Mode) (t : Int)
    (s : FeeStore) : Holds s₀ ((c.acquire l m).observe feeDiscipline t s) :=
  ⟨hc.pending, List.mem_cons_of_mem _ hc.held, fun t' s' hk => hc.same t' s' hk.1⟩

/-- Once the notifications are held. -/
theorem safe_lockFeeNotifications (hp : c.pending = id) {Q : Unit → Ctx FeeStore FeeLock → Prop}
    (h : ∀ t s c', Billing t s → Holds s c' → Q () c') :
    Safe feeDiscipline prompt lockFeeNotifications Q c := by
  unfold lockFeeNotifications
  rw [safe_acquire]
  intro t s hinv _ _
  refine h t s _ hinv ⟨hp, List.mem_cons_self, fun t' s' hk => ?_⟩
  exact same_of_rely List.mem_cons_self hk.2.2

/-- What somebody who holds the notifications reads of them. -/
theorem safe_snapshot_held {s₀ : FeeStore} (hc : Holds s₀ c)
    {Q : FeeStore → Ctx FeeStore FeeLock → Prop}
    (h : ∀ s c', SameBilling s₀ s → Holds s₀ c' → Q s c') :
    Safe feeDiscipline prompt (snapshot : FeeTx FeeStore) Q c := by
  rw [safe_snapshot]
  intro t s _ hk
  rw [hc.pending]
  exact h s _ (hc.same t s hk) (hc.see t s)

theorem safe_closeStanding {s₀ : FeeStore} (hc : Holds s₀ c) {apartmentId : String} {kind : FeeKind}
    {appliesFrom : LocalDay} {startMonth : StartMonth} {Q : Unit → Ctx FeeStore FeeLock → Prop}
    (h : ∀ c', c.Since c' → (∀ s, c'.pending s = { s with
      fees := s.fees.map (closing (standingRate s₀ apartmentId kind) appliesFrom startMonth) }) →
      Q () c') :
    Safe feeDiscipline prompt (closeStanding apartmentId kind appliesFrom startMonth) Q c := by
  unfold closeStanding
  rw [safe_bind, safe_snapshot]
  intro t₁ s₁ _ hk
  rw [hc.pending]
  have hstanding : standingRate (id s₁) apartmentId kind = standingRate s₀ apartmentId kind := by
    unfold standingRate ratesOf
    rw [id, (hc.same t₁ s₁ hk).fees]
  rw [hstanding]
  have hseen := (Ctx.Later.refl c).see (D := feeDiscipline) t₁ s₁
  cases hcase : standingRate s₀ apartmentId kind with
  | none =>
    refine h _ hseen.toSince fun s => ?_
    rw [hseen.pending, hc.pending, hcase]
    show s = { s with fees := s.fees.map id }
    rw [List.map_id]
  | some standing =>
    show Safe _ _ (updateRow _ _ _ >>= _) Q _
    rw [safe_bind]
    apply safe_updateRow
    · intro c' _
      rw [safe_refuseIf]
      exact fun hnot => absurd rfl hnot
    · intro c' t₂ s₂ hlater _ _ _ _
      rw [safe_refuseIf]
      intro _
      refine h _ ((hseen.toSince.trans hlater.toSince).write _) fun s => ?_
      rw [Ctx.pending_write (hlater.pending.trans (hseen.pending.trans hc.pending)), hcase]
      show ({ s with fees := s.fees.map _ } : FeeStore) = { s with fees := s.fees.map _ }
      congr 2
      ext1 fee
      unfold closing
      rw [Option.any_some]
      simp only [decide_eq_true_eq]

theorem safe_record (input : RecordFeeInput) :
    SafeCall feeDiscipline prompt (do let _ ← record input) := by
  unfold SafeCall record
  rw [safe_bind, safe_bind]
  apply safe_readDate
  intro appliesFrom hreal
  rw [safe_bind]
  apply safe_readAmount
  intro monthlyAmount
  rw [safe_bind]
  apply safe_readVatRate
  intro vatRatePercent
  rw [safe_bind, safe_snapshot]
  intro _ _ _ _
  rw [safe_bind, safe_refuseIf]
  intro _
  rw [safe_transaction]
  rw [safe_bind]
  apply safe_lockFeeNotifications rfl
  intro t₀ s₀ c₁ hinv hc₁
  unfold lockFeeRates
  rw [safe_bind, safe_acquire]
  intro t₂ s₂ _ _ _
  rw [safe_bind]
  apply safe_snapshot_held (hc₁.acquire _ _ t₂ s₂)
  intro s₃ c₃ hsame₃ hc₃
  rw [safe_bind, safe_refuseIf]
  intro hunbilled
  rw [safe_bind]
  apply safe_snapshot_held hc₃
  intro s₄ c₄ hsame₄ hc₄
  rw [safe_bind, safe_refuseIf]
  intro hlater
  rw [safe_bind]
  apply safe_snapshot_held hc₄
  intro s₅ c₅ hsame₅ hc₅
  rw [safe_bind, safe_refuseIf]
  intro hends
  unfold financialYearStartMonthInForce
  rw [safe_bind, safe_bind]
  apply safe_snapshot_held hc₅
  intro s₆ c₆ _ hc₆
  rw [safe_pure, safe_bind]
  apply safe_closeStanding hc₆
  intro c₇ hsince hpending
  unfold lockedNow
  rw [safe_bind, safe_readClock]
  intro createdAt s₈ _ hk₈
  rw [safe_bind, safe_fresh]
  intro id
  rw [safe_bind, safe_acquire]
  intro t₉ s₉ _ _ _
  rw [safe_bind, safe_snapshot]
  intro t₁₀ s₁₀ _ hk₁₀
  rw [safe_bind, safe_refuseIf]
  intro hid
  rw [safe_bind, safe_update, safe_pure, safe_pure]
  refine ⟨fun t s hinv' hk => ?_, trivial⟩
  have hsame : SameBilling s s₀ := (hc₆.same t s (hsince.knows t s hk.1.1.1)).symm
  have hstanding : standingRate s₀ input.apartmentId input.kind =
      standingRate s input.apartmentId input.kind := by
    unfold standingRate
    rw [hsame.ratesOf]
  show feeDiscipline.Commits _ _ t s ({ c₇.pending s with fees := (c₇.pending s).fees ++ [_] })
  rw [hpending, hstanding]
  rw [(hsame.trans hsame₃).notifications, (hsame.trans hsame₃).bills] at hunbilled
  rw [(hsame.trans hsame₄).ratesOf] at hlater
  rw [(hsame.trans hsame₅).ratesOf] at hends
  refine commits_recorded ⟨id, input.apartmentId, input.kind, appliesFrom, none, _, monthlyAmount,
    input.vatTreatment, vatRatePercent, createdAt⟩ ?_ hinv' hunbilled hlater hends hreal rfl (fun fee hfee heq => ?_) ?_
  · exact List.mem_cons_of_mem _ (hsince.held _ hc₆.held)
  · -- the identifier was free among the rates as they are closed
    have hsame' := hsame.trans (hc₆.same t₁₀ s₁₀ (hsince.knows _ _ hk₁₀.1.1))
    refine hid ⟨closing (standingRate s₀ input.apartmentId input.kind) appliesFrom
      (s₆.association.getD CALENDAR_YEAR_START_MONTH) fee, ?_, ?_⟩
    · show _ ∈ (c₇.pending s₁₀).fees
      rw [hpending, hsame'.fees]
      exact List.mem_map_of_mem hfee
    · exact (id_closing _ _ _ fee).trans heq
  · exact hk.1.1.2.1

theorem safe_remove (feeId : String) : SafeCall feeDiscipline prompt (remove feeId) := by
  unfold SafeCall remove
  rw [safe_transaction, safe_bind]
  apply safe_lockFeeNotifications rfl
  intro t₀ s₀ c₁ hinv hc₁
  unfold requireFee
  rw [safe_bind, safe_bind]
  apply safe_snapshot_held hc₁
  intro s₁ c₂ hsame₁ hc₂
  cases hfind : findFee s₁ feeId with
  | none => exact safe_fail
  | some fee =>
    rw [safe_pure, safe_bind]
    apply safe_snapshot_held hc₂
    intro s₂ c₃ hsame₂ hc₃
    rw [safe_bind, safe_refuseIf]
    intro hbilled
    have hid : fee.id = feeId := by
      have hp := List.find?_some hfind
      exact of_decide_eq_true hp
    rw [safe_bind]
    apply safe_updateRow
    · intro c' _
      rw [safe_refuseIf]
      exact fun hnot => absurd rfl hnot
    · intro c' t₃ s₃ hlater _ _ _ _
      rw [safe_refuseIf]
      refine fun _ => ⟨fun t s hinv' hk => ?_, trivial⟩
      have hsame : SameBilling s s₀ := (hc₃.same t s (hlater.knows t s hk)).symm
      have hmem : fee ∈ s.fees := by
        rw [← (hsame.trans hsame₁).fees]
        exact List.mem_of_find?_eq_some hfind
      have hnot : ¬ Billed s fee := by
        rw [← hinv'.billedFrom_iff hmem, ← (hsame.trans hsame₂).billedFrom]
        exact hbilled
      rw [Ctx.pending_write (hlater.pending.trans hc₃.pending), ← hid]
      refine commits_of_held (hlater.held _ hc₃.held) (hinv'.remove hmem hnot) ?_
      intro other hother hgone
      by_cases hother' : other.id = fee.id
      · rwa [hinv'.unique hother hmem hother']
      · have hkept : other ∈ s.fees.filter (·.id ≠ fee.id) :=
          List.mem_filter.mpr ⟨hother, decide_eq_true hother'⟩
        exact absurd rfl (hgone other hkept)

/-! ### Runs -/

theorem safe_refuseClash {s₀ : FeeStore} (hc : Holds s₀ c) {first last : LocalDay}
    {Q : Unit → Ctx FeeStore FeeLock → Prop} (h : ∀ c', Holds s₀ c' → Q () c') :
    Safe feeDiscipline prompt (refuseClash first last) Q c := by
  unfold refuseClash
  rw [safe_bind]
  apply safe_snapshot_held hc
  intro s₁ c₁ _ hc₁
  split
  · exact h c₁ hc₁
  · split_ifs
    · exact safe_fail
    · exact safe_fail

theorem safe_issue (input : IssueNotificationInput) :
    SafeCall feeDiscipline prompt (do let _ ← issue registerOrder zone input) := by
  unfold SafeCall issue
  rw [safe_bind, safe_bind]
  apply safe_readPeriod
  intro period hreal hwhole
  rw [safe_bind]
  apply safe_readDate
  intro dueOn _
  rw [safe_bind, safe_refuseIf]
  intro _
  rw [safe_bind, safe_refuseIf]
  intro hshort
  rw [safe_transaction, safe_bind]
  apply safe_lockFeeNotifications rfl
  intro t₀ s₀ c₁ hinv hc₁
  unfold financialYearStartMonthInForce
  rw [safe_bind, safe_bind]
  apply safe_snapshot_held hc₁
  intro s₁ c₂ _ hc₂
  rw [safe_pure, safe_bind, safe_readClock]
  intro now s₂ _ _
  rw [safe_bind, safe_refuseIf]
  intro _
  rw [safe_bind]
  apply safe_refuseClash (hc₂.readAt now s₂)
  intro c₃ hc₃
  rw [safe_bind]
  apply safe_snapshot_held hc₃
  intro s₄ c₄ _ hc₄
  rw [safe_bind, safe_refuseIf]
  intro _
  rw [safe_bind]
  apply safe_snapshot_held hc₄
  intro s₅ c₅ hsame₅ hc₅
  dsimp only
  rw [safe_bind, safe_refuseIf]
  intro _
  rw [safe_bind, safe_refuseIf]
  intro _
  rw [safe_bind, safe_refuseIf]
  intro _
  unfold lockedNow
  rw [safe_bind, safe_readClock]
  intro issuedAt s₆ hinv₆ hk₆
  rw [safe_bind, safe_fresh]
  intro id
  unfold insertRun
  rw [safe_bind, safe_bind, safe_acquire]
  intro t₇ s₇ _ _ _
  rw [safe_bind]
  apply safe_snapshot_held ((hc₅.readAt issuedAt s₆).acquire _ _ t₇ s₇)
  intro s₈ c₈ hsame₈ hc₈
  rw [safe_bind, safe_refuseIf]
  intro hid
  rw [safe_bind]
  apply safe_snapshot_held hc₈
  intro s₉ c₉ _ hc₉
  rw [safe_bind, safe_refuseIf]
  intro _
  rw [safe_update, safe_pure, safe_pure]
  refine ⟨fun t s hinv' hk => ?_, trivial⟩
  have hsame : SameBilling s s₀ := (hc₉.same t s hk).symm
  rw [Ctx.pending_write hc₉.pending]
  apply commits_of_held hc₉.held
  · refine hinv'.issue ⟨id, period.1, period.2, dueOn, _, issuedAt⟩
      ⟨hreal, hwhole, Nat.le_of_not_lt hshort⟩ (fun other hother heq => ?_) (fun fee hfee => ?_)
      fun billed hbilled => ?_
    · rw [← (hsame.trans hsame₈).notifications] at hother
      exact hid ⟨other, hother, heq⟩
    · -- whoever recorded it held the notifications before
      rw [← (hsame.trans (hc₅.same issuedAt s₆ hk₆)).fees] at hfee
      exact hinv₆.recorded fee hfee
    · rw [← (hsame.trans hsame₅).fees]
      exact amount_eq_owed (WholePeriod.pairwise_monthsIn _ _ hreal.1) hbilled
  · exact fun fee hfee hgone => absurd rfl (hgone fee hfee)

theorem safe_updateFinances (financialYearStartMonth : Int) :
    SafeCall feeDiscipline prompt (updateFinances financialYearStartMonth) := by
  unfold SafeCall updateFinances
  rw [safe_bind, safe_snapshot]
  intro _ _ _ _
  rw [safe_bind, safe_refuseIf]
  intro _
  split_ifs with hmonth
  · rw [safe_transaction, safe_bind, safe_acquire]
    intro _ _ _ _ _
    rw [safe_update]
    exact ⟨fun t s hinv _ => commits_of_same hinv ⟨rfl, rfl, rfl⟩, trivial⟩
  · exact safe_fail

/-- **Every call is safe.** -/
theorem safe_feeCall (p : FeeTx Unit) (hp : (feeSystem registerOrder zone).calls p) :
    SafeCall feeDiscipline (feeSystem registerOrder zone).prompt p := by
  cases hp with
  | record input => exact safe_record input
  | remove feeId => exact safe_remove feeId
  | issue input => exact safe_issue input
  | updateFinances month => exact safe_updateFinances month

end Calls

/-! ### Every run -/

/-- **The removal** is refused exactly where a run on file billed a month at the rate. -/
theorem call_remove {t : Int} {s : FeeStore} (h : Billing t s) {fee : Fee} (hfee : fee ∈ s.fees)
    (now : Int) (draws : ℕ → String) :
    (call (remove fee.id) now draws s).1 = .error (.feeError
      "That fee has already been billed and cannot be removed." .feeNotified) ↔ Billed s fee := by
  have hfind : findFee s fee.id = some fee := by
    unfold findFee
    cases hcase : s.fees.find? fun other => other.id = fee.id with
    | none =>
      have hnone := List.find?_eq_none.mp hcase fee hfee
      exact absurd (decide_eq_true rfl) hnone
    | some other =>
      have hp := List.find?_some hcase
      rw [h.unique (List.mem_of_find?_eq_some hcase) hfee (of_decide_eq_true hp)]
  have hany : s.fees.any (fun other => other.id = fee.id) = true :=
    List.any_eq_true.mpr ⟨fee, hfee, decide_eq_true rfl⟩
  rw [← h.billedFrom_iff hfee]
  unfold call remove requireFee lockFeeNotifications transaction refuseIf
  simp only [exec_bind, exec_acquire, exec_snapshot, hfind, exec_pure]
  by_cases hbilled : billedFrom s fee = true
  · simp [hbilled]
  · simp [hbilled, hany, exec]

/-- The windows of rates of one apartment and kind share no day. -/
theorem Apart.not_inForce {a b : Fee} (h : Apart a b) (day : LocalDay) :
    ¬ (inForceOn day a = true ∧ inForceOn day b = true) := by
  rintro ⟨ha, hb⟩
  obtain ⟨hfrom, hends⟩ := inForceOn_iff.mp ha
  obtain ⟨hfrom', hends'⟩ := inForceOn_iff.mp hb
  rcases h with ⟨ended, hended, hlt⟩ | ⟨ended, hended, hlt⟩
  · have hle := hends ended hended
    omega
  · have hle := hends' ended hended
    omega

/-- Of rates apart of which any two are one there is at most one. -/
theorem length_le_one_of_apart : ∀ {l : List Fee}, l.Pairwise RatesApart →
    (∀ a ∈ l, ∀ b ∈ l, a = b) → l.length ≤ 1
  | [], _, _ => Nat.zero_le _
  | [_], _, _ => le_rfl
  | a :: b :: l, h, heq => by
    have hab := (List.pairwise_cons.mp h).1 b List.mem_cons_self
    have hid := congrArg Fee.id (heq a List.mem_cons_self b (List.mem_cons_of_mem _ List.mem_cons_self))
    exact absurd hid hab.1

/-- Of the rates of an apartment and a kind at most one is open. -/
theorem Billing.length_open {t : Int} {s : FeeStore} (h : Billing t s) (apartmentId : String)
    (kind : FeeKind) :
    ((ratesOf s apartmentId kind).filter fun fee => fee.appliesUntil = none).length ≤ 1 := by
  apply length_le_one_of_apart
  · exact (h.apart.sublist List.filter_sublist).sublist List.filter_sublist
  · intro a ha b hb
    obtain ⟨hmema, hopena⟩ := List.mem_filter.mp ha
    obtain ⟨hmemb, hopenb⟩ := List.mem_filter.mp hb
    obtain ⟨hina, hapartment, hkind⟩ := mem_ratesOf.mp hmema
    obtain ⟨hinb, hapartment', hkind'⟩ := mem_ratesOf.mp hmemb
    exact h.open_unique hina hinb (hapartment.trans hapartment'.symm) (hkind.trans hkind'.symm)
      (of_decide_eq_true hopena) (of_decide_eq_true hopenb)

/-- **Rates and runs beside each other.**  In every state a run reaches the windows of the rates of
an apartment and a kind are nonempty and disjoint and at most one is open, every notice has the
amount that the months of its run and the rates now on file give, and a removal is refused exactly
where a run on file billed a month at the rate.  No step takes away a rate of which that holds. -/
theorem billing_of_reaches (registerOrder : FeeStore → Fee → Fee → Bool) (zone : Zone)
    {s : FeeStore} {t : Int} {c : Config FeeStore FeeLock String FeeFailure} (hfees : s.fees = [])
    (hruns : s.notifications = []) (hnotices : s.notices = [])
    (hrun : Reaches (feeSystem registerOrder zone) (.quiet s t) c) :
    ((∀ fee ∈ c.store.fees, ∀ ended ∈ fee.appliesUntil, fee.appliesFrom.number ≤ ended.number) ∧
      c.store.fees.Pairwise (fun a b => a.apartmentId = b.apartmentId → a.kind = b.kind →
        ∀ day, ¬ (inForceOn day a = true ∧ inForceOn day b = true)) ∧
      ∀ apartmentId kind,
        ((ratesOf c.store apartmentId kind).filter fun fee => fee.appliesUntil = none).length ≤ 1) ∧
    (∀ notice ∈ c.store.notices,
      (∃ run ∈ c.store.notifications, run.id = notice.notificationId) ∧
        ∀ run ∈ c.store.notifications, run.id = notice.notificationId →
          Settles c.store notice run) ∧
    (∀ fee ∈ c.store.fees, ∀ now draws, (call (remove fee.id) now draws c.store).1 =
      .error (.feeError "That fee has already been billed and cannot be removed." .feeNotified) ↔
        Billed c.store fee) ∧
    ∀ c', Step (feeSystem registerOrder zone) c c' → ∀ fee ∈ c.store.fees,
      (∀ fee' ∈ c'.store.fees, fee'.id ≠ fee.id) → ¬ Billed c.store fee := by
  have hempty : Billing t s := by
    refine ⟨?_, ?_, ?_, ?_, ?_, ?_, ?_, ?_⟩
    · rw [hfees]
      exact .nil
    · simp [hfees]
    · simp [hfees]
    · simp [hfees]
    · simp [hruns]
    · simp [hnotices]
    · simp [hnotices]
    · simp [hruns]
  have hinv : Billing c.clock c.store := inv_of_reaches safe_feeCall hempty hrun
  refine ⟨⟨hinv.nonempty, ?_, hinv.length_open⟩, fun notice hnotice => ?_, fun fee hfee now draws =>
    call_remove hinv hfee now draws, fun c' hstep fee hfee hgone => ?_⟩
  · exact hinv.apart.imp fun {a b} hab hapartment hkind => (hab.2 hapartment hkind).not_inForce
  · exact ⟨hinv.owned notice hnotice, hinv.settled notice hnotice⟩
  · rcases allowed_of_reaches safe_feeCall hempty hrun hstep with hsame | ⟨i, q, -, hallowed⟩
    · rw [hsame] at hgone
      exact absurd rfl (hgone fee hfee)
    · exact hallowed fee hfee hgone

/-! ### One run -/

section Spring

def house : FeeStore where
  apartmentIds := ["1001"]

def annualFee : RecordFeeInput where
  apartmentId := "1001"
  kind := .ANNUAL_FEE
  appliesFrom := "2026-01-15"
  monthlyAmount := "3500"
  vatTreatment := .EXEMPT
  vatRatePercent := none

def spring : IssueNotificationInput := ⟨"2026-01-01", "2026-03-31", "2026-01-31"⟩

def annualRate : Fee :=
  ⟨"rate", "1001", .ANNUAL_FEE, ⟨2026, 1, 15⟩, none, CALENDAR_YEAR_START_MONTH, 350000, .EXEMPT,
    none, 0⟩

def springRun : FeeNotification :=
  ⟨"spring", ⟨2026, 1, 1⟩, ⟨2026, 3, 31⟩, ⟨2026, 1, 31⟩, CALENDAR_YEAR_START_MONTH, 0⟩

def springNotice : FeeNotice := ⟨"spring", "1001", 700000, paymentReferenceFor ⟨2026, 1, 1⟩ 1⟩

/-- The house once the rate is recorded, and once the spring is billed. -/
def recorded : FeeStore := { house with fees := [annualRate] }

def billed : FeeStore := { recorded with notifications := [springRun], notices := [springNotice] }

theorem firstCommit_record :
    firstCommit (do let _ ← record annualFee : FeeTx Unit) ⟨0, fun _ => "rate", house, house⟩ =
      some recorded := by
  decide +kernel

theorem firstCommit_issue :
    firstCommit (do let _ ← issue (fun _ _ _ => true) utc spring : FeeTx Unit)
      ⟨0, fun _ => "spring", recorded, recorded⟩ = some billed := by
  decide +kernel

/-- A rate from the middle of January is billed from February, and then stays. -/
theorem billing_of_billed : Settles billed springNotice springRun ∧
    (call (remove "rate") 0 (fun _ => "") billed).1 = .error (.feeError
      "That fee has already been billed and cannot be removed." .feeNotified) := by
  have hrecord : (feeSystem (fun _ _ _ => true) utc).calls (do let _ ← record annualFee) :=
    .record annualFee
  have hissue : (feeSystem (fun _ _ _ => true) utc).calls
      (do let _ ← issue (fun _ _ _ => true) utc spring) := .issue spring
  obtain ⟨c₀, c₁, hrun₁, hstep₁, -, -, -, hquiet⟩ := reaches_call hrecord _ firstCommit_record
  obtain ⟨c, c', hrun₂, hstep₂, -, -, hstore, -⟩ := reaches_call hissue _ firstCommit_issue
  have hrun := ((hrun₁.tail hstep₁).trans hquiet).trans (hrun₂.tail hstep₂)
  obtain ⟨-, hnotices, hremoved, -⟩ := billing_of_reaches (fun _ _ _ => true) utc rfl rfl rfl hrun
  rw [hstore] at hnotices hremoved
  refine ⟨(hnotices springNotice List.mem_cons_self).2 springRun List.mem_cons_self rfl, ?_⟩
  refine (hremoved annualRate List.mem_cons_self 0 _).mpr ⟨springRun, List.mem_cons_self, ?_⟩
  exact ⟨by decide +kernel, ⟨2026, 2, 1⟩, by decide +kernel, by decide +kernel⟩

end Spring

end OpenBrf.Fees
