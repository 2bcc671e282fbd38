import Mathlib.Data.List.Induction
import OpenBrf.Fees.Billing

/-!
# Fees.History — every run handed out, erased ones too

What a run handed out is told apart from what was handed out before exactly when the issue met a
condition on the runs before it.
-/

namespace OpenBrf.Fees

open Txn Lang Shared

/-- A run as it was issued: the store it was issued on, the run and its notices. -/
structure Issue where
  store : FeeStore
  run : FeeNotification
  notices : List FeeNotice
  deriving DecidableEq

namespace Issue

def months (issue : Issue) : List LocalDay := monthsIn issue.run.periodFrom issue.run.periodTo

/-- Whether a run billed an apartment. -/
def Bills (issue : Issue) (apartmentId : String) : Prop :=
  ∃ notice ∈ issue.notices, notice.apartmentId = apartmentId

/-- No month of an apartment is billed by both runs. -/
def Apart (a b : Issue) : Prop :=
  ∀ apartmentId, a.Bills apartmentId → b.Bills apartmentId → ∀ month ∈ a.months, month ∉ b.months

end Issue

/-- No payment reference is handed out twice, and no month of an apartment is billed by two runs. -/
def Clean (handed : List Issue) : Prop :=
  ((handed.flatMap (·.notices)).map (·.paymentReference)).Nodup ∧ handed.Pairwise Issue.Apart

/-- What an issue has to meet.  A run of which no notice is on file does not open in the same month
of a century as the period, and one that is not on file did not bill an apartment that is due for a
month of the period. -/
def Meets (before : List Issue) (s : FeeStore) (first last : LocalDay) : Prop :=
  ∀ h ∈ before,
    ((∀ notice ∈ h.notices, notice ∉ s.notices) →
      openingOf h.run.periodFrom ≠ openingOf first) ∧
    (h.run ∉ s.notifications → ∀ apartmentId, h.Bills apartmentId →
      Due s apartmentId (monthsIn first last) → ∀ month ∈ h.months, month ∉ monthsIn first last)

variable {registerOrder : FeeStore → Fee → Fee → Bool} {zone : Zone} {s s' : FeeStore} {t : Int}

/-- What an issue that succeeded found, and what it handed out. -/
structure Issued (registerOrder : FeeStore → Fee → Fee → Bool) (issue : Issue) : Prop where
  period : WholePeriod issue.run.periodFrom issue.run.periodTo
  apart : ∀ run ∈ issue.store.notifications,
    ¬ (run.periodFrom.number ≤ issue.run.periodTo.number ∧
      issue.run.periodFrom.number ≤ run.periodTo.number)
  unused : ∀ notice ∈ issue.store.notices,
    ¬ openingOf issue.run.periodFrom <+: notice.paymentReference.toList
  notices : issue.notices = noticesOf issue.run.id issue.run.periodFrom
    (amountPerApartment registerOrder issue.store issue.months)
  some : amountPerApartment registerOrder issue.store issue.months ≠ []
  few : (amountPerApartment registerOrder issue.store issue.months).length ≤ MAX_NOTICES_PER_RUN

/-! ### References -/

theorem mem_references {notificationId : String} {periodFrom : LocalDay}
    {amounts : List (String × ℕ)} {notice : FeeNotice}
    (h : notice ∈ noticesOf notificationId periodFrom amounts) :
    ∃ position, notice.paymentReference = paymentReferenceFor periodFrom position := by
  obtain ⟨billed, -, rfl⟩ := List.mem_map.mp h
  exact ⟨_, rfl⟩

/-- The references of one run differ. -/
theorem nodup_references (notificationId : String) (periodFrom : LocalDay)
    {amounts : List (String × ℕ)} (hfew : amounts.length ≤ MAX_NOTICES_PER_RUN) :
    ((noticesOf notificationId periodFrom amounts).map (·.paymentReference)).Nodup := by
  have hplaces : (noticesOf notificationId periodFrom amounts).map (·.paymentReference) =
      (List.range' 0 amounts.length).map fun place =>
        paymentReferenceFor periodFrom (place + 1) := by
    unfold noticesOf
    rw [List.map_map, ← List.zipIdx_map_snd 0 amounts, List.map_map]
    rfl
  rw [hplaces]
  refine List.Nodup.map_on (fun place hplace place' hplace' heq => ?_) List.nodup_range'
  have hlt := List.mem_range'_1.mp hplace
  have hlt' := List.mem_range'_1.mp hplace'
  have hsame := position_eq (by omega) (by omega) heq
  omega

/-- A reference depends on nothing of the period but the opening. -/
theorem paymentReferenceFor_congr {periodFrom periodFrom' : LocalDay} (position : ℕ)
    (h : openingOf periodFrom = openingOf periodFrom') :
    paymentReferenceFor periodFrom position = paymentReferenceFor periodFrom' position := by
  unfold paymentReferenceFor
  rw [h]

theorem opening_prefix (periodFrom : LocalDay) (position : ℕ) :
    openingOf periodFrom <+: (paymentReferenceFor periodFrom position).toList := by
  obtain ⟨rest, hrest, -⟩ := toList_paymentReferenceFor periodFrom position
  rw [hrest]
  exact List.prefix_append _ _

namespace Issued

variable {issue : Issue}

theorem reference_eq (h : Issued registerOrder issue) {notice : FeeNotice}
    (hnotice : notice ∈ issue.notices) :
    ∃ position, notice.paymentReference = paymentReferenceFor issue.run.periodFrom position := by
  rw [h.notices] at hnotice
  exact mem_references hnotice

/-- Every run has a first notice. -/
theorem first (h : Issued registerOrder issue) : ∃ notice ∈ issue.notices,
    notice.paymentReference = paymentReferenceFor issue.run.periodFrom 1 := by
  rw [h.notices]
  cases hamounts : amountPerApartment registerOrder issue.store issue.months with
  | nil => exact absurd hamounts h.some
  | cons billed rest => exact ⟨_, List.mem_cons_self, rfl⟩

theorem bills_iff (h : Issued registerOrder issue) (apartmentId : String) :
    issue.Bills apartmentId ↔ Due issue.store apartmentId issue.months := by
  have hdue : apartmentId ∈ (amountPerApartment registerOrder issue.store issue.months).map (·.1) ↔
      Due issue.store apartmentId issue.months :=
    mem_amountPerApartment_iff (WholePeriod.pairwise_monthsIn _ _ h.period.real.1)
  rw [← hdue]
  unfold Issue.Bills
  rw [h.notices]
  constructor
  · rintro ⟨notice, hnotice, rfl⟩
    exact List.mem_map.mpr ⟨_, (mem_noticesOf hnotice).2, rfl⟩
  · intro hmem
    obtain ⟨billed, hbilled, rfl⟩ := List.mem_map.mp hmem
    obtain ⟨place, hplace⟩ := List.getElem?_of_mem hbilled
    refine ⟨_, List.mem_map.mpr ⟨(billed, place), ?_, rfl⟩, rfl⟩
    exact List.mk_mem_zipIdx_iff_getElem?.mpr hplace

/-- A month of a run lies in its period. -/
theorem month_in (h : Issued registerOrder issue) {month : LocalDay} (hmonth : month ∈ issue.months) :
    issue.run.periodFrom.number ≤ month.number ∧ month.number ≤ issue.run.periodTo.number := by
  obtain ⟨index, hle, hlast, rfl⟩ := h.period.mem_monthsIn.mp hmonth
  rw [number_monthOf, h.period.number_first]
  exact ⟨monthStart_mono hle, hlast⟩

end Issued

/-! ### What was handed out -/

/-- Whether an issue met its condition. -/
def Issue.Met (before : List Issue) (issue : Issue) : Prop :=
  Meets before issue.store issue.run.periodFrom issue.run.periodTo

section Handed

variable {before : List Issue} {issue : Issue}

/-- A run on file shares no month with one that is issued beside it. -/
theorem Issued.apart_of_on_file {h : Issue} (hissue : Issued registerOrder issue)
    (hh : Issued registerOrder h) (hfile : h.run ∈ issue.store.notifications) : h.Apart issue := by
  intro apartmentId _ _ month hmonth hmonth'
  have hin := hh.month_in hmonth
  have hin' := hissue.month_in hmonth'
  exact hissue.apart h.run hfile ⟨by omega, by omega⟩

/-- **One issue.**  What is handed out stays told apart exactly when the issue met its condition. -/
theorem clean_append_iff (hbefore : ∀ h ∈ before, Issued registerOrder h)
    (hissue : Issued registerOrder issue) :
    Clean (before ++ [issue]) ↔ Clean before ∧ issue.Met before := by
  unfold Clean
  rw [List.flatMap_append, List.map_append, List.nodup_append, List.pairwise_append]
  have hself : [issue].flatMap (·.notices) = issue.notices := List.flatMap_singleton _ _
  rw [hself]
  constructor
  · rintro ⟨⟨hnodup, -, hdistinct⟩, hapart, -, happart'⟩
    refine ⟨⟨hnodup, hapart⟩, fun h hh => ⟨fun _ hopening => ?_, fun _ apartmentId hbills hdue => ?_⟩⟩
    · obtain ⟨notice, hnotice, href⟩ := (hbefore h hh).first
      obtain ⟨notice', hnotice', href'⟩ := hissue.first
      refine hdistinct notice.paymentReference ?_ notice'.paymentReference ?_ ?_
      · exact List.mem_map_of_mem (List.mem_flatMap.mpr ⟨h, hh, hnotice⟩)
      · exact List.mem_map_of_mem hnotice'
      · rw [href, href']
        exact paymentReferenceFor_congr 1 hopening
    · exact happart' h hh issue List.mem_cons_self apartmentId hbills
        ((hissue.bills_iff apartmentId).mpr hdue)
  · rintro ⟨⟨hnodup, hapart⟩, hmet⟩
    refine ⟨⟨hnodup, ?_, ?_⟩, hapart, List.pairwise_singleton _ _, ?_⟩
    · rw [hissue.notices]
      exact nodup_references _ _ hissue.few
    · intro reference href reference' href' heq
      obtain ⟨notice, hnotice, rfl⟩ := List.mem_map.mp href
      obtain ⟨notice', hnotice', rfl⟩ := List.mem_map.mp href'
      obtain ⟨h, hh, hnotice⟩ := List.mem_flatMap.mp hnotice
      obtain ⟨position, hposition⟩ := (hbefore h hh).reference_eq hnotice
      obtain ⟨position', hposition'⟩ := hissue.reference_eq hnotice'
      have hopening : openingOf h.run.periodFrom = openingOf issue.run.periodFrom :=
        openingOf_eq (hposition.symm.trans (heq.trans hposition'))
      -- either a notice of the run is on file, and the issue saw its opening, or none is
      refine (hmet h hh).1 (fun kept hkept hfile => ?_) hopening
      obtain ⟨place, hplace⟩ := (hbefore h hh).reference_eq hkept
      apply hissue.unused kept hfile
      rw [hplace, ← hopening]
      exact opening_prefix _ _
    · intro h hh last hlast
      rw [List.mem_singleton.mp hlast]
      by_cases hfile : h.run ∈ issue.store.notifications
      · exact hissue.apart_of_on_file (hbefore h hh) hfile
      · intro apartmentId hbills hbills'
        exact (hmet h hh).2 hfile apartmentId hbills ((hissue.bills_iff apartmentId).mp hbills')

/-- **Every issue.**  What was handed out is told apart exactly when every issue met its condition
on those before it. -/
theorem clean_iff {handed : List Issue} (hhanded : ∀ h ∈ handed, Issued registerOrder h) :
    Clean handed ↔ ∀ before issue after, handed = before ++ issue :: after → issue.Met before := by
  induction handed using List.reverseRecOn with
  | nil =>
    refine ⟨fun _ before issue after heq => ?_, fun _ => ⟨List.nodup_nil, .nil⟩⟩
    exact absurd heq.symm (List.append_ne_nil_of_right_ne_nil _ (List.cons_ne_nil _ _))
  | append_singleton handed last ih =>
    have hold := fun h hh => hhanded h (List.mem_append_left _ hh)
    rw [clean_append_iff hold (hhanded last (List.mem_append_right _ List.mem_cons_self)), ih hold]
    constructor
    · rintro ⟨hmet, hlast⟩ before issue after heq
      rcases List.eq_nil_or_concat after with rfl | ⟨init, final, rfl⟩
      · obtain ⟨rfl, hsingle⟩ := List.append_inj' heq rfl
        rw [← List.singleton_inj.mp hsingle]
        exact hlast
      · rw [List.concat_eq_append, ← List.cons_append, ← List.append_assoc] at heq
        obtain ⟨heq, -⟩ := List.append_inj' heq rfl
        exact hmet before issue init heq
    · intro hmet
      refine ⟨fun before issue after heq => ?_, hmet handed last [] rfl⟩
      refine hmet before issue (after ++ [last]) ?_
      rw [heq, List.append_assoc, List.cons_append]

end Handed

/-! ### Histories -/

theorem exec_readDate {text : String} {w w' : World FeeStore String} {day : LocalDay}
    (h : exec (readDate text) w = (.ok day, w')) : day.Real ∧ w' = w := by
  unfold readDate at h
  cases hparse : parseLocalDay text with
  | none =>
    rw [hparse] at h
    cases h
  | some parsed =>
    rw [hparse] at h
    obtain ⟨hday, hw⟩ := Prod.mk.inj h
    obtain rfl := Except.ok.inj hday
    exact ⟨real_of_parseLocalDay hparse, hw.symm⟩

theorem exec_readPeriod {periodFrom periodTo : String} {w w' : World FeeStore String}
    {period : LocalDay × LocalDay} (h : exec (readPeriod periodFrom periodTo) w = (.ok period, w')) :
    (period.1.Real ∧ isWholeMonths period.1 period.2 = true) ∧ w' = w := by
  unfold readPeriod at h
  obtain ⟨start, w₁, hstart, h₁⟩ := exec_bind_ok.mp h
  obtain ⟨hreal, rfl⟩ := exec_readDate hstart
  obtain ⟨last, w₂, hlast, h₂⟩ := exec_bind_ok.mp h₁
  obtain ⟨-, rfl⟩ := exec_readDate hlast
  obtain ⟨_, w₃, hrefuse, h₃⟩ := exec_bind_ok.mp h₂
  obtain ⟨hwhole, rfl⟩ := (exec_refuseIf _).mp hrefuse
  obtain ⟨hperiod, hw⟩ := Prod.mk.inj h₃
  obtain rfl := Except.ok.inj hperiod
  exact ⟨⟨hreal, Bool.eq_true_of_not_eq_false hwhole⟩, hw.symm⟩

theorem exec_refuseClash {first last : LocalDay} {w w' : World FeeStore String} {u : Unit}
    (h : exec (refuseClash first last) w = (.ok u, w')) :
    (∀ run ∈ w.working.notifications,
      ¬ (run.periodFrom.number ≤ last.number ∧ first.number ≤ run.periodTo.number)) ∧ w' = w := by
  unfold refuseClash at h
  obtain ⟨s, w₁, hread, h⟩ := exec_bind_ok.mp h
  obtain ⟨hs, rfl⟩ := Prod.mk.inj hread
  obtain rfl := Except.ok.inj hs
  cases hfind : w.working.notifications.find? fun run =>
      run.periodFrom.number ≤ last.number ∧ first.number ≤ run.periodTo.number with
  | none =>
    rw [hfind] at h
    refine ⟨fun run hrun hclash => ?_, (Prod.mk.inj h).2.symm⟩
    exact List.find?_eq_none.mp hfind run hrun (decide_eq_true hclash)
  | some clash =>
    rw [hfind] at h
    dsimp only at h
    split_ifs at h
    · cases h
    · cases h

theorem exec_insertRun {run : FeeNotification} {notices : List FeeNotice}
    {w w' : World FeeStore String} {u : Unit} (h : exec (insertRun run notices) w = (.ok u, w')) :
    w' = { w with working := { w.working with
      notifications := w.working.notifications ++ [run]
      notices := w.working.notices ++ notices } } := by
  unfold insertRun at h
  obtain ⟨_, w₁, hlock, h₁⟩ := exec_bind_ok.mp h
  obtain ⟨-, rfl⟩ := Prod.mk.inj hlock
  obtain ⟨s, w₂, hread, h₂⟩ := exec_bind_ok.mp h₁
  obtain ⟨hs, rfl⟩ := Prod.mk.inj hread
  obtain ⟨_, w₃, hrefuse, h₃⟩ := exec_bind_ok.mp h₂
  obtain ⟨-, rfl⟩ := (exec_refuseIf _).mp hrefuse
  obtain ⟨s', w₄, hread, h₄⟩ := exec_bind_ok.mp h₃
  obtain ⟨hs, rfl⟩ := Prod.mk.inj hread
  obtain ⟨_, w₅, hrefuse, h₅⟩ := exec_bind_ok.mp h₄
  obtain ⟨-, rfl⟩ := (exec_refuseIf _).mp hrefuse
  exact (Prod.mk.inj h₅).2.symm

/-- **An issue that succeeds** hands out a run of its own, and writes nothing else. -/
theorem exec_issue {input : IssueNotificationInput} {w w' : World FeeStore String}
    {summary : FeeNotificationSummary}
    (h : exec (issue registerOrder zone input) w = (.ok summary, w')) :
    ∃ run notices, Issued registerOrder ⟨w.working, run, notices⟩ ∧ run.issuedAt = w.clock ∧
      w'.committed = { w.working with
        notifications := w.working.notifications ++ [run]
        notices := w.working.notices ++ notices } := by
  unfold issue at h
  obtain ⟨period, w₁, hperiod, h₁⟩ := exec_bind_ok.mp h
  obtain ⟨⟨hreal, hwhole⟩, rfl⟩ := exec_readPeriod hperiod
  obtain ⟨dueOn, w₂, hdue, h₂⟩ := exec_bind_ok.mp h₁
  obtain ⟨-, rfl⟩ := exec_readDate hdue
  obtain ⟨_, w₃, hrefuse, h₃⟩ := exec_bind_ok.mp h₂
  obtain ⟨-, rfl⟩ := (exec_refuseIf _).mp hrefuse
  obtain ⟨_, w₄, hrefuse, h₄⟩ := exec_bind_ok.mp h₃
  obtain ⟨hshort, rfl⟩ := (exec_refuseIf _).mp hrefuse
  obtain ⟨w₅, h₅, rfl⟩ := exec_transaction_ok.mp h₄
  unfold lockFeeNotifications financialYearStartMonthInForce lockedNow at h₅
  obtain ⟨_, w₆, hlock, h₆⟩ := exec_bind_ok.mp h₅
  obtain ⟨-, rfl⟩ := Prod.mk.inj hlock
  obtain ⟨startMonth, w₇, hmonth, h₇⟩ := exec_bind_ok.mp h₆
  obtain ⟨-, rfl⟩ := Prod.mk.inj hmonth
  obtain ⟨now, w₈, hclock, h₈⟩ := exec_bind_ok.mp h₇
  obtain ⟨-, rfl⟩ := Prod.mk.inj hclock
  obtain ⟨_, w₉, hrefuse, h₉⟩ := exec_bind_ok.mp h₈
  obtain ⟨-, rfl⟩ := (exec_refuseIf _).mp hrefuse
  obtain ⟨_, w₁₀, hclash, h₁₀⟩ := exec_bind_ok.mp h₉
  obtain ⟨hapart, rfl⟩ := exec_refuseClash hclash
  obtain ⟨s, w₁₁, hread, h₁₁⟩ := exec_bind_ok.mp h₁₀
  obtain ⟨hs, rfl⟩ := Prod.mk.inj hread
  obtain rfl := Except.ok.inj hs
  obtain ⟨_, w₁₂, hrefuse, h₁₂⟩ := exec_bind_ok.mp h₁₁
  obtain ⟨hunused, rfl⟩ := (exec_refuseIf _).mp hrefuse
  obtain ⟨s, w₁₃, hread, h₁₃⟩ := exec_bind_ok.mp h₁₂
  obtain ⟨hs, rfl⟩ := Prod.mk.inj hread
  obtain rfl := Except.ok.inj hs
  obtain ⟨_, w₁₄, hrefuse, h₁₄⟩ := exec_bind_ok.mp h₁₃
  obtain ⟨hsome, rfl⟩ := (exec_refuseIf _).mp hrefuse
  obtain ⟨_, w₁₅, hrefuse, h₁₅⟩ := exec_bind_ok.mp h₁₄
  obtain ⟨hfew, rfl⟩ := (exec_refuseIf _).mp hrefuse
  obtain ⟨_, w₁₆, hrefuse, h₁₆⟩ := exec_bind_ok.mp h₁₅
  obtain ⟨-, rfl⟩ := (exec_refuseIf _).mp hrefuse
  obtain ⟨issuedAt, w₁₇, hclock, h₁₇⟩ := exec_bind_ok.mp h₁₆
  obtain ⟨hissuedAt, rfl⟩ := Prod.mk.inj hclock
  obtain ⟨id, w₁₈, hdraw, h₁₈⟩ := exec_bind_ok.mp h₁₇
  obtain ⟨-, rfl⟩ := Prod.mk.inj hdraw
  obtain ⟨_, w₁₉, hinsert, h₁₉⟩ := exec_bind_ok.mp h₁₈
  have hwritten := exec_insertRun hinsert
  obtain ⟨-, rfl⟩ := Prod.mk.inj h₁₉
  rw [hwritten]
  refine ⟨⟨id, period.1, period.2, dueOn, startMonth, issuedAt⟩,
    noticesOf id period.1 (amountPerApartment registerOrder w₁₆.working
      (monthsIn period.1 period.2)), ⟨⟨hreal, hwhole, Nat.le_of_not_lt hshort⟩, hapart, ?_, rfl,
        hsome, Nat.le_of_not_lt hfew⟩, (Except.ok.inj hissuedAt).symm, rfl⟩
  exact fun notice hnotice hprefix => hunused ⟨notice, hnotice, hprefix⟩

/-- What is called besides the issue of a run. -/
inductive OtherCall (zone : Zone) : FeeTx Unit → Prop
  | record (input : RecordFeeInput) : OtherCall zone (do let _ ← record input)
  | remove (feeId : String) : OtherCall zone (remove feeId)
  | purge : OtherCall zone (purge zone)
  | updateFinances (financialYearStartMonth : Int) :
      OtherCall zone (updateFinances financialYearStartMonth)

/-- Calls one after the other from `t₀` on, the clock advancing, and the runs handed out. -/
inductive History (registerOrder : FeeStore → Fee → Fee → Bool) (zone : Zone) (t₀ : Int) :
    Int → FeeStore → List Issue → Prop
  | start {s : FeeStore} : s.notifications = [] → s.notices = [] →
      History registerOrder zone t₀ t₀ s []
  /-- The clock, the register, the holds and the settings change. -/
  | beside {t t' : Int} {s s' : FeeStore} {handed : List Issue} :
      History registerOrder zone t₀ t s handed → t ≤ t' → SameBilling s s' →
      History registerOrder zone t₀ t' s' handed
  | call {t : Int} {s s' : FeeStore} {handed : List Issue} {p : FeeTx Unit} {draws : ℕ → String}
      {answer : Except FeeFailure Unit} : History registerOrder zone t₀ t s handed →
      OtherCall zone p → Txn.call p t draws s = (answer, s') →
      History registerOrder zone t₀ t s' handed
  | issue {t : Int} {s s' : FeeStore} {handed : List Issue} {input : IssueNotificationInput}
      {draws : ℕ → String} {summary : FeeNotificationSummary} {run : FeeNotification}
      {notices : List FeeNotice} : History registerOrder zone t₀ t s handed →
      Txn.call (issue registerOrder zone input) t draws s = (.ok summary, s') →
      s'.notifications = s.notifications ++ [run] → s'.notices = s.notices ++ notices →
      History registerOrder zone t₀ t s' (handed ++ [⟨s, run, notices⟩])

/-- What an issue that succeeded handed out is what it added. -/
theorem issued_of_call {input : IssueNotificationInput} {draws : ℕ → String}
    {summary : FeeNotificationSummary} {run : FeeNotification} {notices : List FeeNotice}
    (hcall : call (issue registerOrder zone input) t draws s = (.ok summary, s'))
    (hrun : s'.notifications = s.notifications ++ [run])
    (hnotices : s'.notices = s.notices ++ notices) :
    Issued registerOrder ⟨s, run, notices⟩ ∧ run.issuedAt = t := by
  obtain ⟨hanswer, hstore⟩ := Prod.mk.inj hcall
  obtain ⟨run', notices', hissued, hissuedAt, hcommitted⟩ := exec_issue (Prod.ext hanswer rfl)
  rw [hcommitted] at hstore
  rw [← hstore] at hrun hnotices
  obtain rfl := List.singleton_inj.mp (List.append_cancel_left hrun)
  obtain rfl := List.append_cancel_left hnotices
  exact ⟨hissued, hissuedAt⟩

theorem History.issued {t₀ : Int} {handed : List Issue}
    (h : History registerOrder zone t₀ t s handed) : ∀ issue ∈ handed, Issued registerOrder issue := by
  induction h with
  | start _ _ => exact fun issue hissue => absurd hissue List.not_mem_nil
  | beside _ _ _ ih => exact ih
  | call _ _ _ ih => exact ih
  | issue _ hcall hrun hnotices ih =>
    intro issue hissue
    rcases List.mem_append.mp hissue with hold | hnew
    · exact ih issue hold
    · rw [List.mem_singleton.mp hnew]
      exact (issued_of_call hcall hrun hnotices).1

/-! ### What the purge erased -/

/-- A run that a purge may have erased by a time. -/
def Past (zone : Zone) (t : Int) (run : FeeNotification) : Prop := ∃ now ≤ t, runFallenOut zone now run

/-- Every run handed out is on file or past. -/
def OnFileOrPast (zone : Zone) (t : Int) (handed : List Issue) (s : FeeStore) : Prop :=
  ∀ h ∈ handed, h.run ∈ s.notifications ∨ Past zone t h.run

/-- A write that takes away no run that is not past. -/
def KeepsRuns (zone : Zone) (t : Int) (f : FeeStore → FeeStore) : Prop :=
  ∀ s, ∀ run ∈ s.notifications, run ∈ (f s).notifications ∨ Past zone t run

theorem keepsRuns_of_eq {f : FeeStore → FeeStore} (h : ∀ s, (f s).notifications = s.notifications) :
    KeepsRuns zone t f := by
  intro s run hrun
  rw [h]
  exact .inl hrun

section Keeps

variable {handed : List Issue} {α β : Type}

theorem keeps_of_within {p : FeeTx α} (hp : Within (KeepsRuns zone t) p) :
    Keeps (OnFileOrPast zone t handed) p := by
  refine .of_within (fun f hf s hs h hh => ?_) hp
  rcases hs h hh with hfile | hpast
  · exact hf s h.run hfile
  · exact .inr hpast

theorem within_readDate (P : (FeeStore → FeeStore) → Prop) (text : String) :
    Within P (readDate text) := by
  unfold readDate
  split
  · exact .fail _
  · exact .pure _

theorem within_readAmount (P : (FeeStore → FeeStore) → Prop) (amount : String) :
    Within P (readAmount amount) := by
  unfold readAmount
  split
  · exact .fail _
  · exact .fail _
  · exact .pure _

theorem within_readVatRate (P : (FeeStore → FeeStore) → Prop) (treatment : FeeVatTreatment)
    (vatRatePercent : Option Int) : Within P (readVatRate treatment vatRatePercent) := by
  unfold readVatRate
  split
  · exact .fail _
  · exact .pure _
  · exact .fail _
  · split_ifs
    · exact .fail _
    · exact .pure _

theorem within_closeStanding {P : (FeeStore → FeeStore) → Prop} {apartmentId : String}
    {kind : FeeKind} {appliesFrom : LocalDay} {startMonth : StartMonth}
    (hP : ∀ id, P (closeFee id appliesFrom startMonth)) :
    Within P (closeStanding apartmentId kind appliesFrom startMonth) := by
  refine .bind .snapshot fun s => ?_
  split
  · exact .pure _
  · exact .bind (.updateRow _ _ (hP _)) fun _ => .refuseIf

theorem keeps_record (input : RecordFeeInput) :
    Keeps (OnFileOrPast zone t handed) (do let _ ← record input) := by
  refine .bind ?_ fun _ => keeps_of_within (.pure _)
  refine .bind (keeps_of_within (within_readDate _ _)) fun _ => ?_
  refine .bind (keeps_of_within (within_readAmount _ _)) fun _ => ?_
  refine .bind (keeps_of_within (within_readVatRate _ _ _)) fun _ => ?_
  refine .bind (keeps_of_within .snapshot) fun _ => ?_
  refine .bind (keeps_of_within .refuseIf) fun _ => ?_
  apply Keeps.transaction
  apply keeps_of_within
  refine .bind (.acquire _ _) fun _ => .bind (.acquire _ _) fun _ => ?_
  refine .bind .snapshot fun _ => .bind .refuseIf fun _ => ?_
  refine .bind .snapshot fun _ => .bind .refuseIf fun _ => ?_
  refine .bind .snapshot fun _ => .bind .refuseIf fun _ => ?_
  refine .bind (.bind .snapshot fun _ => .pure _) fun _ => ?_
  refine .bind (within_closeStanding fun _ => keepsRuns_of_eq fun _ => rfl) fun _ => ?_
  refine .bind .readClock fun _ => .bind .fresh fun _ => .bind (.acquire _ _) fun _ => ?_
  refine .bind .snapshot fun _ => .bind .refuseIf fun _ => ?_
  exact .bind (.update (keepsRuns_of_eq fun _ => rfl)) fun _ => .pure _

theorem keeps_remove (feeId : String) : Keeps (OnFileOrPast zone t handed) (remove feeId) := by
  apply Keeps.transaction
  apply keeps_of_within
  refine .bind (.acquire _ _) fun _ => .bind (.bind .snapshot fun _ => ?_) fun _ => ?_
  · split
    · exact .fail _
    · exact .pure _
  · refine .bind .snapshot fun _ => .bind .refuseIf fun _ => ?_
    exact .bind (.updateRow _ _ (keepsRuns_of_eq fun _ => rfl)) fun _ => .refuseIf

theorem keeps_updateFinances (financialYearStartMonth : Int) :
    Keeps (OnFileOrPast zone t handed) (updateFinances financialYearStartMonth) := by
  refine .bind (keeps_of_within .snapshot) fun _ => .bind (keeps_of_within .refuseIf) fun _ => ?_
  split_ifs
  · apply Keeps.transaction
    exact keeps_of_within (.bind (.acquire _ _) fun _ => .update (keepsRuns_of_eq fun _ => rfl))
  · exact keeps_of_within (.fail _)

theorem keeps_purgeApartment (apartmentId : String) (now : Int) :
    Keeps (OnFileOrPast zone t handed) (purgeApartment zone apartmentId now) := by
  apply Keeps.transaction
  apply keeps_of_within
  refine .bind (.acquire _ _) fun _ => .bind .snapshot fun _ => ?_
  refine .bind (.forM (fun _ => .acquire _ _) _) fun _ => .bind .snapshot fun _ => ?_
  unfold onlyIf
  split_ifs
  · exact .bind (.update (keepsRuns_of_eq fun _ => rfl)) fun _ =>
      .update (keepsRuns_of_eq fun _ => rfl)
  · exact .pure _

/-- The runs that are erased are those whose retention has run out. -/
theorem keepsRuns_eraseEmptyRuns {now : Int} (hnow : now ≤ t) :
    KeepsRuns zone t (eraseEmptyRuns zone now) := by
  intro s run hrun
  by_cases hgone : runFallenOut zone now run = true
  · exact .inr ⟨now, hnow, hgone⟩
  · exact .inl (List.mem_filter.mpr ⟨hrun, decide_eq_true fun hout => hgone hout.1⟩)

theorem keeps_forM {f : α → FeeTx Unit} (hf : ∀ a, Keeps (OnFileOrPast zone t handed) (f a)) :
    ∀ l : List α, Keeps (OnFileOrPast zone t handed) (l.forM f)
  | [] => keeps_of_within (.pure ())
  | a :: l => .bind (hf a) fun _ => keeps_forM hf l

/-- A purge at a time erases what is past by then. -/
theorem call_purge {draws : ℕ → String} {answer : Except FeeFailure Unit}
    (hcall : call (purge zone) t draws s = (answer, s')) (hs : OnFileOrPast zone t handed s) :
    OnFileOrPast zone t handed s' := by
  have hkeeps : Keeps (OnFileOrPast zone t handed) (do
      let s ← snapshot
      (eligible zone t s).forM fun apartmentId => purgeApartment zone apartmentId t
      purgeEmptyRuns zone t) := by
    refine .bind (keeps_of_within .snapshot) fun _ => ?_
    refine .bind (keeps_forM (fun _ => keeps_purgeApartment _ _) _) fun _ => ?_
    apply Keeps.transaction
    exact keeps_of_within (.update (keepsRuns_eraseEmptyRuns le_rfl))
  exact hkeeps.call hcall hs

end Keeps

theorem History.onFileOrPast {t₀ : Int} {handed : List Issue}
    (h : History registerOrder zone t₀ t s handed) : OnFileOrPast zone t handed s := by
  induction h with
  | start _ _ => exact fun issue hissue => absurd hissue List.not_mem_nil
  | beside _ hle hsame ih =>
    intro issue hissue
    rw [hsame.notifications]
    refine (ih issue hissue).imp_right ?_
    rintro ⟨now, hnow, hpast⟩
    exact ⟨now, hnow.trans hle, hpast⟩
  | call _ hp hcall ih =>
    cases hp with
    | record input => exact (keeps_record input).call hcall ih
    | remove feeId => exact (keeps_remove feeId).call hcall ih
    | purge => exact call_purge hcall ih
    | updateFinances month => exact (keeps_updateFinances month).call hcall ih
  | issue _ _ hrun _ ih =>
    intro issue hissue
    rw [hrun]
    rcases List.mem_append.mp hissue with hold | hnew
    · exact (ih issue hold).imp_left fun hfile => List.mem_append_left _ hfile
    · rw [List.mem_singleton.mp hnew]
      exact .inl (List.mem_append_right _ List.mem_cons_self)

/-- What was handed out before a run is on file when it is issued, or past by then. -/
theorem History.handedBefore {t₀ : Int} {handed : List Issue}
    (h : History registerOrder zone t₀ t s handed) : ∀ before issue after,
      handed = before ++ issue :: after → OnFileOrPast zone issue.run.issuedAt before issue.store := by
  induction h with
  | start _ _ =>
    intro before issue after heq
    exact absurd heq.symm (List.append_ne_nil_of_right_ne_nil _ (List.cons_ne_nil _ _))
  | beside _ _ _ ih => exact ih
  | call _ _ _ ih => exact ih
  | issue hhistory hcall hrun hnotices ih =>
    intro before issue after heq
    rcases List.eq_nil_or_concat after with rfl | ⟨init, final, rfl⟩
    · obtain ⟨rfl, hsingle⟩ := List.append_inj' heq rfl
      obtain rfl := List.singleton_inj.mp hsingle
      rw [(issued_of_call hcall hrun hnotices).2]
      exact hhistory.onFileOrPast
    · rw [List.concat_eq_append, ← List.cons_append, ← List.append_assoc] at heq
      obtain ⟨heq, -⟩ := List.append_inj' heq rfl
      exact ih before issue init heq

/-- Months of one century that are written alike are one month. -/
theorem monthIndex_of_openingOf {first first' : LocalDay} (h : first.Real) (h' : first'.Real)
    (hcentury : first.year < first'.year + 100 ∧ first'.year < first.year + 100)
    (heq : openingOf first = openingOf first') : first.monthIndex = first'.monthIndex := by
  unfold openingOf at heq
  have hlength : (padStart 2 (first.year % 100).toNat).length =
      (padStart 2 (first'.year % 100).toNat).length := rfl
  obtain ⟨hyear, hmonth⟩ := List.append_inj heq hlength
  have hbound := h.1
  have hbound' := h'.1
  have hyear := padStart_inj (by omega) (by omega) hyear
  have hmonth := padStart_inj (by omega) (by omega) hmonth
  unfold LocalDay.monthIndex
  omega

/-- **Periods that begin after what is past.**  Where every run that was past when a later one was
issued ends before its period, and all of them begin within a century, what was handed out is told
apart. -/
theorem clean_of_laterPeriods {t₀ : Int} {handed : List Issue}
    (h : History registerOrder zone t₀ t s handed)
    (hlater : ∀ before issue after, handed = before ++ issue :: after → ∀ old ∈ before,
      (Past zone issue.run.issuedAt old.run →
        old.run.periodTo.number < issue.run.periodFrom.number) ∧
      old.run.periodFrom.year < issue.run.periodFrom.year + 100 ∧
      issue.run.periodFrom.year < old.run.periodFrom.year + 100) : Clean handed := by
  refine (clean_iff h.issued).mpr fun before issue after heq old hold => ?_
  obtain ⟨hpast, hcentury⟩ := hlater before issue after heq old hold
  have hissue := h.issued issue (heq ▸ List.mem_append_right _ List.mem_cons_self)
  have hissued := h.issued old (heq ▸ List.mem_append_left _ hold)
  -- on file the run is beside the period, and past it is before it
  have hdisjoint : ¬ (old.run.periodFrom.number ≤ issue.run.periodTo.number ∧
      issue.run.periodFrom.number ≤ old.run.periodTo.number) := by
    rcases h.handedBefore before issue after heq old hold with hfile | hgone
    · exact hissue.apart old.run hfile
    · have := hpast hgone
      omega
  refine ⟨fun _ hopening => ?_, fun _ _ _ _ month hmonth hmonth' => ?_⟩
  · have hmonth := monthIndex_of_openingOf hissued.period.real hissue.period.real hcentury hopening
    have hfirst := hissued.period.number_first
    have hfirst' := hissue.period.number_first
    rw [hmonth] at hfirst
    have hle := hissued.period.first_le
    have hle' := hissue.period.first_le
    exact hdisjoint ⟨by omega, by omega⟩
  · have hin := hissued.month_in hmonth
    have hin' := hissue.month_in hmonth'
    exact hdisjoint ⟨by omega, by omega⟩

/-- **Every history.**  No reference is handed out twice and no month of an apartment is billed by
two runs exactly when every issue met its condition on the runs handed out before it.  The runs
that are not on file any more are past. -/
theorem clean_of_history (registerOrder : FeeStore → Fee → Fee → Bool) (zone : Zone)
    {t₀ t : Int} {s : FeeStore} {handed : List Issue}
    (h : History registerOrder zone t₀ t s handed) :
    (Clean handed ↔ ∀ before issue after, handed = before ++ issue :: after → issue.Met before) ∧
      OnFileOrPast zone t handed s :=
  ⟨clean_iff h.issued, h.onFileOrPast⟩

/-! ### A period that begins before what is kept -/

section Straddle

/-- A house with a fee from the middle of January 2026. -/
def feeHouse : FeeStore where
  apartmentIds := ["1001"]
  fees := [⟨"rate", "1001", .ANNUAL_FEE, ⟨2026, 1, 15⟩, none, CALENDAR_YEAR_START_MONTH, 350000,
    .EXEMPT, none, 0⟩]

/-- Noon on 15 November 2026 and, the retention of that year over, on 1 June 2034. -/
def november2026 : Int := 1794744000000

def june2034 : Int := 2032776000000

/-- December 2026, and that month with the next. -/
def december : IssueNotificationInput := ⟨"2026-12-01", "2026-12-31", "2026-12-31"⟩

def decemberAndJanuary : IssueNotificationInput := ⟨"2026-12-01", "2027-01-31", "2026-12-31"⟩

def anyOrder (_ : FeeStore) (_ _ : Fee) : Bool := true

def decemberIssue : Issue where
  store := feeHouse
  run := ⟨"first", ⟨2026, 12, 1⟩, ⟨2026, 12, 31⟩, ⟨2026, 12, 31⟩, CALENDAR_YEAR_START_MONTH,
    november2026⟩
  notices := [⟨"first", "1001", 350000, "261200018"⟩]

def issued : FeeStore :=
  { feeHouse with notifications := [decemberIssue.run], notices := decemberIssue.notices }

def straddlingIssue : Issue where
  store := feeHouse
  run := ⟨"second", ⟨2026, 12, 1⟩, ⟨2027, 1, 31⟩, ⟨2026, 12, 31⟩, CALENDAR_YEAR_START_MONTH,
    june2034⟩
  notices := [⟨"second", "1001", 700000, "261200018"⟩]

def issuedAgain : FeeStore :=
  { feeHouse with notifications := [straddlingIssue.run], notices := straddlingIssue.notices }

theorem call_december : call (issue anyOrder utc december) november2026 (fun _ => "first") feeHouse =
    (.ok ⟨"first", ⟨2026, 12, 1⟩, ⟨2026, 12, 31⟩, ⟨2026, 12, 31⟩, ⟨2026, 11, 15⟩, november2026, 1,
      350000⟩, issued) := by
  decide +kernel

theorem call_purge_issued :
    call (purge utc) june2034 (fun _ => "") issued = (.ok (), feeHouse) := by
  decide +kernel

theorem call_decemberAndJanuary :
    call (issue anyOrder utc decemberAndJanuary) june2034 (fun _ => "second") feeHouse =
      (.ok ⟨"second", ⟨2026, 12, 1⟩, ⟨2027, 1, 31⟩, ⟨2026, 12, 31⟩, ⟨2034, 6, 1⟩, june2034, 1,
        700000⟩, issuedAgain) := by
  decide +kernel

theorem history_december : History anyOrder utc november2026 november2026 issued [decemberIssue] :=
  .issue (.start rfl rfl) call_december rfl rfl

/-- December 2026 is issued, erased, and issued again with the month after it. -/
theorem history_straddle : History anyOrder utc november2026 june2034 issuedAgain
    [decemberIssue, straddlingIssue] :=
  .issue (.call (.beside history_december (by decide) ⟨rfl, rfl, rfl⟩) .purge call_purge_issued)
    call_decemberAndJanuary rfl rfl

theorem straddle_not_clean : ¬ ∀ (registerOrder : FeeStore → Fee → Fee → Bool) (zone : Zone)
    (t₀ t : Int) (s : FeeStore) (handed : List Issue),
    History registerOrder zone t₀ t s handed → t - t₀ < 100 * 365 * MILLISECONDS_PER_DAY →
      Clean handed := by
  intro h
  have hclean := h anyOrder utc november2026 june2034 issuedAgain _ history_straddle (by decide)
  revert hclean
  unfold Clean
  exact fun hclean => absurd hclean.1 (by decide +kernel)

/-- January 2027, which is issued beside December, and July 2034. -/
def januaryIssue : Issue where
  store := issued
  run := ⟨"second", ⟨2027, 1, 1⟩, ⟨2027, 1, 31⟩, ⟨2027, 1, 31⟩, CALENDAR_YEAR_START_MONTH,
    november2026⟩
  notices := [⟨"second", "1001", 350000, "270100019"⟩]

def issuedBoth : FeeStore :=
  { feeHouse with
    notifications := [decemberIssue.run, januaryIssue.run]
    notices := decemberIssue.notices ++ januaryIssue.notices }

/-- December is erased, and January kept. -/
def keptJanuary : FeeStore :=
  { feeHouse with notifications := [januaryIssue.run], notices := januaryIssue.notices }

def julyIssue : Issue where
  store := keptJanuary
  run := ⟨"third", ⟨2034, 7, 1⟩, ⟨2034, 7, 31⟩, ⟨2034, 7, 31⟩, CALENDAR_YEAR_START_MONTH, june2034⟩
  notices := [⟨"third", "1001", 350000, "340700012"⟩]

def issuedJuly : FeeStore :=
  { feeHouse with
    notifications := [januaryIssue.run, julyIssue.run]
    notices := januaryIssue.notices ++ julyIssue.notices }

theorem calls_threeMonths :
    call (issue anyOrder utc ⟨"2027-01-01", "2027-01-31", "2027-01-31"⟩) november2026
        (fun _ => "second") issued = (.ok ⟨"second", ⟨2027, 1, 1⟩, ⟨2027, 1, 31⟩, ⟨2027, 1, 31⟩,
          ⟨2026, 11, 15⟩, november2026, 1, 350000⟩, issuedBoth) ∧
      call (purge utc) june2034 (fun _ => "") issuedBoth = (.ok (), keptJanuary) ∧
      call (issue anyOrder utc ⟨"2034-07-01", "2034-07-31", "2034-07-31"⟩) june2034
        (fun _ => "third") keptJanuary = (.ok ⟨"third", ⟨2034, 7, 1⟩, ⟨2034, 7, 31⟩, ⟨2034, 7, 31⟩,
          ⟨2034, 6, 1⟩, june2034, 1, 350000⟩, issuedJuly) := by
  decide +kernel

theorem history_threeMonths : History anyOrder utc november2026 june2034 issuedJuly
    [decemberIssue, januaryIssue, julyIssue] :=
  .issue (.call (.beside (.issue history_december calls_threeMonths.1 rfl rfl) (by decide)
    ⟨rfl, rfl, rfl⟩) .purge calls_threeMonths.2.1) calls_threeMonths.2.2 rfl rfl

/-- Three months are told apart, the first of them erased when the last is issued. -/
theorem clean_of_threeMonths : Clean [decemberIssue, januaryIssue, julyIssue] ∧
    OnFileOrPast utc june2034 [decemberIssue, januaryIssue, julyIssue] issuedJuly ∧
    decemberIssue.run ∉ issuedJuly.notifications := by
  obtain ⟨hiff, hfile⟩ := clean_of_history anyOrder utc history_threeMonths
  refine ⟨hiff.mpr fun before issue after heq => ?_, hfile, by decide⟩
  rcases before with _ | ⟨first, _ | ⟨second, _ | ⟨third, rest⟩⟩⟩
  · exact fun h hh => absurd hh List.not_mem_nil
  · obtain ⟨rfl, rfl, -⟩ : decemberIssue = first ∧ januaryIssue = issue ∧ _ := by
      simpa only [List.cons_append, List.nil_append, List.cons.injEq] using heq
    refine List.forall_mem_singleton.mpr ⟨fun _ => by decide, fun hgone => absurd ?_ hgone⟩
    exact List.mem_singleton_self _
  · obtain ⟨rfl, rfl, rfl, -⟩ :
        decemberIssue = first ∧ januaryIssue = second ∧ julyIssue = issue ∧ _ := by
      simpa only [List.cons_append, List.nil_append, List.cons.injEq] using heq
    have hmonths : (∀ month ∈ decemberIssue.months, month ∉ julyIssue.months) ∧
        ∀ month ∈ januaryIssue.months, month ∉ julyIssue.months := by decide +kernel
    exact List.forall_mem_cons.mpr ⟨⟨fun _ => by decide, fun _ _ _ _ => hmonths.1⟩,
      List.forall_mem_singleton.mpr ⟨fun _ => by decide, fun _ _ _ _ => hmonths.2⟩⟩
  · have hlength := congrArg List.length heq
    simp at hlength

end Straddle

end OpenBrf.Fees
