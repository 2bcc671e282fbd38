import Mathlib.Data.List.Nodup
import Mathlib.Data.List.Pairwise
import OpenBrf.Fees.Service

/-!
# Fees.Billing — what a run's months and the rates on file give

The rates of an apartment and a kind keep out of each other's windows, and what was billed is what
they still give.
-/

namespace OpenBrf.Fees

open Lang Shared

/-! ### Amounts -/

/-- What an apartment is charged for a month by the rates in force on its first day. -/
def chargedOn (fees : List Fee) (apartmentId : String) (month : LocalDay) : ℕ :=
  ((fees.filter fun fee => fee.apartmentId = apartmentId ∧ inForceOn month fee).map
    (·.monthlyAmount)).sum

/-- What an apartment is charged for the months of a period. -/
def owed (fees : List Fee) (apartmentId : String) (months : List LocalDay) : ℕ :=
  (months.map (chargedOn fees apartmentId)).sum

/-- Two finite sums may be taken in either order. -/
theorem sum_comm {α β : Type} (f : α → β → ℕ) (l' : List β) : ∀ l : List α,
    (l.map fun a => (l'.map (f a)).sum).sum = (l'.map fun b => (l.map fun a => f a b).sum).sum
  | [] => by simp
  | a :: l => by
    simp only [List.map_cons, List.sum_cons, sum_comm f l' l]
    induction l' with
    | nil => rfl
    | cons b l' ih =>
      simp only [List.map_cons, List.sum_cons]
      omega

/-- What is left out of a sum counts as nothing. -/
theorem sum_filter {α : Type} (p : α → Bool) (f : α → ℕ) : ∀ l : List α,
    ((l.filter p).map f).sum = (l.map fun a => if p a then f a else 0).sum
  | [] => rfl
  | a :: l => by
    have ih := sum_filter p f l
    by_cases h : p a
    · rw [List.filter_cons_of_pos h]
      simp only [List.map_cons, List.sum_cons, if_pos h, ih]
    · rw [List.filter_cons_of_neg h]
      simp only [List.map_cons, List.sum_cons, if_neg h, ih, Nat.zero_add]

/-- A rate by the month is its amount as often as it is in force. -/
theorem sum_months (amount : ℕ) (p : LocalDay → Bool) (months : List LocalDay) :
    (months.map fun month => if p month then amount else 0).sum =
      amountForMonths amount (months.filter p).length := by
  rw [← sum_filter, List.map_const', List.sum_replicate]
  exact Nat.mul_comm _ _

/-- What an apartment owes, rate by rate. -/
theorem owed_eq (fees : List Fee) (apartmentId : String) (months : List LocalDay) :
    owed fees apartmentId months = ((fees.filter fun fee => fee.apartmentId = apartmentId).map
      fun fee => amountForMonths fee.monthlyAmount
        (months.filter fun month => inForceOn month fee).length).sum := by
  have hmonth : ∀ month, chargedOn fees apartmentId month =
      ((fees.filter fun fee => fee.apartmentId = apartmentId).map
        fun fee => if inForceOn month fee then fee.monthlyAmount else 0).sum := by
    intro month
    unfold chargedOn
    rw [← sum_filter, List.filter_filter]
    congr 2
    refine List.filter_congr fun fee _ => ?_
    rw [Bool.decide_and, Bool.decide_eq_true, Bool.and_comm]
  unfold owed
  rw [List.map_congr_left fun month _ => hmonth month, sum_comm]
  congr 1
  exact List.map_congr_left fun fee _ => sum_months _ _ _

section Amounts

variable {registerOrder : FeeStore → Fee → Fee → Bool} {s : FeeStore} {months : List LocalDay}

/-- A rate in force on a month of a period touches it. -/
theorem touches_of_inForce {first last : LocalDay} {fee : Fee}
    (hperiod : ∀ month ∈ months, first.number ≤ month.number ∧ month.number ≤ last.number)
    {month : LocalDay} (hmonth : month ∈ months) (h : inForceOn month fee) :
    (fee.appliesFrom.number ≤ last.number &&
      fee.appliesUntil.all fun ended => first.number ≤ ended.number) = true := by
  have hin := hperiod month hmonth
  unfold inForceOn at h
  rw [Bool.and_eq_true, decide_eq_true_eq] at h ⊢
  refine ⟨h.1.trans hin.2, ?_⟩
  cases huntil : fee.appliesUntil with
  | none => rfl
  | some ended =>
    have hended := h.2
    rw [huntil] at hended
    exact decide_eq_true (hin.1.trans (of_decide_eq_true hended))

/-- The months of a period lie from the first to the last. -/
theorem between_of_pairwise {first last : LocalDay}
    (hpairwise : months.Pairwise fun a b => a.number < b.number)
    (hfirst : months.head? = some first) (hlast : months.getLast? = some last) :
    ∀ month ∈ months, first.number ≤ month.number ∧ month.number ≤ last.number := by
  intro month hmonth
  constructor
  · obtain ⟨rest, rfl⟩ := List.head?_eq_some_iff.mp hfirst
    rcases List.mem_cons.mp hmonth with rfl | hlater
    · exact le_rfl
    · exact ((List.pairwise_cons.mp hpairwise).1 month hlater).le
  · obtain ⟨before, rfl⟩ := List.getLast?_eq_some_iff.mp hlast
    rcases List.mem_append.mp hmonth with hearlier | hmonth
    · exact ((List.pairwise_append.mp hpairwise).2.2 month hearlier last List.mem_cons_self).le
    · rw [List.mem_singleton.mp hmonth]

/-- What the rates found for an apartment come to. -/
theorem sum_billedFor (apartmentId : String) : ∀ rates : List Fee,
    (((rates.filterMap (billedFor months)).filter fun pair => pair.1 = apartmentId).map (·.2)).sum =
      ((rates.filter fun fee => fee.apartmentId = apartmentId).map fun fee =>
        amountForMonths fee.monthlyAmount (months.filter fun month => inForceOn month fee).length).sum
  | [] => rfl
  | fee :: rates => by
    have ih := sum_billedFor apartmentId rates
    rw [List.filterMap_cons]
    by_cases hzero : (months.filter fun month => inForceOn month fee).length = 0
    · have hnone : billedFor months fee = none := if_pos hzero
      rw [hnone]
      by_cases h : fee.apartmentId = apartmentId
      · rw [List.filter_cons_of_pos (by simpa using h), List.map_cons, List.sum_cons, hzero, ih]
        show _ = fee.monthlyAmount * 0 + _
        rw [Nat.mul_zero, Nat.zero_add]
      · rw [List.filter_cons_of_neg (by simpa using h), ih]
    · have hsome : billedFor months fee = some (fee.apartmentId, amountForMonths fee.monthlyAmount
          (months.filter fun month => inForceOn month fee).length) := if_neg hzero
      rw [hsome]
      by_cases h : fee.apartmentId = apartmentId
      · rw [List.filter_cons_of_pos (by simpa using h), List.filter_cons_of_pos (by simpa using h),
          List.map_cons, List.sum_cons, List.map_cons, List.sum_cons, ih]
      · rw [List.filter_cons_of_neg (by simpa using h), List.filter_cons_of_neg (by simpa using h),
          ih]

/-- The rates of an apartment that touch a period bill what all of them do. -/
theorem sum_ratesTouching {first last : LocalDay} (apartmentId : String)
    (hperiod : ∀ month ∈ months, first.number ≤ month.number ∧ month.number ≤ last.number) :
    (((ratesTouching registerOrder s first last).filter
      fun fee => fee.apartmentId = apartmentId).map fun fee =>
        amountForMonths fee.monthlyAmount
          (months.filter fun month => inForceOn month fee).length).sum =
      owed s.fees apartmentId months := by
  have hperm := List.mergeSort_perm (s.fees.filter fun fee => fee.appliesFrom.number ≤ last.number &&
    fee.appliesUntil.all fun ended => first.number ≤ ended.number) (registerOrder s)
  unfold ratesTouching
  rw [((hperm.filter _).map _).sum_eq, owed_eq, List.filter_filter, sum_filter, sum_filter]
  congr 1
  refine List.map_congr_left fun fee _ => ?_
  by_cases hzero : (months.filter fun month => inForceOn month fee).length = 0
  · rw [hzero]
    show (if _ then fee.monthlyAmount * 0 else 0) = if _ then fee.monthlyAmount * 0 else 0
    rw [Nat.mul_zero, ite_self, ite_self]
  · obtain ⟨month, hmonth⟩ := List.exists_mem_of_length_pos (Nat.pos_of_ne_zero hzero)
    obtain ⟨hmem, hforce⟩ := List.mem_filter.mp hmonth
    rw [touches_of_inForce hperiod hmem hforce, Bool.and_true]

/-- The keys of what each apartment owes differ. -/
theorem nodup_foldl_pushKey : ∀ (pairs : List (String × ℕ)) (entries : List (String × List ℕ)),
    (entries.map (·.1)).Nodup →
      ((pairs.foldl (fun entries pair => pushKey pair.1 pair.2 entries) entries).map (·.1)).Nodup
  | [], _, h => h
  | _ :: pairs, _, h => nodup_foldl_pushKey pairs _ (nodup_keys_setKey h)

/-- **Amounts.**  An apartment is billed what the rates in force on its months give. -/
theorem amount_eq_owed {apartmentId : String} {amount : ℕ}
    (hpairwise : months.Pairwise fun a b => a.number < b.number)
    (h : (apartmentId, amount) ∈ amountPerApartment registerOrder s months) :
    amount = owed s.fees apartmentId months := by
  unfold amountPerApartment at h
  split at h
  · rename_i first last hfirst hlast
    have hperiod := between_of_pairwise hpairwise hfirst hlast
    obtain ⟨entry, hentry, heq⟩ := List.mem_map.mp h
    obtain ⟨rfl, rfl⟩ := Prod.mk.inj heq
    have hkey := (mem_iff_getKey (nodup_foldl_pushKey _ [] List.nodup_nil)).mp hentry
    have hget := getKey_foldl_pushKey entry.1
      ((ratesTouching registerOrder s first last).filterMap (billedFor months)) []
    rw [hkey] at hget
    show entry.2.sum = _
    have hlist : entry.2 = _ := hget
    rw [hlist, ← @sum_ratesTouching registerOrder s months first last entry.1 hperiod,
      ← sum_billedFor]
    rfl
  · cases h

theorem mem_keys_foldl_pushKey {key : String} : ∀ {pairs : List (String × ℕ)}
    {entries : List (String × List ℕ)},
    key ∈ (pairs.foldl (fun entries pair => pushKey pair.1 pair.2 entries) entries).map (·.1) ↔
      key ∈ pairs.map (·.1) ∨ key ∈ entries.map (·.1)
  | [], _ => by
    rw [List.foldl_nil, List.map_nil, List.mem_nil_iff, false_or]
  | pair :: pairs, entries => by
    rw [List.foldl_cons, mem_keys_foldl_pushKey, List.map_cons, List.mem_cons]
    unfold pushKey
    rw [mem_keys_setKey, or_left_comm, or_assoc]

/-- An apartment has a rate in force in a period. -/
def Due (s : FeeStore) (apartmentId : String) (months : List LocalDay) : Prop :=
  ∃ fee ∈ s.fees, fee.apartmentId = apartmentId ∧ ∃ month ∈ months, inForceOn month fee

theorem billedFor_eq_some {fee : Fee} {pair : String × ℕ} (h : billedFor months fee = some pair) :
    pair.1 = fee.apartmentId ∧ ∃ month ∈ months, inForceOn month fee = true := by
  unfold billedFor at h
  dsimp only at h
  split_ifs at h with hzero
  obtain rfl := Option.some.inj h
  obtain ⟨month, hmonth⟩ := List.exists_mem_of_length_pos (Nat.pos_of_ne_zero hzero)
  exact ⟨rfl, month, List.mem_filter.mp hmonth⟩

/-- **Who is billed.**  The apartments with a rate in force on a month of the period. -/
theorem mem_amountPerApartment_iff {apartmentId : String}
    (hpairwise : months.Pairwise fun a b => a.number < b.number) :
    apartmentId ∈ (amountPerApartment registerOrder s months).map (·.1) ↔
      Due s apartmentId months := by
  unfold amountPerApartment
  split
  · rename_i first last hfirst hlast
    rw [List.map_map]
    show _ ∈ List.map (fun entry : String × List ℕ => entry.1) _ ↔ _
    rw [mem_keys_foldl_pushKey, List.map_nil, List.mem_nil_iff, or_false]
    unfold ratesTouching
    constructor
    · intro h
      obtain ⟨pair, hpair, rfl⟩ := List.mem_map.mp h
      obtain ⟨fee, hfee, hbilled⟩ := List.mem_filterMap.mp hpair
      obtain ⟨heq, hmonth⟩ := billedFor_eq_some hbilled
      exact ⟨fee, (List.mem_filter.mp (List.mem_mergeSort.mp hfee)).1, heq.symm, hmonth⟩
    · rintro ⟨fee, hfee, rfl, month, hmonth, hforce⟩
      have htouches := touches_of_inForce (between_of_pairwise hpairwise hfirst hlast) hmonth hforce
      have hcount : (months.filter fun month => inForceOn month fee).length ≠ 0 :=
        (List.length_pos_of_mem (List.mem_filter.mpr ⟨hmonth, hforce⟩)).ne'
      refine List.mem_map.mpr ⟨_, List.mem_filterMap.mpr ⟨fee, ?_, if_neg hcount⟩, rfl⟩
      exact List.mem_mergeSort.mpr (List.mem_filter.mpr ⟨hfee, htouches⟩)
  · rename_i hnone
    constructor
    · intro h
      cases h
    · rintro ⟨-, -, -, month, hmonth, -⟩
      cases months with
      | nil => cases hmonth
      | cons first rest =>
        have hlast := List.getLast?_eq_getLast_of_ne_nil (List.cons_ne_nil first rest)
        exact (hnone first _ List.head?_cons hlast).elim

end Amounts

/-! ### The invariant -/

variable {t : Int} {s s' : FeeStore}

/-- One of two rates ends before the other begins. -/
def Apart (a b : Fee) : Prop :=
  (∃ ended ∈ a.appliesUntil, ended.number < b.appliesFrom.number) ∨
    ∃ ended ∈ b.appliesUntil, ended.number < a.appliesFrom.number

/-- Two rates of different identifiers, apart where they are of one apartment and kind. -/
def RatesApart (a b : Fee) : Prop :=
  a.id ≠ b.id ∧ (a.apartmentId = b.apartmentId → a.kind = b.kind → Apart a b)

/-- A run on file billed a month at a rate. -/
def Billed (s : FeeStore) (fee : Fee) : Prop :=
  ∃ run ∈ s.notifications, bills s run fee.apartmentId ∧
    ∃ month ∈ monthsIn run.periodFrom run.periodTo, inForceOn month fee

/-- A notice bills what the months of a run and the rates on file give. -/
def Settles (s : FeeStore) (notice : FeeNotice) (run : FeeNotification) : Prop :=
  notice.amount = owed s.fees notice.apartmentId (monthsIn run.periodFrom run.periodTo)

/-- The rates, the runs and the notices are as they were. -/
structure SameBilling (s s' : FeeStore) : Prop where
  fees : s'.fees = s.fees
  notifications : s'.notifications = s.notifications
  notices : s'.notices = s.notices

theorem SameBilling.trans {s'' : FeeStore} (h : SameBilling s s') (h' : SameBilling s' s'') :
    SameBilling s s'' :=
  ⟨h'.fees.trans h.fees, h'.notifications.trans h.notifications, h'.notices.trans h.notices⟩

/-- The invariant of the rates, the runs and the notices. -/
structure Billing (t : Int) (s : FeeStore) : Prop where
  apart : s.fees.Pairwise RatesApart
  real : ∀ fee ∈ s.fees, fee.appliesFrom.Real
  nonempty : ∀ fee ∈ s.fees, ∀ ended ∈ fee.appliesUntil, fee.appliesFrom.number ≤ ended.number
  recorded : ∀ fee ∈ s.fees, fee.createdAt ≤ t
  period : ∀ run ∈ s.notifications, WholePeriod run.periodFrom run.periodTo
  owned : ∀ notice ∈ s.notices, ∃ run ∈ s.notifications, run.id = notice.notificationId
  settled : ∀ notice ∈ s.notices, ∀ run ∈ s.notifications, run.id = notice.notificationId →
    Settles s notice run
  /-- A rate that bills a month of a run was on file when the run was issued. -/
  before : ∀ run ∈ s.notifications, ∀ fee ∈ s.fees, bills s run fee.apartmentId →
    ∀ month ∈ monthsIn run.periodFrom run.periodTo, inForceOn month fee →
      fee.createdAt ≤ run.issuedAt

theorem Billing.later {t' : Int} (h : Billing t s) (ht : t ≤ t') : Billing t' s :=
  { h with recorded := fun fee hfee => (h.recorded fee hfee).trans ht }

/-- Rates of one identifier are one. -/
theorem Billing.unique (h : Billing t s) {fee fee' : Fee} (hfee : fee ∈ s.fees)
    (hfee' : fee' ∈ s.fees) (hid : fee.id = fee'.id) : fee = fee' := by
  have hnodup : (s.fees.map (·.id)).Nodup := List.pairwise_map.mpr (h.apart.imp (·.1))
  exact List.inj_on_of_nodup_map hnodup hfee hfee' hid

theorem bills_iff {run : FeeNotification} {apartmentId : String} :
    bills s run apartmentId = true ↔
      ∃ notice ∈ s.notices, notice.notificationId = run.id ∧ notice.apartmentId = apartmentId := by
  unfold bills
  simp only [List.any_eq_true, Bool.and_eq_true, decide_eq_true_eq]

theorem inForceOn_iff {day : LocalDay} {fee : Fee} :
    inForceOn day fee = true ↔ fee.appliesFrom.number ≤ day.number ∧
      ∀ ended ∈ fee.appliesUntil, day.number ≤ ended.number := by
  unfold inForceOn
  simp only [Bool.and_eq_true, decide_eq_true_eq, Option.all_eq_true, Option.mem_def]

/-! ### A rate recorded -/

/-- What closing does to one rate: an open one of the apartment ends before a day. -/
structure ClosedBefore (owner : String) (day : LocalDay) (fee fee' : Fee) : Prop where
  id : fee'.id = fee.id
  apartmentId : fee'.apartmentId = fee.apartmentId
  kind : fee'.kind = fee.kind
  appliesFrom : fee'.appliesFrom = fee.appliesFrom
  monthlyAmount : fee'.monthlyAmount = fee.monthlyAmount
  createdAt : fee'.createdAt = fee.createdAt
  ends : fee'.appliesUntil = fee.appliesUntil ∨
    fee.appliesUntil = none ∧ fee.apartmentId = owner ∧ fee.appliesFrom.number < day.number ∧
      fee'.appliesUntil = some (addLocalDays day (-1))

theorem ClosedBefore.refl (owner : String) (day : LocalDay) (fee : Fee) :
    ClosedBefore owner day fee fee := ⟨rfl, rfl, rfl, rfl, rfl, rfl, .inl rfl⟩

theorem number_addLocalDays (day : LocalDay) (days : Int) :
    (addLocalDays day days).number = day.number + days := LocalDay.number_ofNumber _

/-- A month before the day of the closing is billed as it was. -/
theorem ClosedBefore.inForceOn_eq {owner : String} {day month : LocalDay}
    {fee fee' : Fee} (h : ClosedBefore owner day fee fee')
    (hmonth : fee.apartmentId = owner → month.number < day.number) :
    inForceOn month fee' = inForceOn month fee := by
  rw [Bool.eq_iff_iff, inForceOn_iff, inForceOn_iff, h.appliesFrom]
  rcases h.ends with hsame | ⟨hopen, hapartment, -, hended⟩
  · rw [hsame]
  · have hlt := hmonth hapartment
    rw [hopen, hended]
    refine and_congr_right fun _ => ⟨fun _ ended hmem => (by cases hmem), fun _ ended hmem => ?_⟩
    obtain rfl := Option.some.inj hmem
    rw [number_addLocalDays]
    omega

/-- Rates that are in force where they were charge what they did. -/
theorem chargedOn_map {fees : List Fee} {f : Fee → Fee} {apartmentId : String} {month : LocalDay}
    (hf : ∀ fee ∈ fees, (f fee).apartmentId = fee.apartmentId ∧
      (f fee).monthlyAmount = fee.monthlyAmount)
    (hforce : ∀ fee ∈ fees, fee.apartmentId = apartmentId →
      inForceOn month (f fee) = inForceOn month fee) :
    chargedOn (fees.map f) apartmentId month = chargedOn fees apartmentId month := by
  unfold chargedOn
  rw [List.filter_map, List.map_map]
  have hfilter : fees.filter ((fun fee => decide (fee.apartmentId = apartmentId ∧
      inForceOn month fee = true)) ∘ f) =
      fees.filter fun fee => fee.apartmentId = apartmentId ∧ inForceOn month fee := by
    refine List.filter_congr fun fee hfee => decide_eq_decide.mpr ?_
    rw [(hf fee hfee).1]
    refine and_congr_right fun hapartment => ?_
    rw [hforce fee hfee hapartment]
  rw [hfilter]
  congr 1
  exact List.map_congr_left fun fee hfee => (hf fee (List.mem_filter.mp hfee).1).2

/-- A rate that is not in force charges nothing. -/
theorem chargedOn_append {fees : List Fee} {created : Fee} {apartmentId : String} {month : LocalDay}
    (h : created.apartmentId = apartmentId → ¬ inForceOn month created = true) :
    chargedOn (fees ++ [created]) apartmentId month = chargedOn fees apartmentId month := by
  unfold chargedOn
  rw [List.filter_append, List.filter_cons_of_neg, List.filter_nil, List.append_nil]
  simpa using h

theorem owed_congr {fees fees' : List Fee} {apartmentId : String} {months : List LocalDay}
    (h : ∀ month ∈ months, chargedOn fees' apartmentId month = chargedOn fees apartmentId month) :
    owed fees' apartmentId months = owed fees apartmentId months := by
  unfold owed
  rw [List.map_congr_left h]

section Record

variable {f : Fee → Fee} {created : Fee}

/-- **A rate is recorded**: no month from its first day on is billed to the apartment, and every
rate of its kind ends before it. -/
structure RateRecorded (t : Int) (s : FeeStore) (f : Fee → Fee) (created : Fee) : Prop where
  closed : ∀ fee ∈ s.fees, ClosedBefore created.apartmentId created.appliesFrom fee (f fee)
  ended : ∀ fee ∈ s.fees, fee.apartmentId = created.apartmentId → fee.kind = created.kind →
    ∃ ended ∈ (f fee).appliesUntil, ended.number < created.appliesFrom.number
  unbilled : ∀ run ∈ s.notifications, bills s run created.apartmentId →
    ∀ month ∈ monthsIn run.periodFrom run.periodTo, month.number < created.appliesFrom.number
  real : created.appliesFrom.Real
  opens : created.appliesUntil = none
  new : ∀ fee ∈ s.fees, fee.id ≠ created.id
  at_ : created.createdAt ≤ t

namespace RateRecorded

theorem stored {fee : Fee} (hfee : fee ∈ s.fees.map f ++ [created]) :
    fee = created ∨ ∃ old ∈ s.fees, fee = f old := by
  rcases List.mem_append.mp hfee with hold | hnew
  · obtain ⟨old, hmem, rfl⟩ := List.mem_map.mp hold
    exact .inr ⟨old, hmem, rfl⟩
  · exact .inl (List.mem_singleton.mp hnew)

/-- A rate with an end keeps it. -/
theorem keeps (hr : RateRecorded t s f created) {fee : Fee} (hfee : fee ∈ s.fees) {day : LocalDay}
    (hday : day ∈ fee.appliesUntil) : day ∈ (f fee).appliesUntil := by
  rcases (hr.closed fee hfee).ends with hsame | ⟨hnone, -⟩
  · rwa [hsame]
  · rw [hnone] at hday
    cases hday

/-- No month billed so far is one of the new rate's. -/
theorem month_lt (hr : RateRecorded t s f created) {run : FeeNotification}
    (hrun : run ∈ s.notifications) {apartmentId : String} (hbills : bills s run apartmentId = true)
    {month : LocalDay} (hmonth : month ∈ monthsIn run.periodFrom run.periodTo)
    (hof : apartmentId = created.apartmentId) : month.number < created.appliesFrom.number := by
  subst hof
  exact hr.unbilled run hrun hbills month hmonth

theorem apart (hr : RateRecorded t s f created) (h : Billing t s) :
    (s.fees.map f ++ [created]).Pairwise RatesApart := by
  rw [List.pairwise_append, List.pairwise_map]
  refine ⟨h.apart.imp_of_mem fun {a b} ha hb hab => ?_, List.pairwise_singleton _ _, ?_⟩
  · have hca := hr.closed a ha
    have hcb := hr.closed b hb
    refine ⟨by rw [hca.id, hcb.id]; exact hab.1, fun hapartment hkind => ?_⟩
    rw [hca.apartmentId, hcb.apartmentId] at hapartment
    rw [hca.kind, hcb.kind] at hkind
    unfold Apart
    rw [hca.appliesFrom, hcb.appliesFrom]
    refine (hab.2 hapartment hkind).imp ?_ ?_
    · rintro ⟨ended, hmem, hlt⟩
      exact ⟨ended, hr.keeps ha hmem, hlt⟩
    · rintro ⟨ended, hmem, hlt⟩
      exact ⟨ended, hr.keeps hb hmem, hlt⟩
  · intro fee hfee new hnew
    obtain rfl := List.mem_singleton.mp hnew
    obtain ⟨old, hmem, rfl⟩ := List.mem_map.mp hfee
    have hc := hr.closed old hmem
    refine ⟨by rw [hc.id]; exact hr.new old hmem, fun hapartment hkind => .inl ?_⟩
    rw [hc.apartmentId] at hapartment
    rw [hc.kind] at hkind
    exact hr.ended old hmem hapartment hkind

theorem nonempty (hr : RateRecorded t s f created) (h : Billing t s) {fee : Fee}
    (hfee : fee ∈ s.fees.map f ++ [created]) {day : LocalDay} (hday : day ∈ fee.appliesUntil) :
    fee.appliesFrom.number ≤ day.number := by
  rcases stored hfee with rfl | ⟨old, hmem, rfl⟩
  · rw [hr.opens] at hday
    cases hday
  · have hc := hr.closed old hmem
    rw [hc.appliesFrom]
    rcases hc.ends with hsame | ⟨-, -, hlt, hsome⟩
    · rw [hsame] at hday
      exact h.nonempty old hmem day hday
    · rw [hsome] at hday
      obtain rfl := Option.some.inj hday
      rw [number_addLocalDays]
      omega

/-- What a run billed a month it bills. -/
theorem chargedOn_eq (hr : RateRecorded t s f created) {run : FeeNotification}
    (hrun : run ∈ s.notifications) {apartmentId : String} (hbills : bills s run apartmentId = true)
    {month : LocalDay} (hmonth : month ∈ monthsIn run.periodFrom run.periodTo) :
    chargedOn (s.fees.map f ++ [created]) apartmentId month = chargedOn s.fees apartmentId month := by
  have hlt := hr.month_lt hrun hbills hmonth
  rw [chargedOn_append, chargedOn_map]
  · exact fun fee hfee => ⟨(hr.closed fee hfee).apartmentId, (hr.closed fee hfee).monthlyAmount⟩
  · intro fee hfee hapartment
    rw [← hapartment] at hlt
    exact (hr.closed fee hfee).inForceOn_eq hlt
  · intro hapartment hin
    have hfrom := (inForceOn_iff.mp hin).1
    have hbefore := hlt hapartment.symm
    omega

theorem before (hr : RateRecorded t s f created) (h : Billing t s) {run : FeeNotification}
    (hrun : run ∈ s.notifications) {fee : Fee} (hfee : fee ∈ s.fees.map f ++ [created])
    (hbills : bills s run fee.apartmentId = true) {month : LocalDay}
    (hmonth : month ∈ monthsIn run.periodFrom run.periodTo) (hin : inForceOn month fee = true) :
    fee.createdAt ≤ run.issuedAt := by
  have hlt := hr.month_lt hrun hbills hmonth
  rcases stored hfee with rfl | ⟨old, hmem, rfl⟩
  · have hfrom := (inForceOn_iff.mp hin).1
    have hbefore := hlt rfl
    omega
  · have hc := hr.closed old hmem
    rw [hc.apartmentId] at hlt hbills
    rw [hc.inForceOn_eq hlt] at hin
    rw [hc.createdAt]
    exact h.before run hrun old hmem hbills month hmonth hin

end RateRecorded

/-- Nothing that is billed changes. -/
theorem Billing.record (h : Billing t s) (hr : RateRecorded t s f created) :
    Billing t { s with fees := s.fees.map f ++ [created] } := by
  refine ⟨hr.apart h, fun fee hfee => ?_, fun fee hfee day => hr.nonempty h hfee, fun fee hfee => ?_,
    h.period, h.owned, fun notice hnotice run hrun hof => ?_,
    fun run hrun fee hfee hbills month hmonth => hr.before h hrun hfee hbills hmonth⟩
  · rcases RateRecorded.stored hfee with rfl | ⟨old, hmem, rfl⟩
    · exact hr.real
    · rw [(hr.closed old hmem).appliesFrom]
      exact h.real old hmem
  · rcases RateRecorded.stored hfee with rfl | ⟨old, hmem, rfl⟩
    · exact hr.at_
    · rw [(hr.closed old hmem).createdAt]
      exact h.recorded old hmem
  · have hbills : bills s run notice.apartmentId = true :=
      bills_iff.mpr ⟨notice, hnotice, hof.symm, rfl⟩
    refine (h.settled notice hnotice run hrun hof).trans (owed_congr fun month hmonth => ?_).symm
    exact hr.chargedOn_eq hrun hbills hmonth

end Record

/-! ### What is closed -/

section Closing

instance : Std.Symm RatesApart where
  symm _ _ h := ⟨h.1.symm, fun hapartment hkind => (h.2 hapartment.symm hkind.symm).symm⟩

theorem mem_ratesOf {apartmentId : String} {kind : FeeKind} {fee : Fee} :
    fee ∈ ratesOf s apartmentId kind ↔
      fee ∈ s.fees ∧ fee.apartmentId = apartmentId ∧ fee.kind = kind := by
  unfold ratesOf
  rw [List.mem_filter, decide_eq_true_eq]

/-- Rates of an apartment and a kind of which both are open are one. -/
theorem Billing.open_unique (h : Billing t s) {a b : Fee} (ha : a ∈ s.fees) (hb : b ∈ s.fees)
    (hapartment : a.apartmentId = b.apartmentId) (hkind : a.kind = b.kind)
    (hopen : a.appliesUntil = none) (hopen' : b.appliesUntil = none) : a = b := by
  by_contra hne
  rcases (h.apart.forall ha hb hne).2 hapartment hkind with ⟨ended, hended, -⟩ | ⟨ended, hended, -⟩
  · rw [hopen] at hended
    cases hended
  · rw [hopen'] at hended
    cases hended

/-- The rate that is closed is the open one. -/
theorem Billing.standingRate_eq (h : Billing t s) {fee : Fee} (hfee : fee ∈ s.fees)
    (hopen : fee.appliesUntil = none) : standingRate s fee.apartmentId fee.kind = some fee := by
  unfold standingRate
  cases hfind : (ratesOf s fee.apartmentId fee.kind).find? fun fee => fee.appliesUntil = none with
  | none =>
    have hnone := List.find?_eq_none.mp hfind fee (mem_ratesOf.mpr ⟨hfee, rfl, rfl⟩)
    exact absurd (decide_eq_true hopen) hnone
  | some standing =>
    have hp := List.find?_some hfind
    obtain ⟨hmem, hapartment, hkind⟩ := mem_ratesOf.mp (List.mem_of_find?_eq_some hfind)
    rw [h.open_unique hmem hfee hapartment hkind (of_decide_eq_true hp) hopen]

theorem of_standingRate {apartmentId : String} {kind : FeeKind} {standing : Fee}
    (h : standingRate s apartmentId kind = some standing) :
    standing ∈ s.fees ∧ standing.apartmentId = apartmentId ∧ standing.kind = kind ∧
      standing.appliesUntil = none := by
  unfold standingRate at h
  have hp := List.find?_some h
  obtain ⟨hmem, hapartment, hkind⟩ := mem_ratesOf.mp (List.mem_of_find?_eq_some h)
  exact ⟨hmem, hapartment, hkind, of_decide_eq_true hp⟩

/-- What closing does to each rate. -/
def closing (standing : Option Fee) (appliesFrom : LocalDay) (startMonth : StartMonth) (fee : Fee) :
    Fee :=
  if standing.any fun rate => fee.id = rate.id then fee.endedBefore appliesFrom startMonth else fee

theorem id_closing (standing : Option Fee) (appliesFrom : LocalDay) (startMonth : StartMonth)
    (fee : Fee) : (closing standing appliesFrom startMonth fee).id = fee.id := by
  unfold closing
  split_ifs <;> rfl

variable {apartmentId : String} {kind : FeeKind} {appliesFrom : LocalDay} {startMonth : StartMonth}

theorem closing_cases (h : Billing t s) {fee : Fee} (hfee : fee ∈ s.fees) :
    closing (standingRate s apartmentId kind) appliesFrom startMonth fee = fee ∨
      (standingRate s apartmentId kind = some fee ∧
        closing (standingRate s apartmentId kind) appliesFrom startMonth fee =
          fee.endedBefore appliesFrom startMonth) := by
  unfold closing
  split_ifs with hany
  · right
    rw [Option.any_eq_true] at hany
    obtain ⟨standing, hstanding, hid⟩ := hany
    obtain ⟨hmem, -⟩ := of_standingRate hstanding
    rw [h.unique hfee hmem (of_decide_eq_true hid)]
    exact ⟨hstanding, rfl⟩
  · exact .inl rfl

/-- **What closing does** where every rate of the kind begins before the day. -/
theorem closedBefore_closing (h : Billing t s)
    (hlater : ∀ fee ∈ ratesOf s apartmentId kind, fee.appliesFrom.number < appliesFrom.number)
    {fee : Fee} (hfee : fee ∈ s.fees) : ClosedBefore apartmentId appliesFrom fee
      (closing (standingRate s apartmentId kind) appliesFrom startMonth fee) := by
  rcases closing_cases h hfee with hsame | ⟨hstanding, heq⟩
  · rw [hsame]
    exact .refl _ _ _
  · obtain ⟨hmem, hapartment, hkind, hopen⟩ := of_standingRate hstanding
    rw [heq]
    exact ⟨rfl, rfl, rfl, rfl, rfl, rfl, .inr ⟨hopen, hapartment,
      hlater fee (mem_ratesOf.mpr ⟨hmem, hapartment, hkind⟩), rfl⟩⟩

/-- Once it is closed every rate of the kind has ended before the day. -/
theorem ended_closing (h : Billing t s)
    (hends : ∀ fee ∈ ratesOf s apartmentId kind, ∀ ended ∈ fee.appliesUntil,
      ended.number < appliesFrom.number) {fee : Fee} (hfee : fee ∈ s.fees)
    (hapartment : fee.apartmentId = apartmentId) (hkind : fee.kind = kind) :
    ∃ ended ∈ (closing (standingRate s apartmentId kind) appliesFrom startMonth fee).appliesUntil,
      ended.number < appliesFrom.number := by
  have hlast : (addLocalDays appliesFrom (-1)).number < appliesFrom.number := by
    rw [number_addLocalDays]
    omega
  cases huntil : fee.appliesUntil with
  | none =>
    have hstanding := h.standingRate_eq hfee huntil
    rw [hapartment, hkind] at hstanding
    refine ⟨_, ?_, hlast⟩
    unfold closing
    rw [hstanding, Option.any_some, if_pos (decide_eq_true rfl)]
    rfl
  | some ended =>
    rcases closing_cases h hfee with hsame | ⟨-, heq⟩
    · rw [hsame, huntil]
      exact ⟨ended, rfl, hends fee (mem_ratesOf.mpr ⟨hfee, hapartment, hkind⟩) ended huntil⟩
    · rw [heq]
      exact ⟨_, rfl, hlast⟩

end Closing

/-! ### A rate removed -/

/-- A month begins in the period it is one of. -/
theorem Billing.month_in (h : Billing t s) {run : FeeNotification} (hrun : run ∈ s.notifications)
    {month : LocalDay} (hmonth : month ∈ monthsIn run.periodFrom run.periodTo) :
    run.periodFrom.number ≤ month.number ∧ month.number ≤ run.periodTo.number ∧
      ∃ index, month = monthOf index := by
  have hperiod := h.period run hrun
  obtain ⟨index, hle, hlast, rfl⟩ := hperiod.mem_monthsIn.mp hmonth
  rw [number_monthOf, hperiod.number_first]
  exact ⟨monthStart_mono hle, hlast, index, rfl⟩

/-- The first month a rate bills is a month, and none before it is one it is in force on. -/
theorem Billing.firstBilled (h : Billing t s) {fee : Fee} (hfee : fee ∈ s.fees) :
    ∃ index, firstMonthBilled fee.appliesFrom = monthOf index ∧
      fee.appliesFrom.number ≤ monthStart index := by
  have heq := firstMonthBilled_eq (h.real fee hfee)
  refine ⟨_, heq, ?_⟩
  rw [← firstMonthBilled_le_iff (h.real fee hfee), heq, number_monthOf]

/-- **What the removal asks** is whether a run billed a month at the rate. -/
theorem Billing.billedFrom_iff (h : Billing t s) {fee : Fee} (hfee : fee ∈ s.fees) :
    billedFrom s fee = true ↔ Billed s fee := by
  unfold billedFrom
  simp only [Bool.and_eq_true, Option.all_eq_true, decide_eq_true_eq, List.any_eq_true]
  constructor
  · rintro ⟨hends, run, hrun, ⟨⟨hbegins, hstill⟩, -⟩, hbills⟩
    have hperiod := h.period run hrun
    obtain ⟨index, hfirst, hfrom⟩ := h.firstBilled hfee
    rw [hfirst, number_monthOf] at hbegins
    rw [hfirst, number_monthOf] at hends
    refine ⟨run, hrun, hbills, monthOf (max index run.periodFrom.monthIndex), ?_, ?_⟩
    · refine hperiod.mem_monthsIn.mpr ⟨_, le_max_right _ _, ?_, rfl⟩
      rcases max_choice index run.periodFrom.monthIndex with hmax | hmax
      · rwa [hmax]
      · rw [hmax, ← hperiod.number_first]
        exact hperiod.first_le
    · rw [inForceOn_iff, number_monthOf]
      refine ⟨hfrom.trans (monthStart_mono (le_max_left _ _)), fun ended hended => ?_⟩
      rcases max_choice index run.periodFrom.monthIndex with hmax | hmax
      · rw [hmax]
        exact hends ended hended
      · rw [hmax, ← hperiod.number_first]
        exact hstill ended hended
  · rintro ⟨run, hrun, hbills, month, hmonth, hforce⟩
    obtain ⟨hlow, hhigh, index, rfl⟩ := h.month_in hrun hmonth
    have hbefore := h.before run hrun fee hfee hbills _ hmonth hforce
    obtain ⟨hfrom, hends⟩ := inForceOn_iff.mp hforce
    have hfirst := (firstMonthBilled_le_iff (h.real fee hfee) index).mpr hfrom
    rw [number_monthOf] at hlow hhigh hends
    exact ⟨fun ended hended => hfirst.trans (hends ended hended), run, hrun,
      ⟨⟨hfirst.trans hhigh, fun ended hended => hlow.trans (hends ended hended)⟩, hbefore⟩, hbills⟩

/-- Rates that charge nothing may go. -/
theorem chargedOn_filter {fees : List Fee} {keep : Fee → Bool} {apartmentId : String}
    {month : LocalDay} (h : ∀ fee ∈ fees, keep fee = false → fee.apartmentId = apartmentId →
      ¬ inForceOn month fee = true) :
    chargedOn (fees.filter keep) apartmentId month = chargedOn fees apartmentId month := by
  unfold chargedOn
  rw [List.filter_filter]
  congr 2
  refine List.filter_congr fun fee hfee => ?_
  cases hkeep : keep fee with
  | true => rw [Bool.and_true]
  | false =>
    rw [Bool.and_false, eq_comm, decide_eq_false_iff_not]
    exact fun hof => h fee hfee hkeep hof.1 hof.2

/-- **A rate removed** that no run billed a month at. -/
theorem Billing.remove (h : Billing t s) {fee : Fee} (hfee : fee ∈ s.fees) (hnot : ¬ Billed s fee) :
    Billing t { s with fees := s.fees.filter (·.id ≠ fee.id) } := by
  have hsub : (s.fees.filter (·.id ≠ fee.id)).Sublist s.fees := List.filter_sublist
  refine ⟨h.apart.sublist hsub, fun a ha => h.real a (hsub.subset ha),
    fun a ha => h.nonempty a (hsub.subset ha), fun a ha => h.recorded a (hsub.subset ha), h.period,
    h.owned, ?_, fun run hrun a ha => h.before run hrun a (hsub.subset ha)⟩
  intro notice hnotice run hrun hof
  refine (h.settled notice hnotice run hrun hof).trans (owed_congr fun month hmonth => ?_).symm
  apply chargedOn_filter
  intro a ha hgone hapartment hforce
  have hid : a.id = fee.id := by simpa using hgone
  obtain rfl := h.unique ha hfee hid
  have hbills : bills s run a.apartmentId = true :=
    bills_iff.mpr ⟨notice, hnotice, hof.symm, hapartment.symm⟩
  exact hnot ⟨run, hrun, hbills, month, hmonth, hforce⟩

/-! ### A run issued -/

/-- The notices of a run are those of its amounts. -/
theorem mem_noticesOf {notificationId : String} {periodFrom : LocalDay}
    {amounts : List (String × ℕ)} {notice : FeeNotice}
    (h : notice ∈ noticesOf notificationId periodFrom amounts) :
    notice.notificationId = notificationId ∧ (notice.apartmentId, notice.amount) ∈ amounts := by
  obtain ⟨billed, hbilled, rfl⟩ := List.mem_map.mp h
  exact ⟨rfl, List.fst_mem_of_mem_zipIdx hbilled⟩

/-- **A run issued** after every rate on file was recorded. -/
theorem Billing.issue (h : Billing t s) (run : FeeNotification) {amounts : List (String × ℕ)}
    (hperiod : WholePeriod run.periodFrom run.periodTo)
    (hid : ∀ other ∈ s.notifications, other.id ≠ run.id)
    (hat : ∀ fee ∈ s.fees, fee.createdAt ≤ run.issuedAt)
    (hamounts : ∀ billed ∈ amounts,
      billed.2 = owed s.fees billed.1 (monthsIn run.periodFrom run.periodTo)) :
    Billing t { s with
      notifications := s.notifications ++ [run]
      notices := s.notices ++ noticesOf run.id run.periodFrom amounts } := by
  refine ⟨h.apart, h.real, h.nonempty, h.recorded, ?_, ?_, ?_, ?_⟩
  · intro other hother
    rcases List.mem_append.mp hother with hold | hnew
    · exact h.period other hold
    · rw [List.mem_singleton.mp hnew]
      exact hperiod
  · intro notice hnotice
    rcases List.mem_append.mp hnotice with hold | hnew
    · obtain ⟨other, hother, hof⟩ := h.owned notice hold
      exact ⟨other, List.mem_append_left _ hother, hof⟩
    · exact ⟨run, List.mem_append_right _ List.mem_cons_self, (mem_noticesOf hnew).1.symm⟩
  · intro notice hnotice other hother hof
    rcases List.mem_append.mp hnotice with hold | hnew
    · rcases List.mem_append.mp hother with hbefore | hlast
      · exact h.settled notice hold other hbefore hof
      · -- a notice of before is not one of the new run
        obtain ⟨owner, howner, hown⟩ := h.owned notice hold
        rw [List.mem_singleton.mp hlast] at hof
        exact absurd (hown.trans hof.symm) (hid owner howner)
    · obtain ⟨hrun, hbilled⟩ := mem_noticesOf hnew
      rcases List.mem_append.mp hother with hbefore | hlast
      · exact absurd (hof.trans hrun) (hid other hbefore)
      · rw [List.mem_singleton.mp hlast]
        exact hamounts _ hbilled
  · intro other hother fee hfee hbills month hmonth hforce
    rcases List.mem_append.mp hother with hbefore | hlast
    · refine h.before other hbefore fee hfee (bills_iff.mpr ?_) month hmonth hforce
      obtain ⟨notice, hnotice, hof, hapartment⟩ := bills_iff.mp hbills
      rcases List.mem_append.mp hnotice with hold | hnew
      · exact ⟨notice, hold, hof, hapartment⟩
      · exact absurd (hof.symm.trans (mem_noticesOf hnew).1) (hid other hbefore)
    · rw [List.mem_singleton.mp hlast]
      exact hat fee hfee

end OpenBrf.Fees
