import OpenBrf.Registers.Transmission

/-!
# Registers.TransmissionRuns — sends of one duty beside each other

A send's right is the token it drew.  While its claim has not expired the claim stands and nobody
else records a receipt; its deadline is a minute before that, so whatever it has handed over by
then is no longer on its way when another send takes the claim over.
-/

namespace OpenBrf.Registers.Transmission

open Async Shared

namespace Duty

/-- The events of one send. -/
def mine (d : Duty) (k : String) : List Event := d.log.filter fun e => e.sender = some k

theorem mem_mine {d : Duty} {k : String} {e : Event} :
    e ∈ d.mine k ↔ e ∈ d.log ∧ e.sender = some k := by
  simp [mine]

theorem mine_push (d : Duty) (k : String) (e : Event) :
    (d.push e).mine k = if e.sender = some k then e :: d.mine k else d.mine k := by
  simp [mine, List.filter_cons]

theorem mine_push_of_sender {d : Duty} {k : String} {e : Event} (h : e.sender = some k) :
    (d.push e).mine k = e :: d.mine k := by
  rw [mine_push, if_pos h]

theorem mine_push_of_ne {d : Duty} {k k' : String} {e : Event} (h : e.sender = some k)
    (hne : k' ≠ k) : (d.push e).mine k' = d.mine k' := by
  rw [mine_push, if_neg]
  rw [h]
  exact fun heq => hne (Option.some.inj heq).symm

end Duty

/-- Every hand-over of a log, newest first, comes after its disclosure entries, after no receipt
and before its own deadline. -/
def Preceded : List Event → Prop
  | [] => True
  | .handedOver token begun handedOverAt :: past =>
    ((∃ personIds, .transmitted token personIds ∈ past ∧
        (personIds ≠ [] → .revealed token personIds ∈ past)) ∧
      (∀ e ∈ past, e.isMade = false) ∧ handedOverAt < begun + SUBMIT_DEADLINE_MS) ∧ Preceded past
  | _ :: past => Preceded past

theorem preceded_cons {e : Event} {past : List Event} (he : e.isHandOver = false)
    (h : Preceded past) : Preceded (e :: past) := by
  cases e <;> first | exact h | cases he

/-- What holds of the duty at any time. -/
structure Sound (t : Int) (d : Duty) : Prop where
  drawn : d.drawn.Nodup
  claimDrawn : ∀ row ∈ d.claim, row.token ∈ d.drawn
  logDrawn : ∀ e ∈ d.log, ∀ k ∈ e.sender, k ∈ d.drawn
  once : ∀ k, ((d.mine k).filter Event.isHandOver).length ≤ 1
  held : ∀ k begun at_, .handedOver k begun at_ ∈ d.log → .ended k ∉ d.log →
    t < begun + SUBMIT_DEADLINE_MS →
      ∃ e, d.claim = some ⟨k, e⟩ ∧ begun + SUBMIT_DEADLINE_MS < e
  preceded : Preceded d.log

/-- What the sends keep: a send's right is its token. -/
def transmissionDiscipline : Discipline Duty String where
  inv := Sound
  free k d := k ∉ d.drawn
  always m m' := m.2.drawn ⊆ m'.2.drawn
  keeps k m m' := m'.2.mine k = m.2.mine k ∧
    ∀ e, m.2.claim = some ⟨k, e⟩ → m'.1 < e →
      m'.2.claim = some ⟨k, e⟩ ∧ ∀ x ∈ m'.2.log, x.isMade = true → x ∈ m.2.log
  allowed m m' := m'.2.claim = none → ∀ row ∈ m.2.claim, m'.2.log = .letGo row.token :: m.2.log
  inv_tick ht h := ⟨h.drawn, h.claimDrawn, h.logDrawn, h.once, fun k b a hk he hlt =>
    h.held k b a hk he (lt_of_le_of_lt ht hlt), h.preceded⟩
  always_tick _ := List.Subset.refl _
  keeps_tick _ := ⟨rfl, fun _ hc _ => ⟨hc, fun _ hx _ => hx⟩⟩
  allowed_refl m := by
    intro hnone row hrow
    rw [hnone] at hrow
    cases hrow
  always_trans _ _ h h' := List.Subset.trans h h'
  keeps_trans := by
    intro k m₁ m₂ m₃ _ hle h h'
    refine ⟨h'.1.trans h.1, fun e hc ht => ?_⟩
    obtain ⟨hc₂, hmade₂⟩ := h.2 e hc (lt_of_le_of_lt hle ht)
    obtain ⟨hc₃, hmade₃⟩ := h'.2 e hc₂ ht
    exact ⟨hc₃, fun x hx hm => hmade₂ x (hmade₃ x hx hm) hm⟩
  free_of_always h hfree hmem := hfree (h hmem)

/-- The right of one send. -/
abbrev only (k : String) : String → Prop := fun r => r = k

/-! ### What a statement commits -/

section Commits

variable {t : Int} {d : Duty} {k : String}

/-- An event of the send is added. -/
theorem sound_push {e : Event} (hs : Sound t d) (hk : k ∈ d.drawn) (he : e.sender = some k)
    (honce : e.isHandOver = true → (d.mine k).filter Event.isHandOver = [])
    (hheld : ∀ begun at_, e = .handedOver k begun at_ → t < begun + SUBMIT_DEADLINE_MS →
      ∃ x, d.claim = some ⟨k, x⟩ ∧ begun + SUBMIT_DEADLINE_MS < x)
    (hpreceded : Preceded (e :: d.log)) : Sound t (d.push e) := by
  refine ⟨hs.drawn, hs.claimDrawn, ?_, ?_, ?_, hpreceded⟩
  · intro x hx k' hk'
    rcases List.mem_cons.mp hx with rfl | hx
    · rw [he] at hk'
      obtain rfl := Option.some.inj hk'
      exact hk
    · exact hs.logDrawn x hx k' hk'
  · intro k'
    by_cases hne : k' = k
    · subst hne
      rw [Duty.mine_push_of_sender he]
      by_cases hover : e.isHandOver = true
      · rw [List.filter_cons_of_pos hover, honce hover]
        exact le_rfl
      · rw [List.filter_cons_of_neg hover]
        exact hs.once k'
    · rw [Duty.mine_push_of_ne he hne]
      exact hs.once k'
  · intro k' begun at_ hover hended hlt
    have hended' : .ended k' ∉ d.log := fun h => hended (List.mem_cons_of_mem _ h)
    rcases List.mem_cons.mp hover with rfl | hover
    · obtain rfl := Option.some.inj he
      exact hheld begun at_ rfl hlt
    · exact hs.held k' begun at_ hover hended' hlt

/-- An event of the send is added by the send; a receipt, while the claim is the send's. -/
theorem commits_push {e : Event} (hsound : Sound t (d.push e)) (he : e.sender = some k)
    (hmade : e.isMade = true → ∃ x, d.claim = some ⟨k, x⟩) :
    transmissionDiscipline.Commits (only k) (only k) (t, d) (t, d.push e) := by
  refine ⟨hsound, List.Subset.refl _, ?_, ?_, fun _ => .inl⟩
  · intro r hr
    refine ⟨Duty.mine_push_of_ne he hr, fun x hc _ => ⟨hc, fun y hy hym => ?_⟩⟩
    rcases List.mem_cons.mp hy with rfl | hy
    · obtain ⟨x', hx'⟩ := hmade hym
      rw [show d.claim = some ⟨r, x⟩ from hc] at hx'
      exact absurd (congrArg ClaimRow.token (Option.some.inj hx')) hr
    · exact hy
  · intro hnone row hrow
    rw [show d.claim = none from hnone] at hrow
    cases hrow

/-- The claim is taken, where nothing outstanding is under it. -/
theorem commits_take {e : Int} (hs : Sound t d) (hk : k ∈ d.drawn)
    (hfree : ∀ row ∈ d.claim, row.expiresAt ≤ t) :
    transmissionDiscipline.Commits (only k) (only k) (t, d)
      (t, { d with claim := some ⟨k, e⟩ }) := by
  refine ⟨⟨hs.drawn, ?_, hs.logDrawn, hs.once, ?_, hs.preceded⟩, List.Subset.refl _, ?_, ?_,
    fun _ => .inl⟩
  · rintro row ⟨⟩
    exact hk
  · intro k' begun at_ hover hended hlt
    obtain ⟨x, hx, hlt'⟩ := hs.held k' begun at_ hover hended hlt
    have hexpired : x ≤ t := hfree _ hx
    omega
  · intro r hr
    refine ⟨rfl, fun x hc hlt => ?_⟩
    have hexpired : x ≤ t := hfree _ hc
    have hlt' : t < x := hlt
    omega
  · intro hnone
    cases hnone

/-- The send lets its claim go, with nothing of its own outstanding. -/
theorem commits_release {claim : Option ClaimRow} (hs : Sound t d) (hk : k ∈ d.drawn)
    (hclaim : claim = d.claim ∧ (∀ row ∈ d.claim, row.token ≠ k) ∨
      claim = none ∧ ∀ row ∈ d.claim, row.token = k)
    (hidle : ∀ begun at_, .handedOver k begun at_ ∈ d.log → .ended k ∈ d.log) :
    transmissionDiscipline.Commits (only k) (only k) (t, d)
      (t, { d with claim := claim }.push (.letGo k)) := by
  have hother : ∀ k' x, k' ≠ k → d.claim = some ⟨k', x⟩ → claim = some ⟨k', x⟩ := by
    intro k' x hne hc
    rcases hclaim with ⟨rfl, _⟩ | ⟨_, hmine⟩
    · exact hc
    · exact absurd (hmine _ hc) hne
  have hsound : Sound t ({ d with claim := claim }.push (.letGo k)) := by
    refine sound_push ⟨hs.drawn, ?_, hs.logDrawn, hs.once, ?_, hs.preceded⟩ hk rfl ?_ ?_ hs.preceded
    · intro row hrow
      rcases hclaim with ⟨rfl, _⟩ | ⟨rfl, _⟩
      · exact hs.claimDrawn row hrow
      · cases hrow
    · intro k' begun at_ hover hended hlt
      obtain ⟨x, hx, hlt'⟩ := hs.held k' begun at_ hover hended hlt
      refine ⟨x, hother k' x ?_ hx, hlt'⟩
      rintro rfl
      exact hended (hidle begun at_ hover)
    · intro h
      cases h
    · intro _ _ h
      cases h
  refine ⟨hsound, List.Subset.refl _, ?_, ?_, fun _ => .inl⟩
  · intro r hr
    refine ⟨Duty.mine_push_of_ne rfl hr, fun x hc _ => ⟨hother r x hr hc, fun y hy hym => ?_⟩⟩
    rcases List.mem_cons.mp hy with rfl | hy
    · cases hym
    · exact hy
  · intro hnone row hrow
    rcases hclaim with ⟨rfl, _⟩ | ⟨_, hmine⟩
    · rw [show d.claim = none from hnone] at hrow
      cases hrow
    · rw [hmine row hrow]
      rfl

/-- A token is drawn, and with it the right. -/
theorem commits_draw (hs : Sound t d) (hk : k ∉ d.drawn) :
    transmissionDiscipline.Commits (fun _ => False) (only k) (t, d)
      (t, { d with drawn := k :: d.drawn }) := by
  refine ⟨⟨List.nodup_cons.mpr ⟨hk, hs.drawn⟩, ?_, ?_, hs.once, hs.held, hs.preceded⟩,
    List.subset_cons_self .., fun _ _ => ⟨rfl, fun _ hc _ => ⟨hc, fun _ hx _ => hx⟩⟩, ?_, ?_⟩
  · exact fun row hrow => List.mem_cons_of_mem _ (hs.claimDrawn row hrow)
  · exact fun e he k' hk' => List.mem_cons_of_mem _ (hs.logDrawn e he k' hk')
  · intro hnone row hrow
    rw [show d.claim = none from hnone] at hrow
    cases hrow
  · rintro r rfl
    exact .inr ⟨hk, fun h => h List.mem_cons_self⟩

end Commits

/-! ### What a send knows -/

/-- The send with token `k` has recorded `events`, newest first. -/
structure Recorded (k : String) (events : List Event) (m : Moment Duty) : Prop where
  drawn : k ∈ m.2.drawn
  mine : m.2.mine k = events

/-- Its claim stands until it expires at `e`. -/
structure Holding (k : String) (e : Int) (events : List Event) (m : Moment Duty) : Prop extends
    Recorded k events m where
  claimed : m.1 < e → m.2.claim = some ⟨k, e⟩

/-- And there was no receipt since it was taken. -/
structure Cleared (k : String) (e : Int) (events : List Event) (m : Moment Duty) : Prop extends
    Holding k e events m where
  unreported : m.1 < e → ∀ x ∈ m.2.log, x.isMade = false

section Knows

variable {k : String} {e : Int} {events : List Event} {m m' : Moment Duty}

theorem Recorded.rely (h : Recorded k events m) (hr : transmissionDiscipline.Rely (only k) m m') :
    Recorded k events m' :=
  ⟨hr.always h.drawn, (hr.keeps k rfl).1.trans h.mine⟩

theorem Holding.rely (h : Holding k e events m)
    (hr : transmissionDiscipline.Rely (only k) m m') : Holding k e events m' :=
  ⟨h.toRecorded.rely hr, fun hlt =>
    ((hr.keeps k rfl).2 e (h.claimed (lt_of_le_of_lt hr.le hlt)) hlt).1⟩

theorem Cleared.rely (h : Cleared k e events m)
    (hr : transmissionDiscipline.Rely (only k) m m') : Cleared k e events m' := by
  refine ⟨h.toHolding.rely hr, fun hlt x hx => ?_⟩
  have hlt' := lt_of_le_of_lt hr.le hlt
  by_contra hmade
  rw [Bool.not_eq_false] at hmade
  have hold := ((hr.keeps k rfl).2 e (h.claimed hlt') hlt).2 x hx hmade
  rw [h.unreported hlt' x hold] at hmade
  cases hmade

/-- Nothing of the send is on its way. -/
def Idle (events : List Event) : Prop :=
  (∃ k, .ended k ∈ events) ∨ ∀ x ∈ events, x.isHandOver = false

/-- Where a send has nothing on its way, whatever it recorded. -/
def Rests (k : String) (h : String → Prop) (m : Moment Duty) : Prop :=
  h = only k ∧ ∃ events, Idle events ∧ Recorded k events m

theorem Recorded.idle (h : Recorded k events m) (hidle : Idle events) :
    ∀ begun at_, .handedOver k begun at_ ∈ m.2.log → .ended k ∈ m.2.log := by
  intro begun at_ hover
  rcases hidle with ⟨k', hended⟩ | hnone
  · rw [← h.mine, Duty.mem_mine] at hended
    obtain rfl := Option.some.inj hended.2
    exact hended.1
  · have hmine : .handedOver k begun at_ ∈ m.2.mine k := Duty.mem_mine.mpr ⟨hover, rfl⟩
    rw [h.mine] at hmine
    cases hnone _ hmine

end Knows

/-! ### The statements -/

section Statements

variable {α : Type} {h : String → Prop} {m : Moment Duty} {k : String}

/-- A statement fails before it commits, or commits and its answer may be lost. -/
theorem safe_statement {enabled : Int → Prop} {f : Int → Duty → α × Duty}
    {Q : Except TransmissionError α → (String → Prop) → Moment Duty → Prop}
    (hrefused : ∀ t d, transmissionDiscipline.Rely h m (t, d) → Q (.error .database) h (t, d))
    (hf : ∀ t d, transmissionDiscipline.Rely h m (t, d) → Sound t d → enabled t →
      transmissionDiscipline.Commits h h (t, d) (t, (f t d).2) ∧
        Q (.ok (f t d).1) h (t, (f t d).2) ∧ Q (.error .database) h (t, (f t d).2)) :
    Safe transmissionDiscipline (statement enabled f) Q h m := by
  refine safe_transacted (fun t d hrely _ => hrefused t d hrely) fun t d hrely hs henabled => ?_
  exact ⟨h, hf t d hrely hs henabled⟩

/-- A statement that reads. -/
theorem safe_reading {f : Duty → α}
    {Q : Except TransmissionError α → (String → Prop) → Moment Duty → Prop}
    (hf : ∀ t d, transmissionDiscipline.Rely h m (t, d) →
      Q (.ok (f d)) h (t, d) ∧ Q (.error .database) h (t, d)) :
    Safe transmissionDiscipline (statement (fun _ => True) fun _ d => (f d, d)) Q h m :=
  safe_statement (fun t d hrely => (hf t d hrely).2) fun t d hrely hs _ => ⟨.refl hs, hf t d hrely⟩

theorem safe_clock_bind {g : Int → SendProg α}
    {Q : Except TransmissionError α → (String → Prop) → Moment Duty → Prop}
    (hg : ∀ t d, transmissionDiscipline.Rely h m (t, d) →
      Safe transmissionDiscipline (g t) Q h (t, d)) :
    Safe transmissionDiscipline (clock >>= g) Q h m :=
  safe_atomic_bind fun t d hrely hs => ⟨h, .refl hs, hg t d hrely⟩

theorem safe_throwIfAborted {deadline : Int}
    {Q : Except TransmissionError Unit → (String → Prop) → Moment Duty → Prop}
    (hQ : ∀ t d a, transmissionDiscipline.Rely h m (t, d) → Q a h (t, d)) :
    Safe transmissionDiscipline (throwIfAborted deadline) Q h m := by
  unfold throwIfAborted
  refine safe_ask_bind fun t d w hrely hs _ => ⟨h, .refl hs, ?_⟩
  cases w.aborted
  · exact hQ t d _ hrely
  · exact hQ t d _ hrely

/-- An entry that is neither a hand-over nor a receipt. -/
theorem safe_record {enabled : Int → Prop} {events : List Event} {e : Event}
    {Q : Except TransmissionError Unit → (String → Prop) → Moment Duty → Prop}
    (hm : Recorded k events m) (he : e.sender = some k) (hover : e.isHandOver = false)
    (hmade : e.isMade = true → ∀ t, enabled t → ∀ d,
      transmissionDiscipline.Rely (only k) m (t, d) → ∃ x, d.claim = some ⟨k, x⟩)
    (hQ : ∀ t d, transmissionDiscipline.Rely (only k) m (t, d) →
      Q (.ok ()) (only k) (t, d.push e) ∧ Q (.error .database) (only k) (t, d.push e) ∧
        Q (.error .database) (only k) (t, d)) :
    Safe transmissionDiscipline (record enabled e) Q (only k) m := by
  refine safe_statement (fun t d hrely => (hQ t d hrely).2.2) fun t d hrely hs henabled => ?_
  have hk := (hm.rely hrely).drawn
  refine ⟨commits_push (sound_push hs hk he ?_ ?_ (preceded_cons hover hs.preceded)) he ?_,
    (hQ t d hrely).1, (hQ t d hrely).2.1⟩
  · intro h
    rw [hover] at h
    cases h
  · rintro _ _ rfl
    cases hover
  · exact fun h => hmade h t henabled d hrely

end Statements

/-! ### A send -/

section Send

variable {k : String} {e : Int} {m : Moment Duty} {events : List Event}

theorem Recorded.push {t : Int} {d : Duty} {x : Event} (h : Recorded k events (t, d))
    (hx : x.sender = some k) : Recorded k (x :: events) (t, d.push x) :=
  ⟨h.drawn, by rw [Duty.mine_push_of_sender hx, h.mine]⟩

theorem Holding.push {t : Int} {d : Duty} {x : Event} (h : Holding k e events (t, d))
    (hx : x.sender = some k) : Holding k e (x :: events) (t, d.push x) :=
  ⟨h.toRecorded.push hx, h.claimed⟩

theorem Cleared.push {t : Int} {d : Duty} {x : Event} (h : Cleared k e events (t, d))
    (hx : x.sender = some k) (hmade : x.isMade = false) :
    Cleared k e (x :: events) (t, d.push x) := by
  refine ⟨h.toHolding.push hx, fun hlt y hy => ?_⟩
  rcases List.mem_cons.mp hy with rfl | hy
  · exact hmade
  · exact h.unreported hlt y hy

/-- The disclosure entries are recorded, and nothing is handed over. -/
structure Disclosed (k : String) (events : List Event) : Prop where
  entries : ∃ personIds, .transmitted k personIds ∈ events ∧
    (personIds ≠ [] → .revealed k personIds ∈ events)
  noHandOver : ∀ x ∈ events, x.isHandOver = false

/-- Where the preparation ends. -/
def Prepared {α : Type} (k : String) (e : Int) :
    Except TransmissionError α → (String → Prop) → Moment Duty → Prop
  | .ok _, h, m => h = only k ∧ ∃ events, Disclosed k events ∧ Cleared k e events m
  | .error _, h, m => Rests k h m

theorem rests_of_noHandOver (hm : Recorded k events m)
    (hnone : ∀ x ∈ events, x.isHandOver = false) : Rests k (only k) m :=
  ⟨rfl, events, .inr hnone, hm⟩

theorem safe_reveal {deadline : Int} {personIds : List String}
    (hm : Cleared k e [.transmitted k personIds] m) :
    Safe transmissionDiscipline (reveal k deadline personIds) (Prepared k e) (only k) m := by
  have hnone : ∀ x ∈ [Event.transmitted k personIds], x.isHandOver = false := by simp [Event.isHandOver]
  unfold reveal
  split_ifs with hempty
  · exact ⟨rfl, _, ⟨⟨personIds, by simp, fun h => absurd hempty h⟩, hnone⟩, hm⟩
  · refine safe_bind (safe_throwIfAborted fun t d a hrely => ?_)
    have hm₁ := hm.rely hrely
    cases a with
    | error _ => exact rests_of_noHandOver hm₁.toRecorded hnone
    | ok _ =>
      refine safe_record hm₁.toRecorded rfl rfl (fun h => by cases h) fun t' d' hrely' => ?_
      have hm₂ := hm₁.rely hrely'
      have hm₃ := hm₂.push (x := .revealed k personIds) rfl rfl
      have hnone' : ∀ x ∈ [Event.revealed k personIds, .transmitted k personIds],
          x.isHandOver = false := by simp [Event.isHandOver]
      refine ⟨⟨rfl, _, ⟨⟨personIds, by simp, fun _ => by simp⟩, hnone'⟩, hm₃⟩, ?_, ?_⟩
      · exact rests_of_noHandOver hm₃.toRecorded hnone'
      · exact rests_of_noHandOver hm₂.toRecorded hnone

/-- A preparation that succeeds has recorded the disclosure, under a claim that stands, and found
no receipt since it was taken. -/
theorem safe_prepareTaken {deadline : Int} (hm : Holding k e [] m) :
    Safe transmissionDiscipline (prepareTaken k deadline) (Prepared k e) (only k) m := by
  have hnone : ∀ x ∈ ([] : List Event), x.isHandOver = false := by simp
  unfold prepareTaken
  refine safe_bind (safe_throwIfAborted fun t d a hrely => ?_)
  have hm₁ := hm.rely hrely
  cases a with
  | error _ => exact rests_of_noHandOver hm₁.toRecorded hnone
  | ok _ =>
    refine safe_bind (safe_reading fun t₂ d₂ hrely₂ => ?_)
    have hm₂ := hm₁.rely hrely₂
    refine ⟨?_, rests_of_noHandOver hm₂.toRecorded hnone⟩
    cases hreported : d₂.log.any Event.isMade with
    | true => exact rests_of_noHandOver hm₂.toRecorded hnone
    | false =>
      have hclear : Cleared k e [] (t₂, d₂) := by
        refine ⟨hm₂, fun _ x hx => ?_⟩
        by_contra h
        rw [Bool.not_eq_false] at h
        have hany : d₂.log.any Event.isMade = true := List.any_eq_true.mpr ⟨x, hx, h⟩
        rw [hreported] at hany
        cases hany
      refine safe_bind (safe_reading fun t₃ d₃ hrely₃ => ?_)
      have hm₃ := hclear.rely hrely₃
      refine ⟨?_, rests_of_noHandOver hm₃.toRecorded hnone⟩
      refine safe_ask_bind fun t₄ d₄ w hrely₄ hs _ => ⟨only k, .refl hs, ?_⟩
      have hm₄ := hm₃.rely hrely₄
      match w.rendering with
      | .problem => exact rests_of_noHandOver hm₄.toRecorded hnone
      | .report personIds =>
        refine safe_bind (safe_throwIfAborted fun t₅ d₅ a hrely₅ => ?_)
        have hm₅ := hm₄.rely hrely₅
        cases a with
        | error _ => exact rests_of_noHandOver hm₅.toRecorded hnone
        | ok _ =>
          refine safe_bind (safe_record hm₅.toRecorded rfl rfl (fun h => by cases h)
            fun t₆ d₆ hrely₆ => ?_)
          have hm₆ := hm₅.rely hrely₆
          have hm₇ := hm₆.push (x := .transmitted k personIds) rfl rfl
          refine ⟨?_, ?_, rests_of_noHandOver hm₆.toRecorded hnone⟩
          · refine safe_bind (Safe.mono ?_ (safe_reveal hm₇))
            intro a h m₈ ha
            cases a with
            | error _ => exact ha
            | ok _ =>
              obtain ⟨rfl, events, hdisclosed, hcleared⟩ := ha
              refine safe_bind (safe_throwIfAborted fun t₉ d₉ a hrely₉ => ?_)
              have hm₉ := hcleared.rely hrely₉
              cases a with
              | error _ => exact rests_of_noHandOver hm₉.toRecorded hdisclosed.noHandOver
              | ok _ => exact ⟨rfl, events, hdisclosed, hm₉⟩
          · exact rests_of_noHandOver hm₇.toRecorded (by simp [Event.isHandOver])

/-- The hand-over starts under the send's claim, before its deadline and after no receipt. -/
theorem safe_startSubmit {begun : Int} (hm : Cleared k e events m) (hd : Disclosed k events)
    (hbegun : begun + SUBMIT_DEADLINE_MS < e) :
    Safe transmissionDiscipline (startSubmit k begun) (fun a h m => match a with
      | .ok _ => h = only k ∧ ∃ events, Holding k e events m
      | .error _ => Rests k h m) (only k) m := by
  unfold startSubmit
  refine safe_atomic_bind fun t d hrely hs => ⟨only k, ?_⟩
  have hm₁ := hm.rely hrely
  by_cases hpassed : begun + SUBMIT_DEADLINE_MS ≤ t
  · simp only [hpassed, if_true]
    exact ⟨.refl hs, rests_of_noHandOver hm₁.toRecorded hd.noHandOver⟩
  · simp only [hpassed, if_false]
    have hlt : t < begun + SUBMIT_DEADLINE_MS := not_le.mp hpassed
    have hte : t < e := lt_trans hlt hbegun
    obtain ⟨personIds, htransmitted, hrevealed⟩ := hd.entries
    have hlog : ∀ x ∈ events, x ∈ d.log := by
      intro x hx
      rw [← hm₁.mine] at hx
      exact (Duty.mem_mine.mp hx).1
    have hpreceded : Preceded (.handedOver k begun t :: d.log) :=
      ⟨⟨⟨personIds, hlog _ htransmitted, fun h => hlog _ (hrevealed h)⟩, hm₁.unreported hte, hlt⟩,
        hs.preceded⟩
    refine ⟨commits_push (sound_push hs hm₁.drawn rfl ?_ ?_ hpreceded) rfl (fun h => by cases h),
      rfl, _, hm₁.toHolding.push rfl⟩
    · intro _
      rw [hm₁.mine, List.filter_eq_nil_iff]
      intro x hx
      rw [hd.noHandOver x hx]
      exact Bool.false_ne_true
    · rintro b a ⟨⟩ _
      exact ⟨e, hm₁.claimed hte, hbegun⟩

/-- Whatever the port answers, nothing of the send is on its way after that. -/
theorem safe_awaitAnswer {deadline : Int} (hm : Holding k e events m) :
    Safe transmissionDiscipline (awaitAnswer k deadline) (fun _ h m => h = only k ∧
      Holding k e (.ended k :: events) m) (only k) m := by
  unfold awaitAnswer
  refine safe_ask_bind fun t d w hrely hs _ => ⟨only k, ?_⟩
  have hm₁ := hm.rely hrely
  have hm₂ := hm₁.push (x := .ended k) rfl
  refine ⟨commits_push (sound_push hs hm₁.drawn rfl (fun h => by cases h) ?_
    (preceded_cons rfl hs.preceded)) rfl (fun h => by cases h), ?_⟩
  · rintro _ _ ⟨⟩
  · cases w.aborted <;> exact ⟨rfl, hm₂⟩

/-- An answer is recorded under the send's claim. -/
theorem safe_recordAnswer {x : Event} (hm : Holding k e events m) (hended : .ended k ∈ events)
    (hx : x.sender = some k) (hover : x.isHandOver = false) :
    Safe transmissionDiscipline (record (fun t => t < e) x) (fun _ => Rests k) (only k) m := by
  have hidle : Idle events := .inl ⟨k, hended⟩
  have hidle' : Idle (x :: events) := .inl ⟨k, List.mem_cons_of_mem _ hended⟩
  refine safe_record hm.toRecorded hx hover ?_ ?_
  · intro _ t ht d hrely
    exact ⟨e, (hm.rely hrely).claimed ht⟩
  · intro t d hrely
    have hm₁ := (hm.rely hrely).toRecorded
    exact ⟨⟨rfl, _, hidle', hm₁.push hx⟩, ⟨rfl, _, hidle', hm₁.push hx⟩, ⟨rfl, _, hidle, hm₁⟩⟩

theorem safe_handOver {zone : Zone} {now begun : Int} {triggeredOn : Option LocalDay}
    (hm : Cleared k e events m) (hd : Disclosed k events)
    (hbegun : begun + SUBMIT_DEADLINE_MS < e) :
    Safe transmissionDiscipline (handOver zone k now begun e triggeredOn) (fun _ => Rests k)
      (only k) m := by
  unfold handOver
  refine safe_bind (Safe.mono ?_ (safe_startSubmit hm hd hbegun))
  intro a h m₁ ha
  cases a with
  | error _ => exact ha
  | ok _ =>
    obtain ⟨rfl, events₁, hm₁⟩ := ha
    refine safe_bind (Safe.mono ?_ (safe_awaitAnswer hm₁))
    rintro a h m₂ ⟨rfl, hm₂⟩
    have hended : .ended k ∈ Event.ended k :: events₁ := List.mem_cons_self
    have hrests : Rests k (only k) m₂ := ⟨rfl, _, .inl ⟨k, hended⟩, hm₂.toRecorded⟩
    match a with
    | .error _ => exact hrests
    | .ok .unreadable => exact hrests
    | .ok (.rejected reasons) => exact safe_recordAnswer hm₂ hended rfl rfl
    | .ok (.received receivedOn reference) =>
      show Safe _ (if _ then _ else _) _ _ _
      split_ifs
      · exact safe_recordAnswer hm₂ hended rfl rfl
      · exact hrests

/-- The claim is let go where nothing of the send is on its way. -/
theorem safe_release {h : String → Prop} (hm : Rests k h m) :
    Safe transmissionDiscipline (release k) (fun _ _ _ => True) h m := by
  obtain ⟨rfl, events, hidle, hm⟩ := hm
  unfold release
  refine safe_bind (safe_catching (safe_statement ?_ ?_))
  · exact fun t d hrely => trivial
  · intro t d hrely hs _
    have hm₁ := hm.rely hrely
    refine ⟨?_, trivial, trivial⟩
    match hclaim : d.claim with
    | none =>
      exact @commits_release t d k d.claim hs hm₁.drawn (.inl ⟨rfl, by simp [hclaim]⟩)
        (hm₁.idle hidle)
    | some row =>
      by_cases hrow : row.token = k
      · simp only [hrow, if_true]
        refine commits_release hs hm₁.drawn (.inr ⟨rfl, ?_⟩) (hm₁.idle hidle)
        intro r hr
        obtain rfl := Option.some.inj (hclaim.symm.trans hr)
        exact hrow
      · simp only [hrow, if_false]
        refine commits_release hs hm₁.drawn (.inl ⟨rfl, ?_⟩) (hm₁.idle hidle)
        intro r hr
        obtain rfl := Option.some.inj (hclaim.symm.trans hr)
        exact hrow

/-- The claim taken outlasts the deadline of the send that takes it. -/
theorem safe_take {now : Int} (hm : Recorded k [] m) (hnow : now ≤ m.1) :
    Safe transmissionDiscipline (take k now) (fun a h m => match a with
      | .ok _ => h = only k ∧ Holding k (now + CLAIM_TTL_MS) [] m
      | .error _ => True) (only k) m := by
  unfold take
  refine safe_bind (safe_statement (fun _ _ _ => trivial) fun t d hrely hs _ => ?_)
  have hm₁ := hm.rely hrely
  have hle : now ≤ t := le_trans hnow hrely.le
  have htaken : Holding k (now + CLAIM_TTL_MS) [] (t, { d with
      claim := some ⟨k, now + CLAIM_TTL_MS⟩ }) := ⟨⟨hm₁.drawn, hm₁.mine⟩, fun _ => rfl⟩
  match hclaim : d.claim with
  | none =>
    refine ⟨commits_take hs hm₁.drawn ?_, ⟨rfl, htaken⟩, trivial⟩
    intro row hrow
    rw [hclaim] at hrow
    cases hrow
  | some row =>
    by_cases hexpired : row.expiresAt ≤ now
    · simp only [hexpired, if_true]
      refine ⟨commits_take hs hm₁.drawn ?_, ⟨rfl, htaken⟩, trivial⟩
      intro r hr
      obtain rfl := Option.some.inj (hclaim.symm.trans hr)
      exact le_trans hexpired hle
    · simp only [hexpired, if_false]
      exact ⟨.refl hs, trivial, trivial⟩

theorem safe_checkDuty {deadline : Int} {h : String → Prop} (hm : Recorded k [] m)
    (hh : h = only k) :
    Safe transmissionDiscipline (checkDuty deadline) (fun _ h m => h = only k ∧ Recorded k [] m)
      h m := by
  subst hh
  unfold checkDuty
  refine safe_bind (safe_reading fun t d hrely => ?_)
  have hm₁ := hm.rely hrely
  refine ⟨?_, rfl, hm₁⟩
  cases d.recorded with
  | false => exact ⟨rfl, hm₁⟩
  | true => exact safe_throwIfAborted fun t' d' _ hrely' => ⟨rfl, hm₁.rely hrely'⟩

/-- A send that begins now. -/
theorem safe_transmit {zone : Zone} {available : Bool} :
    SafeCall transmissionDiscipline (transmit zone available) := by
  intro t₀ d₀ _
  unfold transmit
  split_ifs
  · refine safe_clock_bind fun now d₁ _ => safe_clock_bind fun begun d₂ _ => ?_
    unfold randomToken
    refine safe_bind (safe_ask_bind fun t₃ d₃ w hrely₃ hs hnew => ⟨only w.token,
      commits_draw hs hnew, ?_⟩)
    have hmine : d₃.mine w.token = [] := by
      rw [Duty.mine, List.filter_eq_nil_iff]
      intro x hx hsender
      exact hnew (hs.logDrawn x hx _ (by simpa using hsender))
    have hm₃ : Recorded w.token [] (t₃, { d₃ with drawn := w.token :: d₃.drawn }) :=
      ⟨List.mem_cons_self, hmine⟩
    have hbegun : begun ≤ t₃ := hrely₃.le
    refine safe_bind (Safe.mono ?_ ((safe_checkDuty hm₃ rfl).since hbegun))
    rintro a h m₄ ⟨hbegun₄, rfl, hm₄⟩
    cases a with
    | error _ => trivial
    | ok _ =>
      refine safe_clock_bind fun takenAt d₅ hrely₅ => ?_
      have hle : begun ≤ takenAt := le_trans hbegun₄ hrely₅.le
      have hexpires : begun + SUBMIT_DEADLINE_MS < takenAt + CLAIM_TTL_MS := by
        unfold CLAIM_TTL_MS
        omega
      refine safe_bind (Safe.mono ?_ (safe_take (hm₄.rely hrely₅) le_rfl))
      intro a h m₆ ha
      cases a with
      | error _ => trivial
      | ok _ =>
        obtain ⟨rfl, hm₆⟩ := ha
        refine safe_bind (safe_catching (Safe.mono ?_ (safe_prepareTaken hm₆)))
        intro a h m₇ ha
        cases a with
        | error e =>
          refine safe_bind (Safe.mono ?_ (safe_release ha))
          intro a _ _ _
          cases a <;> trivial
        | ok triggeredOn =>
          obtain ⟨rfl, events, hdisclosed, hm₇⟩ := ha
          refine safe_bind (safe_catching (Safe.mono ?_ (safe_handOver hm₇ hdisclosed hexpires)))
          intro a h m₈ hrests
          refine safe_bind (Safe.mono ?_ (safe_release hrests))
          intro b _ _ _
          cases b <;> cases a <;> trivial
  · trivial

end Send

/-! ### Every run -/

/-- A duty before any send: what its log holds is no hand-over. -/
structure Unsent (d : Duty) : Prop where
  drawn : d.drawn.Nodup
  claimDrawn : ∀ row ∈ d.claim, row.token ∈ d.drawn
  logDrawn : ∀ e ∈ d.log, ∀ k ∈ e.sender, k ∈ d.drawn
  noHandOver : ∀ e ∈ d.log, e.isHandOver = false

theorem preceded_of_noHandOver : ∀ {log : List Event}, (∀ e ∈ log, e.isHandOver = false) →
    Preceded log
  | [], _ => trivial
  | e :: _, h => preceded_cons (h e List.mem_cons_self) (preceded_of_noHandOver fun x hx =>
      h x (List.mem_cons_of_mem _ hx))

theorem Unsent.sound {d : Duty} (h : Unsent d) (t : Int) : Sound t d := by
  refine ⟨h.drawn, h.claimDrawn, h.logDrawn, ?_, ?_, preceded_of_noHandOver h.noHandOver⟩
  · intro k
    rw [List.filter_eq_nil_iff.mpr]
    · exact Nat.zero_le 1
    · intro x hx
      rw [h.noHandOver x (Duty.mem_mine.mp hx).1]
      exact Bool.false_ne_true
  · intro k begun at_ hover
    cases h.noHandOver _ hover

/-- Hand-overs that have not ended are under one claim, and a send hands over once. -/
theorem Sound.outstanding_le_one {t : Int} {d : Duty} (h : Sound t d) :
    (d.outstanding t).length ≤ 1 := by
  have hopen : ∀ x ∈ d.outstanding t, x.isHandOver = true ∧
      ∃ e k, x.sender = some k ∧ d.claim = some ⟨k, e⟩ := by
    intro x hx
    obtain ⟨hlog, hopen⟩ := List.mem_filter.mp hx
    cases x with
    | handedOver k begun at_ =>
      simp only [decide_eq_true_eq] at hopen
      obtain ⟨e, hclaim, _⟩ := h.held k begun at_ hlog hopen.1 hopen.2
      exact ⟨rfl, e, k, rfl, hclaim⟩
    | _ => cases hopen
  match hclaim : d.claim with
  | none =>
    have hnil : d.outstanding t = [] := by
      refine List.eq_nil_iff_forall_not_mem.mpr fun x hx => ?_
      obtain ⟨_, _, _, _, hsome⟩ := hopen x hx
      rw [hclaim] at hsome
      cases hsome
    rw [hnil]
    exact Nat.zero_le 1
  | some row =>
    refine le_trans (List.Sublist.length_le ?_) (h.once row.token)
    have hsub : (d.outstanding t).Sublist d.log := List.filter_sublist
    have hfilter := (hsub.filter fun e => e.sender = some row.token).filter Event.isHandOver
    have hall : ((d.outstanding t).filter fun e => e.sender = some row.token) =
        d.outstanding t := by
      rw [List.filter_eq_self]
      intro x hx
      obtain ⟨_, e, k, hk, hsome⟩ := hopen x hx
      rw [hclaim] at hsome
      rw [hk, Option.some.inj hsome]
      simp
    have hall' : (d.outstanding t).filter Event.isHandOver = d.outstanding t := by
      rw [List.filter_eq_self]
      exact fun x hx => (hopen x hx).1
    rw [hall, hall'] at hfilter
    exact hfilter

/-- A hand-over in the log, with what came before it. -/
theorem Preceded.of_split {token : String} {begun handedOverAt : Int} {past : List Event} :
    ∀ {later : List Event},
      Preceded (later ++ .handedOver token begun handedOverAt :: past) →
        (∃ personIds, .transmitted token personIds ∈ past ∧
          (personIds ≠ [] → .revealed token personIds ∈ past)) ∧
        (∀ e ∈ past, e.isMade = false) ∧ handedOverAt < begun + SUBMIT_DEADLINE_MS
  | [], h => h.1
  | e :: later, h => by
    have hrest : Preceded (later ++ .handedOver token begun handedOverAt :: past) := by
      cases e with
      | handedOver _ _ _ => exact h.2
      | _ => exact h
    exact of_split hrest

/-- **Sends of one duty beside each other.**  However many there are, wherever one stops and
whatever the port and the database answer: at most one hand-over is outstanding at any time, each
comes after its disclosure entries, after no receipt and before its own send's deadline, and a
claim is let go by the send that took it.  A hand-over is taken to be over at its send's deadline,
whether or not the port has answered by then. -/
theorem transmit_safe {zone : Zone} {d : Duty} {t : Int} {c : Config Duty World TransmissionError}
    (hd : Unsent d) (hrun : Reaches (transmitCalls zone) (.quiet d t) c) :
    (c.store.outstanding c.clock).length ≤ 1 ∧
    (∀ later token begun handedOverAt past,
      c.store.log = later ++ .handedOver token begun handedOverAt :: past →
        (∃ personIds, .transmitted token personIds ∈ past ∧
          (personIds ≠ [] → .revealed token personIds ∈ past)) ∧
        (∀ e ∈ past, e.isMade = false) ∧ handedOverAt < begun + SUBMIT_DEADLINE_MS) ∧
    c.store.drawn.Nodup ∧
    ∀ c', Step (transmitCalls zone) c c' → c'.store.claim = none →
      ∀ row ∈ c.store.claim, c'.store.log = .letGo row.token :: c.store.log := by
  have hcalls : ∀ p, transmitCalls zone p → SafeCall transmissionDiscipline p := by
    rintro p ⟨available, rfl⟩
    exact safe_transmit
  have hsound : Sound c.clock c.store := inv_of_reaches hcalls (hd.sound t) hrun
  refine ⟨hsound.outstanding_le_one, ?_, hsound.drawn, ?_⟩
  · intro later token begun handedOverAt past hlog
    have hpreceded := hsound.preceded
    rw [hlog] at hpreceded
    exact hpreceded.of_split
  · intro c' hstep hnone row hrow
    rcases allowed_of_reaches hcalls (hd.sound t) hrun hstep with hsame | hallowed
    · rw [hsame] at hnone
      rw [hnone] at hrow
      cases hrow
    · exact hallowed hnone row hrow

/-- A duty just recorded. -/
def newDuty : Duty := ⟨true, none, none, [], []⟩

/-- A duty whose report one send has handed over. -/
def handedDuty : Duty where
  recorded := true
  triggeredOn := none
  claim := some ⟨"a", CLAIM_TTL_MS⟩
  drawn := ["a"]
  log := [.handedOver "a" 0 0, .revealed "a" ["p"], .transmitted "a" ["p"]]

theorem leads_handedDuty : Leads 0 (transmit utc true)
    (List.replicate 17 ⟨"a", .answered, false, .report ["p"], .unreadable⟩) newDuty
    handedDuty := by
  simp [Leads, transmit, clock, randomToken, checkDuty, take, prepareTaken, throwIfAborted,
    reveal, record, statement, transacted, handOver, startSubmit, atomic, ask, bind, Prog.bind, pure,
    Prog.catching, List.replicate, newDuty, handedDuty, Duty.push, SUBMIT_DEADLINE_MS]

/-- A hand-over that has not been answered is the only one. -/
theorem transmit_safe_handedDuty :
    handedDuty.outstanding 0 = [.handedOver "a" 0 0] ∧ (handedDuty.outstanding 0).length ≤ 1 := by
  have hunsent : Unsent newDuty :=
    ⟨List.nodup_nil, by simp [newDuty], by simp [newDuty], by simp [newDuty]⟩
  have hcall : transmitCalls utc (transmit utc true) := ⟨true, rfl⟩
  exact ⟨by decide, (transmit_safe hunsent (reaches_call hcall leads_handedDuty)).1⟩

end OpenBrf.Registers.Transmission
