import OpenBrf.PendingChanges.QueueSafety

/-!
# PendingChanges.QueueInterleaving — proposals, confirmations, rejections and sweeps beside each other
-/

namespace OpenBrf.PendingChanges

open Async PendingStore

section Discipline

variable (carriesNumber : String → Bool)

/-- What the statements keep: what is on record of a change is its claim's alone to add to. -/
def queueDiscipline : Discipline PendingStore ℕ where
  inv _ s := Coherent carriesNumber s
  free token s := s.log.length ≤ token
  always m m' := m.2.log <:+ m'.2.log
  keeps token m m' := ∀ id, Open token (about id m.2.log) → about id m'.2.log = about id m.2.log
  allowed _ _ := True
  inv_tick _ h := h
  always_tick _ := List.suffix_rfl
  keeps_tick _ _ _ := rfl
  allowed_refl _ := trivial
  always_trans _ _ h h' := h.trans h'
  keeps_trans _ _ h h' id hopen := by
    have hsame := h id hopen
    rw [← hsame] at hopen
    exact (h' id hopen).trans hsame
  free_of_always h hfree := h.length_le.trans hfree

end Discipline

variable {carriesNumber : String → Bool} {id : String} {act : Act} {s s' : PendingStore} {t : Int}
  {token : ℕ} {h h' : ℕ → Prop} {m : Moment PendingStore} {β : Type}

/-- A statement that records one entry. -/
theorem commits_entry (hs' : Coherent carriesNumber s') (hlog : s'.log = ⟨id, act⟩ :: s.log)
    (hopen : ∀ token, ¬ h' token → ¬ Open token (about id s.log))
    (htaken : ∀ token, h' token → h token ∨ token = s.log.length) :
    (queueDiscipline carriesNumber).Commits h h' (t, s) (t, s') := by
  refine ⟨hs', ?_, fun token htoken other hother => ?_, trivial, fun token htoken => ?_⟩
  · show s.log <:+ s'.log
    rw [hlog]
    exact List.suffix_cons _ _
  · show about other s'.log = about other s.log
    rw [hlog]
    refine about_of_ne ?_
    rintro rfl
    exact hopen token htoken hother
  · refine (htaken token htoken).imp_right fun heq => ?_
    subst heq
    refine ⟨le_refl _, fun hle => ?_⟩
    change s'.log.length ≤ s.log.length at hle
    rw [hlog] at hle
    exact absurd hle (Nat.not_succ_le_self _)

/-- A statement that records nothing, or that rows are swept. -/
theorem commits_swept (hs' : Coherent carriesNumber s') (hsuffix : s.log <:+ s'.log)
    (habout : ∀ id, about id s'.log = about id s.log) :
    (queueDiscipline carriesNumber).Commits h h (t, s) (t, s') :=
  ⟨hs', hsuffix, fun _ _ id _ => habout id, trivial, fun _ => .inl⟩

/-! ### The statements -/

/-- A statement that fails before it commits, or whose answer is lost. -/
theorem safe_statement {f : Int → PendingStore → β × PendingStore}
    {Q : Except PendingFault β → (ℕ → Prop) → Moment PendingStore → Prop}
    (hf : ∀ t s, (queueDiscipline carriesNumber).Rely h m (t, s) → Coherent carriesNumber s →
      ∃ h', (queueDiscipline carriesNumber).Commits h h' (t, s) (t, (f t s).2) ∧
        Q (.ok (f t s).1) h' (t, (f t s).2) ∧ Q (.error .database) h' (t, (f t s).2))
    (hfailed : ∀ t s, (queueDiscipline carriesNumber).Rely h m (t, s) → Coherent carriesNumber s →
      Q (.error .database) h (t, s)) :
    Safe (queueDiscipline carriesNumber) (statement f) Q h m :=
  safe_transacted hfailed fun t s hrely hinv _ => hf t s hrely hinv

/-- A statement that reads. -/
theorem safe_query {f : Int → PendingStore → β}
    {Q : Except PendingFault β → (ℕ → Prop) → Moment PendingStore → Prop}
    (hf : ∀ t s, (queueDiscipline carriesNumber).Rely h m (t, s) → Coherent carriesNumber s →
      Q (.ok (f t s)) h (t, s))
    (herror : ∀ m, Q (.error .database) h m) :
    Safe (queueDiscipline carriesNumber) (statement fun t s => (f t s, s)) Q h m :=
  safe_statement (fun t s hrely hinv => ⟨h, .refl hinv, hf t s hrely hinv, herror _⟩)
    fun _ _ _ _ => herror _

theorem safe_asked {f : Answer → β}
    {Q : Except PendingFault β → (ℕ → Prop) → Moment PendingStore → Prop}
    (hf : ∀ t s a, (queueDiscipline carriesNumber).Rely h m (t, s) → Q (.ok (f a)) h (t, s)) :
    Safe (queueDiscipline carriesNumber) (asked f) Q h m :=
  fun t s a hrely hinv _ => ⟨h, .refl hinv, hf t s a hrely⟩

theorem safe_registryCheck {Q : Except PendingFault Unit → (ℕ → Prop) → Moment PendingStore → Prop}
    (hok : ∀ t s, (queueDiscipline carriesNumber).Rely h m (t, s) → Q (.ok ()) h (t, s))
    (herror : ∀ e m, Q (.error e) h m) :
    Safe (queueDiscipline carriesNumber) registryCheck Q h m := by
  unfold registryCheck
  refine safe_bind (safe_asked fun t s a hrely => ?_)
  dsimp only
  split
  · exact hok t s hrely
  · exact herror _ _

/-! ### A confirmation that has its claim -/

/-- The right of a claim. -/
abbrev Has (token : ℕ) : ℕ → Prop := fun token' => token' = token

theorem about_of_rely {acts : List Act} {personId : String} {dispatchedAt : Int}
    (hacts : about id m.2.log = acts) (hmine : Mine token personId dispatchedAt acts)
    (hrely : (queueDiscipline carriesNumber).Rely (Has token) m (t, s)) : about id s.log = acts := by
  have hopen := hmine.opened
  rw [← hacts] at hopen
  exact (hrely.keeps token rfl id hopen).trans hacts

/-- What the confirmation that has the claim records, whatever becomes of the answer. -/
theorem commits_mine (hs : Coherent carriesNumber s) {personId : String} {dispatchedAt : Int}
    (hmine : Mine token personId dispatchedAt (about id s.log)) (hs' : Coherent carriesNumber s')
    (hlog : s'.log = ⟨id, act⟩ :: s.log) :
    (queueDiscipline carriesNumber).Commits (Has token) (Has token) (t, s) (t, s') :=
  commits_entry hs' hlog (fun _ hne hopen => hne (hs.one id _ _ hopen hmine.opened))
    fun _ h => .inl h

theorem safe_conclude {acts : List Act} {personId : String} {dispatchedAt : Int}
    (hacts : about id m.2.log = acts) (hmine : Mine token personId dispatchedAt acts)
    (answer : Except Thrown Unit) (hanswered : .answered token (outcomeOf answer) ∈ acts) :
    Safe (queueDiscipline carriesNumber) (conclude personId id dispatchedAt token answer)
      (fun _ _ _ => True) (Has token) m := by
  have hend : ∀ failure, recordedOutcome failure = outcomeOf answer →
      ∀ {Q : Except PendingFault (Except PendingFault Unit) → (ℕ → Prop) → Moment PendingStore →
        Prop}, (∀ e m, Q (.ok e) (Has token) m) →
      Safe (queueDiscipline carriesNumber) (endChange id personId failure).catching Q
        (Has token) m := by
    intro failure houtcome Q hQ
    refine safe_catching (safe_statement (fun t s hrely hs => ?_) fun _ _ _ _ => hQ _ _)
    have hsame := about_of_rely hacts hmine hrely
    have hown : Mine token personId dispatchedAt (about id s.log) := by
      rw [hsame]
      exact hmine
    have hfollows : Follows carriesNumber ⟨id, .confirmed personId failure⟩ s.log := by
      refine ⟨hown.notEnded, token, dispatchedAt, hown.claimed, ?_⟩
      rw [hsame, houtcome]
      exact hanswered
    exact ⟨Has token, commits_mine hs hown (hs.ended hfollows rfl fun _ _ _ => nofun) rfl,
      hQ _ _, hQ _ _⟩
  match answer with
  | .ok () =>
    unfold conclude
    refine safe_bind (hend none rfl fun e m => ?_)
    dsimp only
    split <;> trivial
  | .error thrown =>
    show Safe _ (if isRefusal thrown = true then _ else _) _ _ _
    split_ifs with hrefusal
    · refine safe_bind (safe_catching (safe_statement (fun t s hrely hs => ?_)
        fun _ _ _ _ => trivial))
      have hsame := about_of_rely hacts hmine hrely
      have hown : Mine token personId dispatchedAt (about id s.log) := by
        rw [hsame]
        exact hmine
      have hrefused : .answered token .refused ∈ about id s.log := by
        rw [hsame]
        rwa [show outcomeOf (.error thrown) = .refused from if_pos hrefusal] at hanswered
      exact ⟨Has token, commits_mine hs hown (hs.released hown hrefused) rfl, trivial, trivial⟩
    · refine safe_bind (hend (some (failureOf thrown)) ?_ fun _ _ => trivial)
      exact (if_neg hrefusal).symm

theorem Mine.handedOver {acts : List Act} {personId : String} {dispatchedAt : Int}
    (hmine : Mine token personId dispatchedAt acts) (actionName : String) (input : Json) :
    Mine token personId dispatchedAt (.handedOver token actionName input :: acts) where
  claimed := List.mem_cons_of_mem _ hmine.claimed
  standing hmem := hmine.standing ((List.mem_cons.mp hmem).resolve_left fun heq => by cases heq)
  notEnded := hmine.notEnded.cons (fun _ _ heq => by cases heq) fun _ _ heq => by cases heq
  others token' actionName' input' hne hmem := by
    rcases List.mem_cons.mp hmem with heq | hmem
    · exact absurd (Act.handedOver.inj heq).1 hne
    · exact List.mem_cons_of_mem _ (hmine.others token' actionName' input' hne hmem)

theorem Mine.answered {acts : List Act} {personId : String} {dispatchedAt : Int}
    (hmine : Mine token personId dispatchedAt acts) (outcome : Outcome) :
    Mine token personId dispatchedAt (.answered token outcome :: acts) where
  claimed := List.mem_cons_of_mem _ hmine.claimed
  standing hmem := hmine.standing ((List.mem_cons.mp hmem).resolve_left fun heq => by cases heq)
  notEnded := hmine.notEnded.cons (fun _ _ heq => by cases heq) fun _ _ heq => by cases heq
  others token' actionName' input' hne hmem := List.mem_cons_of_mem _
    (hmine.others token' actionName' input' hne
      ((List.mem_cons.mp hmem).resolve_left fun heq => by cases heq))

/-- What was proposed, as far as its action is handed it. -/
def Proposed (held : PendingChange) (acts : List Act) : Prop :=
  ∃ row takesNumber, .proposed row takesNumber ∈ acts ∧ row.actionName = held.actionName ∧
    row.input = held.input

/-- **A call of the action**, and what it answers. -/
theorem safe_handOver {acts : List Act} {personId : String} {dispatchedAt : Int}
    {held : PendingChange} (hacts : about id m.2.log = acts)
    (hmine : Mine token personId dispatchedAt acts)
    (huncalled : ∀ actionName input, .handedOver token actionName input ∉ acts)
    (hunanswered : ∀ outcome, .answered token outcome ∉ acts) (hheld : Proposed held acts)
    {Q : Except PendingFault (Except Thrown Unit) → (ℕ → Prop) → Moment PendingStore → Prop}
    (hQ : ∀ answer t s, about id s.log = .answered token (outcomeOf answer) ::
      .handedOver token held.actionName held.input :: acts → Q (.ok answer) (Has token) (t, s)) :
    Safe (queueDiscipline carriesNumber) (handOver id token held) Q (Has token) m := by
  unfold handOver
  refine safe_update_bind fun t s hrely hs => ?_
  have hsame := about_of_rely hacts hmine hrely
  subst hsame
  have hfollows : Follows carriesNumber
      ⟨id, .handedOver token held.actionName held.input⟩ s.log := by
    refine ⟨⟨personId, dispatchedAt, hmine.claimed⟩, hheld, ?_, hmine.notEnded⟩
    intro token' actionName input hcalled
    refine hmine.others token' actionName input ?_ hcalled
    rintro rfl
    exact huncalled actionName input hcalled
  have hcalled := hmine.handedOver held.actionName held.input
  have hs' := hs.recorded hmine hfollows rfl (fun _ _ _ => nofun) (fun _ => nofun) hcalled.notEnded
  refine ⟨Has token, commits_mine hs hmine hs' rfl, fun t' s₁ a hrely₁ hs₁ _ => ?_⟩
  -- nobody else adds to what is on record of the change while it is called
  have hsame₁ := about_of_rely (about_self rfl) hcalled hrely₁
  have hanswered := hcalled.answered (outcomeOf a.handled.answer)
  rw [← hsame₁] at hcalled hanswered
  have hfollows₁ : Follows carriesNumber
      ⟨id, .answered token (outcomeOf a.handled.answer)⟩ s₁.log := by
    refine ⟨⟨held.actionName, held.input, ?_⟩, fun outcome hmem => ?_⟩
    · rw [hsame₁]
      exact List.mem_cons_self
    · rw [hsame₁] at hmem
      exact hunanswered outcome ((List.mem_cons.mp hmem).resolve_left fun heq => by cases heq)
  have hs₂ := hs₁.recorded hcalled hfollows₁ rfl (fun _ _ _ => nofun) (fun _ => nofun)
    hanswered.notEnded
  refine ⟨Has token, commits_mine hs₁ hcalled hs₂ rfl, hQ _ _ _ ?_⟩
  rw [record_log, about_self rfl, hsame₁]

theorem Proposed.later {held : PendingChange} {m' : Moment PendingStore}
    (hheld : Proposed held (about id m.2.log))
    (hrely : (queueDiscipline carriesNumber).Rely h m m') : Proposed held (about id m'.2.log) := by
  obtain ⟨row, takesNumber, hproposed, hsame⟩ := hheld
  exact ⟨row, takesNumber, about_suffix hrely.always hproposed, hsame⟩

theorem Proposed.cons {held : PendingChange} {acts : List Act} (hheld : Proposed held acts) :
    Proposed held (act :: acts) := by
  obtain ⟨row, takesNumber, hproposed, hsame⟩ := hheld
  exact ⟨row, takesNumber, List.mem_cons_of_mem _ hproposed, hsame⟩

/-- **A claim** is a right nobody has had. -/
theorem safe_claim {personId : String} {dispatchedAt : Int} {held : PendingChange}
    (hheld : Proposed held (about id m.2.log))
    {Q : Except PendingFault (Option ℕ) → (ℕ → Prop) → Moment PendingStore → Prop}
    (herror : ∀ h m, Q (.error .database) h m) (hnone : ∀ h m, Q (.ok none) h m)
    (hclaimed : ∀ token t s, Mine token personId dispatchedAt (about id s.log) →
      (∀ actionName input, .handedOver token actionName input ∉ about id s.log) →
      (∀ outcome, .answered token outcome ∉ about id s.log) → Proposed held (about id s.log) →
      Q (.ok (some token)) (Has token) (t, s)) :
    Safe (queueDiscipline carriesNumber) (claim personId id dispatchedAt) Q (fun _ => False) m := by
  refine safe_statement (fun t s hrely hs => ?_) fun _ _ _ _ => herror _ _
  cases hfound : s.findWaiting personId id dispatchedAt with
  | none =>
    exact ⟨fun _ => False, .refl hs, hnone _ _, herror _ _⟩
  | some row =>
    obtain ⟨hs', hopen, hmine⟩ := hs.claimed hfound
    have habout : about id (s.claimed personId id dispatchedAt).log =
        .claimed s.log.length personId dispatchedAt :: about id s.log := about_self rfl
    have hunused := hs.orderly.unused id
    refine ⟨Has s.log.length, commits_entry hs' rfl (fun token _ => hopen token)
      fun token htoken => .inr htoken, ?_, herror _ _⟩
    refine hclaimed s.log.length t (s.claimed personId id dispatchedAt) ?_ ?_ ?_ ?_
    · rw [habout]
      exact hmine
    · intro actionName input hmem
      rw [habout] at hmem
      exact hunused.handedOver actionName input
        ((List.mem_cons.mp hmem).resolve_left fun heq => by cases heq)
    · intro outcome hmem
      rw [habout] at hmem
      exact hunused.answered outcome
        ((List.mem_cons.mp hmem).resolve_left fun heq => by cases heq)
    · rw [habout]
      exact (hheld.later hrely).cons

theorem safe_confirm (personId id : String) :
    SafeCall (queueDiscipline carriesNumber) (confirm personId id) := by
  intro t₀ s₀ _
  unfold confirm
  refine safe_bind (safe_clock fun t₁ s₁ _ => ?_)
  refine safe_bind (safe_query (fun t₂ s₂ _ hs₂ => ?_) fun _ => trivial)
  dsimp only
  split
  · trivial
  · rename_i held hfound
    obtain ⟨hfound, -⟩ := Option.filter_eq_some_iff.mp hfound
    obtain ⟨hrow, rfl, -⟩ := mem_findWaiting hfound
    obtain ⟨takesNumber, hproposed⟩ := (hs₂.rows held hrow).proposed
    have hheld : Proposed held (about held.id s₂.log) := ⟨_, takesNumber, hproposed, rfl, rfl⟩
    refine safe_bind (safe_registryCheck (fun t₃ s₃ hrely₃ => ?_) fun _ _ => trivial)
    refine safe_bind (safe_clock fun dispatchedAt s₄ hrely₄ => ?_)
    refine safe_bind (safe_claim ((hheld.later hrely₃).later hrely₄) (fun _ _ => trivial)
      (fun _ _ => trivial) fun token t₅ s₅ hmine huncalled hunanswered hheld₅ => ?_)
    refine safe_bind (safe_handOver rfl hmine huncalled hunanswered hheld₅ fun answer t₆ s₆ hacts => ?_)
    refine safe_conclude hacts ((hmine.handedOver _ _).answered _) answer ?_
    exact List.mem_cons_self

/-! ### The others -/

theorem safe_propose (personId actionName : String) (takesNumber : Bool) (input : Json)
    (channel : AuditChannel) : SafeCall (queueDiscipline carriesNumber)
      (propose carriesNumber personId actionName takesNumber input channel) := by
  intro t₀ s₀ _
  unfold propose
  refine safe_bind (safe_clock fun now s₁ _ => ?_)
  refine safe_bind (safe_registryCheck (fun _ _ _ => ?_) fun _ _ => trivial)
  dsimp only
  split_ifs with hrefused
  · trivial
  · have hclean : takesNumber = true ∨ walk carriesNumber [] input = [] := by
      cases takesNumber with
      | true => exact .inl rfl
      | false => exact .inr (not_not.mp fun hpaths => hrefused ⟨rfl, hpaths⟩)
    refine safe_bind (safe_asked fun _ _ a _ => ?_)
    refine safe_bind (safe_statement (fun t s _ hs => ?_) fun _ _ _ _ => trivial)
    have hends : ∀ (created : Bool) (m : Moment PendingStore),
        Safe (queueDiscipline carriesNumber)
          (if created then pure () else fail .uniqueKey : PendingTx Unit) (fun _ _ _ => True)
          (fun _ => False) m := by
      intro created m
      split_ifs <;> trivial
    by_cases htaken : ∃ entry ∈ s.log, entry.id = a.id
    · refine ⟨fun _ => False, ?_, hends _ _, trivial⟩
      rw [if_pos htaken]
      exact .refl hs
    · refine ⟨fun _ => False, ?_, hends _ _, trivial⟩
      have hnew : ∀ entry ∈ s.log, entry.id ≠ a.id := fun entry hentry hid =>
        htaken ⟨entry, hentry, hid⟩
      let row : PendingChange := ⟨a.id, actionName, input, personId, channel, now,
        now + PENDING_CHANGE_LIFETIME_MS, none⟩
      rw [if_neg htaken]
      refine commits_entry (hs.proposed row hnew rfl hclean) rfl (fun _ _ hopen => ?_)
        fun _ => False.elim
      obtain ⟨_, _, hclaimed⟩ := hopen.claimed
      exact hnew _ (mem_about.mp hclaimed).1 rfl

theorem safe_reject (personId id : String) :
    SafeCall (queueDiscipline carriesNumber) (reject personId id) := by
  intro t₀ s₀ _
  unfold reject
  refine safe_bind (safe_clock fun now s₁ _ => ?_)
  refine safe_bind (safe_statement (fun t s _ hs => ?_) fun _ _ _ _ => trivial)
  have hends : ∀ (rejected : Bool) (m : Moment PendingStore),
      Safe (queueDiscipline carriesNumber)
        (if rejected then pure () else fail .notFound : PendingTx Unit) (fun _ _ _ => True)
        (fun _ => False) m := by
    intro rejected m
    split_ifs <;> trivial
  refine ⟨fun _ => False, ?_, hends _ _, trivial⟩
  cases hfound : s.findWaiting personId id now with
  | none => exact .refl hs
  | some row =>
    obtain ⟨hrow, rfl, hperson, hnow, hnone⟩ := mem_findWaiting hfound
    have hon := hs.rows row hrow
    obtain ⟨hrefused, hopen⟩ := hon.waiting hnone
    obtain ⟨takesNumber, hproposed⟩ := hon.proposed
    have hfollows : Follows carriesNumber ⟨row.id, .rejected personId now⟩ s.log :=
      ⟨hon.notEnded, hrefused, _, takesNumber, hproposed, hperson, hnow⟩
    exact commits_entry (hs.ended hfollows rfl fun _ _ _ => nofun) rfl
      (fun token _ => hopen token) fun _ => False.elim

/-- What a sweep has seen of a row it deletes. -/
structure Overdue (now : Int) (row : PendingChange) (log : List Entry) : Prop where
  proposed : ∃ row' takesNumber, .proposed row' takesNumber ∈ about row.id log ∧
    row'.expiresAt ≤ now
  claimed : row.dispatchedAt.isSome = true → ∃ token personId dispatchedAt,
    .claimed token personId dispatchedAt ∈ about row.id log

theorem Overdue.later {now : Int} {row : PendingChange} {log log' : List Entry}
    (hrow : Overdue now row log) (hlog : log <:+ log') : Overdue now row log' := by
  obtain ⟨row', takesNumber, hproposed, hnow⟩ := hrow.proposed
  refine ⟨⟨row', takesNumber, about_suffix hlog hproposed, hnow⟩, fun hsome => ?_⟩
  obtain ⟨token, personId, dispatchedAt, hclaimed⟩ := hrow.claimed hsome
  exact ⟨token, personId, dispatchedAt, about_suffix hlog hclaimed⟩

theorem overdue_of_expiredOf {personId : String} {now : Int} (hs : Coherent carriesNumber s) :
    ∀ row ∈ expiredOf s personId now, Overdue now row s.log := by
  intro row hrow
  obtain ⟨hrow, hdue⟩ := List.mem_filter.mp (List.mem_mergeSort.mp (List.mem_of_mem_take hrow))
  have hnow : row.expiresAt ≤ now := of_decide_eq_true (Bool.and_eq_true_iff.mp hdue).2
  have hon := hs.rows row hrow
  obtain ⟨takesNumber, hproposed⟩ := hon.proposed
  refine ⟨⟨_, takesNumber, hproposed, hnow⟩, fun hsome => ?_⟩
  obtain ⟨dispatchedAt, hat⟩ := Option.isSome_iff_exists.mp hsome
  obtain ⟨token, personId', hclaimed, -⟩ := hon.stamped dispatchedAt hat
  exact ⟨token, personId', dispatchedAt, hclaimed⟩

/-- The entries of a batch, of rows that are gone. -/
theorem coherent_swept {now : Int} : ∀ {expired : List PendingChange} {s : PendingStore},
    Coherent carriesNumber s → (∀ row ∈ expired, ∀ other ∈ s.rows, other.id ≠ row.id) →
    (∀ row ∈ expired, Overdue now row s.log) →
    let s' := expired.foldl (fun s row => s.record row.id (.expired now row.dispatchedAt.isSome)) s
    Coherent carriesNumber s' ∧ s.log <:+ s'.log ∧ ∀ id, about id s'.log = about id s.log
  | [], s, hs, _, _ => ⟨hs, List.suffix_rfl, fun _ => rfl⟩
  | row :: expired, s, hs, hgone, hdue => by
    have hrow := hdue row List.mem_cons_self
    have hs₁ := hs.expired (hgone row List.mem_cons_self) hrow.proposed hrow.claimed
    have hsuffix : s.log <:+ (s.record row.id (.expired now row.dispatchedAt.isSome)).log :=
      List.suffix_cons _ _
    obtain ⟨hs', hlog, habout⟩ := coherent_swept hs₁
      (fun other hother => hgone other (List.mem_cons_of_mem _ hother))
      fun other hother => (hdue other (List.mem_cons_of_mem _ hother)).later hsuffix
    exact ⟨hs', hsuffix.trans hlog, fun id => (habout id).trans (about_expired rfl)⟩

theorem safe_sweepBatch (personId : String) (now : Int)
    {Q : Except PendingFault ℕ → (ℕ → Prop) → Moment PendingStore → Prop} (hQ : ∀ a m, Q a h m) :
    Safe (queueDiscipline carriesNumber) (sweepBatch personId now) Q h m := by
  unfold sweepBatch
  refine safe_bind (safe_asked fun _ _ _ _ => ?_)
  dsimp only
  split_ifs
  · exact hQ _ _
  · refine safe_bind (safe_query (fun t₁ s₁ _ hs₁ => ?_) fun _ => hQ _ _)
    refine safe_statement (fun t s hrely hs => ⟨h, ?_, hQ _ _, hQ _ _⟩) fun _ _ _ _ => hQ _ _
    have hgone : ∀ row ∈ expiredOf s₁ personId now,
        ∀ other ∈ (s.deleteMany ((expiredOf s₁ personId now).map (·.id))).rows,
          other.id ≠ row.id := by
      intro row hrow other hother hid
      have hnot := of_decide_eq_true (List.mem_filter.mp hother).2
      exact hnot (List.mem_map.mpr ⟨row, hrow, hid.symm⟩)
    -- what was due when it was found is due still
    obtain ⟨hs', hlog, habout⟩ := coherent_swept (hs.filter _) hgone
      fun row hrow => (overdue_of_expiredOf hs₁ row hrow).later hrely.always
    exact commits_swept hs' hlog habout

theorem safe_sweepPerson (personId : String) (now : Int)
    {Q : Except PendingFault Unit → (ℕ → Prop) → Moment PendingStore → Prop}
    (hQ : ∀ a m, Q a h m) :
    ∀ (turns : ℕ) (m : Moment PendingStore),
      Safe (queueDiscipline carriesNumber) (sweepPerson personId now turns) Q h m
  | 0, m => hQ _ _
  | turns + 1, m => by
    unfold sweepPerson
    refine safe_bind (safe_sweepBatch personId now fun a m => ?_)
    cases a with
    | error e => exact hQ _ _
    | ok deleted =>
      dsimp only
      split_ifs
      · exact safe_sweepPerson personId now hQ turns m
      · exact hQ _ _

theorem safe_sweepPersons (now : Int) (turns : ℕ) :
    ∀ (personIds : List String) (m : Moment PendingStore),
      Safe (queueDiscipline carriesNumber) (sweepPersons now turns personIds)
        (fun _ _ _ => True) h m
  | [], m => trivial
  | personId :: personIds, m => by
    unfold sweepPersons
    refine safe_bind (safe_sweepPerson personId now (fun a m => ?_) turns m)
    cases a with
    | error e => trivial
    | ok deleted => exact safe_sweepPersons now turns personIds m

theorem safe_sweep (turns : ℕ) :
    SafeCall (queueDiscipline carriesNumber) (sweepExpiredPendingChanges turns) := by
  intro t₀ s₀ _
  unfold sweepExpiredPendingChanges
  refine safe_bind (safe_clock fun now _ _ => ?_)
  refine safe_bind (safe_query (fun _ _ _ _ => ?_) fun _ => trivial)
  exact safe_sweepPersons now turns _ _

theorem safe_purgePerson (personId : String) :
    SafeCall (queueDiscipline carriesNumber) (purgePerson personId) := by
  intro t₀ s₀ _
  unfold purgePerson
  refine safe_statement (fun t s _ hs => ⟨fun _ => False, ?_, trivial, trivial⟩)
    fun _ _ _ _ => trivial
  exact commits_swept (hs.filter _) List.suffix_rfl fun _ => rfl

/-! ### The calls beside each other -/

/-- What is called. -/
inductive PendingCall (carriesNumber : String → Bool) : PendingTx Unit → Prop
  | propose (personId actionName : String) (takesNumber : Bool) (input : Json)
      (channel : AuditChannel) : PendingCall carriesNumber
        (propose carriesNumber personId actionName takesNumber input channel)
  | confirm (personId id : String) : PendingCall carriesNumber (confirm personId id)
  | reject (personId id : String) : PendingCall carriesNumber (reject personId id)
  | sweep (turns : ℕ) : PendingCall carriesNumber (sweepExpiredPendingChanges turns)
  | purgePerson (personId : String) : PendingCall carriesNumber (purgePerson personId)

theorem safe_pendingCall {p : PendingTx Unit} (hp : PendingCall carriesNumber p) :
    SafeCall (queueDiscipline carriesNumber) p := by
  cases hp with
  | propose => exact safe_propose _ _ _ _ _
  | confirm => exact safe_confirm _ _
  | reject => exact safe_reject _ _
  | sweep => exact safe_sweep _
  | purgePerson => exact safe_purgePerson _

end OpenBrf.PendingChanges
