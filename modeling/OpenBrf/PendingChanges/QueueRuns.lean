import OpenBrf.PendingChanges.QueueInterleaving

/-!
# PendingChanges.QueueRuns — a held call in every history

Whatever confirmations, rejections, sweeps and purges come beside each other, and wherever they
stop: the action of a change is called again only once it has refused, and never for a change that
has been rejected or confirmed, or was past its expiry when it was claimed.
-/

namespace OpenBrf.PendingChanges

open Async PendingStore

variable {carriesNumber : String → Bool} {id : String} {token : ℕ} {log earlier : List Entry}

/-! ### Where the texts of an input stand -/

mutual

/-- A text somewhere in a value. -/
inductive HasText (text : String) : Json → Prop
  | string : HasText text (.string text)
  | array {items : List Json} : ItemHasText text items → HasText text (.array items)
  | object {entries : List (String × Json)} : EntryHasText text entries →
      HasText text (.object entries)

inductive ItemHasText (text : String) : List Json → Prop
  | head {item : Json} {items : List Json} : HasText text item → ItemHasText text (item :: items)
  | tail {item : Json} {items : List Json} : ItemHasText text items →
      ItemHasText text (item :: items)

inductive EntryHasText (text : String) : List (String × Json) → Prop
  | head {key : String} {item : Json} {entries : List (String × Json)} : HasText text item →
      EntryHasText text ((key, item) :: entries)
  | tail {entry : String × Json} {entries : List (String × Json)} : EntryHasText text entries →
      EntryHasText text (entry :: entries)

end

mutual

/-- **No text** of an input in which no path is found carries a personal identity number. -/
theorem clean_of_walk {text : String} : ∀ {input : Json} {path : List PathStep},
    walk carriesNumber path input = [] → HasText text input → carriesNumber text = false
  | .string _, _, hwalk, .string => by
    unfold walk at hwalk
    split_ifs at hwalk with hcarries
    exact Bool.eq_false_iff.mpr hcarries
  | .array items, _, hwalk, .array h => clean_of_walkItems hwalk h
  | .object entries, _, hwalk, .object h => clean_of_walkEntries hwalk h

theorem clean_of_walkItems {text : String} : ∀ {items : List Json} {path : List PathStep}
    {index : ℕ}, walkItems carriesNumber path index items = [] → ItemHasText text items →
      carriesNumber text = false
  | _ :: _, _, _, hwalk, .head h => clean_of_walk (List.append_eq_nil_iff.mp hwalk).1 h
  | _ :: _, _, _, hwalk, .tail h => clean_of_walkItems (List.append_eq_nil_iff.mp hwalk).2 h

theorem clean_of_walkEntries {text : String} : ∀ {entries : List (String × Json)}
    {path : List PathStep}, walkEntries carriesNumber path entries = [] →
      EntryHasText text entries → carriesNumber text = false
  | (_, _) :: _, _, hwalk, .head h => clean_of_walk (List.append_eq_nil_iff.mp hwalk).1 h
  | (_, _) :: _, _, hwalk, .tail h => clean_of_walkEntries (List.append_eq_nil_iff.mp hwalk).2 h

end

/-! ### A call of the action -/

/-- What there is before the action of a change is called. -/
structure MayCall (carriesNumber : String → Bool) (id : String) (token : ℕ) (actionName : String)
    (input : Json) (earlier : List Entry) : Prop where
  /-- It is as it was proposed, and its proposer claimed it before its expiry. -/
  claimed : ∃ row takesNumber dispatchedAt, .proposed row takesNumber ∈ about id earlier ∧
    row.actionName = actionName ∧ row.input = input ∧
    .claimed token row.proposedByPersonId dispatchedAt ∈ about id earlier ∧
    dispatchedAt < row.expiresAt ∧
    (takesNumber = true ∨ ∀ text, HasText text input → carriesNumber text = false)
  refused : AllRefused (about id earlier)
  notEnded : NotEnded (about id earlier)

theorem Orderly.of_suffix : ∀ {log earlier : List Entry}, Orderly carriesNumber log →
    earlier <:+ log → Orderly carriesNumber earlier
  | [], _, _, hsuffix => by
    rw [List.suffix_nil.mp hsuffix]
    trivial
  | entry :: log, earlier, h, hsuffix => by
    rcases List.suffix_cons_iff.mp hsuffix with rfl | hsuffix
    · exact h
    · exact h.2.of_suffix hsuffix

/-- A change is proposed once. -/
theorem Orderly.proposed_unique (h : Orderly carriesNumber log) {row row' : PendingChange}
    {takesNumber takesNumber' : Bool} (hproposed : .proposed row takesNumber ∈ about id log)
    (hproposed' : .proposed row' takesNumber' ∈ about id log) :
    row' = row ∧ takesNumber' = takesNumber := by
  induction log with
  | nil => cases hproposed
  | cons entry log ih =>
    obtain ⟨hfollows, horderly⟩ := h
    have hfirst : ∀ {row takesNumber}, entry = ⟨id, .proposed row takesNumber⟩ →
        ∀ {row' takesNumber'}, ⟨id, .proposed row' takesNumber'⟩ ∉ log := by
      rintro row takesNumber rfl row' takesNumber' hmem
      exact hfollows.1 _ hmem rfl
    rcases List.mem_cons.mp (mem_about.mp hproposed).1 with heq | hmem
    · rcases List.mem_cons.mp (mem_about.mp hproposed').1 with heq' | hmem'
      · obtain ⟨rfl, rfl⟩ := Act.proposed.inj (Entry.mk.inj (heq.trans heq'.symm)).2
        exact ⟨rfl, rfl⟩
      · exact absurd hmem' (hfirst heq.symm)
    · rcases List.mem_cons.mp (mem_about.mp hproposed').1 with heq' | hmem'
      · exact absurd hmem (hfirst heq'.symm)
      · exact ih horderly (mem_about.mpr ⟨hmem, rfl⟩) (mem_about.mpr ⟨hmem', rfl⟩)

theorem Orderly.mayCall (h : Orderly carriesNumber log) {actionName : String} {input : Json}
    (hcalled : ⟨id, .handedOver token actionName input⟩ :: earlier <:+ log) :
    MayCall carriesNumber id token actionName input earlier := by
  obtain ⟨⟨⟨personId, dispatchedAt, hclaimed⟩, ⟨row, takesNumber, hproposed, haction, hinput⟩,
    hrefused, hnotEnded⟩, horderly⟩ := h.of_suffix hcalled
  obtain ⟨before, hsuffix, -, ⟨row', takesNumber', hproposed', rfl, hnow⟩, -⟩ :=
    horderly.follows (mem_about.mp hclaimed).1
  obtain ⟨rfl, rfl⟩ := horderly.proposed_unique hproposed (about_suffix hsuffix hproposed')
  obtain ⟨_, _, _, _, hclean⟩ := horderly.follows (mem_about.mp hproposed).1
  refine ⟨⟨row', takesNumber', dispatchedAt, hproposed, haction, hinput, hclaimed, hnow, ?_⟩,
    hrefused, hnotEnded⟩
  subst hinput
  exact hclean.imp_right fun hwalk text => clean_of_walk hwalk

/-! ### The runs -/

theorem coherent_empty : Coherent carriesNumber {} where
  ids := .nil
  orderly := trivial
  one _ _ _ h := by
    obtain ⟨_, _, hclaimed⟩ := h.claimed
    cases hclaimed
  rows _ h := absurd h List.not_mem_nil

/-- **The queue in every run**: what is on record of each change is in order, its action is called
only as a change that waits may be, and a change that is shown as waiting has been neither
confirmed, rejected nor swept, with every call of its action refused. -/
theorem queue_of_reaches {t : Int} {c : Config PendingStore Answer PendingFault}
    (hrun : Reaches (PendingCall carriesNumber) (.quiet {} t) c) :
    Orderly carriesNumber c.store.log ∧
    (∀ id token actionName input earlier,
      ⟨id, .handedOver token actionName input⟩ :: earlier <:+ c.store.log →
        MayCall carriesNumber id token actionName input earlier) ∧
    ∀ personId now, ∀ row ∈ mine c.store personId now,
      row.proposedByPersonId = personId ∧ AllRefused (about row.id c.store.log) ∧
        NotEnded (about row.id c.store.log) ∧
        ∀ judgedAt dispatched, ⟨row.id, .expired judgedAt dispatched⟩ ∉ c.store.log := by
  have hs : Coherent carriesNumber c.store :=
    inv_of_reaches (D := queueDiscipline carriesNumber) (fun _ hp => safe_pendingCall hp)
      coherent_empty hrun
  refine ⟨hs.orderly, fun _ _ _ _ _ hcalled => hs.orderly.mayCall hcalled,
    fun personId now row hrow => ?_⟩
  obtain ⟨hmem, hwaits⟩ := List.mem_filter.mp (List.mem_mergeSort.mp hrow)
  simp only [waitingFor, Bool.and_eq_true, decide_eq_true_eq] at hwaits
  have hon := hs.rows row hmem
  exact ⟨hwaits.1.1, (hon.waiting hwaits.2).1, hon.notEnded, hon.unswept⟩

section Refused

def publishing : Json := .object [("id", .string "n1")]

def answering (handled : Handled) : Answer := ⟨"c1", .answered, none, handled, false⟩

def pageMovedOn : Handled := .threw [.domainError "revision-conflict"]

/-- A change to publish a piece of news. -/
def heldChange (dispatchedAt : Option Int) : PendingChange :=
  ⟨"c1", "news_publish", publishing, "p1", .PLUGIN, 0, PENDING_CHANGE_LIFETIME_MS, dispatchedAt⟩

def proposedOnce : PendingStore :=
  ⟨[heldChange none], [⟨"c1", .proposed (heldChange none) false⟩]⟩

/-- The action has refused, and the change waits again. -/
def refusedOnce : PendingStore := ⟨[heldChange none], [⟨"c1", .released 1⟩,
  ⟨"c1", .answered 1 .refused⟩, ⟨"c1", .handedOver 1 "news_publish" publishing⟩,
  ⟨"c1", .claimed 1 "p1" 0⟩, ⟨"c1", .proposed (heldChange none) false⟩]⟩

/-- Its action is called again. -/
def calledAgain : PendingStore := ⟨[heldChange (some 0)],
  ⟨"c1", .handedOver 5 "news_publish" publishing⟩ :: ⟨"c1", .claimed 5 "p1" 0⟩ :: refusedOnce.log⟩

theorem leads_proposedOnce : Leads 0 (propose (fun _ => false) "p1" "news_publish" false publishing
    .PLUGIN) (List.replicate 4 (answering pageMovedOn)) {} proposedOnce :=
  ⟨trivial, trivial, trivial, trivial, rfl⟩

theorem leads_refusedOnce : Leads 0 (confirm "p1" "c1")
    (List.replicate 8 (answering pageMovedOn)) proposedOnce refusedOnce :=
  ⟨trivial, trivial, trivial, trivial, trivial, trivial, trivial, trivial, rfl⟩

theorem leads_calledAgain : Leads 0 (confirm "p1" "c1")
    (List.replicate 6 (answering pageMovedOn)) refusedOnce calledAgain :=
  ⟨trivial, trivial, trivial, trivial, trivial, trivial, rfl⟩

/-- Called once more, as it may be. -/
theorem queue_of_calledAgain : ∃ c : Config PendingStore Answer PendingFault,
    Reaches (PendingCall fun _ => false) (.quiet {} 0) c ∧ c.store = calledAgain ∧
      MayCall (fun _ => false) "c1" 5 "news_publish" publishing c.store.log.tail ∧
      .handedOver 1 "news_publish" publishing ∈ about "c1" c.store.log.tail := by
  have hrun : Reaches (PendingCall fun _ => false) (.quiet {} 0) (.quiet calledAgain 0) :=
    ((reaches_call (.propose "p1" "news_publish" false publishing .PLUGIN) leads_proposedOnce).trans
      (reaches_call (.confirm "p1" "c1") leads_refusedOnce)).trans
      (reaches_call (.confirm "p1" "c1") leads_calledAgain)
  refine ⟨_, hrun, rfl, (queue_of_reaches hrun).2.1 _ _ _ _ _ List.suffix_rfl, ?_⟩
  exact mem_about.mpr ⟨by simp [calledAgain, refusedOnce, Config.quiet], rfl⟩

end Refused

end OpenBrf.PendingChanges
