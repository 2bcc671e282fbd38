import OpenBrf.Timeline.Order

/-!
# Timeline.Pairing — openers paired with closers, and the spells they tell of

A walk over events in order pairs the first opener of a stretch with the first closer after it.
`mem_pairUp_iff_spell` says when the pairs are the spells the events are about: each spell opens
and closes with an event of its own, every other opener falls inside a spell, and no two spells
meet.
-/

namespace Timeline

variable {ε : Type}

/-- Pairs openers with closers: an opener while one is open is ignored, and so is a closer with
nothing open. -/
def pairUp (opens : ε → Bool) : Option ε → List ε → List (ε × Option ε)
  | opened, [] => opened.toList.map fun o => (o, none)
  | opened, e :: es =>
    if opens e then pairUp opens (opened.or (some e)) es
    else (opened.toList.map fun o => (o, some e)) ++ pairUp opens none es

section Walk

variable {opens : ε → Bool}

/-- The first closer of a list. -/
def firstCloser (opens : ε → Bool) (es : List ε) : Option ε := es.find? fun e => !opens e

/-- Whether an event that follows `before` finds nothing open. -/
def Fresh (opens : ε → Bool) (opened : Option ε) (before : List ε) : Prop :=
  (before = [] ∧ opened = none) ∨ ∃ l ∈ before.getLast?, opens l = false

theorem firstCloser_cons_of_opens {e : ε} {es : List ε} (he : opens e = true) :
    firstCloser opens (e :: es) = firstCloser opens es := by
  unfold firstCloser
  rw [List.find?_cons_of_neg (by simp [he])]

theorem firstCloser_cons_of_closes {e : ε} {es : List ε} (he : opens e = false) :
    firstCloser opens (e :: es) = some e := by
  unfold firstCloser
  rw [List.find?_cons_of_pos (by simp [he])]

theorem mem_pairUp_opened {o : ε} :
    ∀ es : List ε, (o, firstCloser opens es) ∈ pairUp opens (some o) es
  | [] => by simp [pairUp, firstCloser]
  | e :: es => by
    unfold pairUp
    by_cases he : opens e = true
    · rw [if_pos he, firstCloser_cons_of_opens he]
      exact mem_pairUp_opened es
    · rw [if_neg he, firstCloser_cons_of_closes (by simpa using he)]
      simp

/-- A pair is the opener at hand, or one that found nothing open, with the first closer after
it. -/
theorem exists_of_mem_pairUp {o : ε} {c : Option ε} :
    ∀ {es : List ε} {opened : Option ε}, (o, c) ∈ pairUp opens opened es →
      (opened = some o ∧ c = firstCloser opens es) ∨
        ∃ before after, es = before ++ o :: after ∧ opens o = true ∧
          c = firstCloser opens after ∧ Fresh opens opened before
  | [], opened, h => by
    obtain ⟨o', ho', heq⟩ := List.mem_map.mp h
    obtain ⟨rfl, rfl⟩ := Prod.mk.inj heq
    exact .inl ⟨by simpa using ho', rfl⟩
  | e :: es, opened, h => by
    unfold pairUp at h
    by_cases he : opens e = true
    · rw [if_pos he] at h
      rcases exists_of_mem_pairUp h with ⟨hopened, hc⟩ | ⟨before, after, rfl, ho, hc, hfresh⟩
      · cases opened with
        | none =>
          obtain rfl : e = o := by simpa using hopened
          exact .inr ⟨[], es, rfl, he, hc, .inl ⟨rfl, rfl⟩⟩
        | some o' =>
          obtain rfl : o' = o := by simpa using hopened
          exact .inl ⟨rfl, hc.trans (firstCloser_cons_of_opens he).symm⟩
      · refine .inr ⟨e :: before, after, rfl, ho, hc, ?_⟩
        rcases hfresh with ⟨-, hnone⟩ | ⟨l, hl, hcl⟩
        · cases opened <;> simp at hnone
        · exact .inr ⟨l, by simp [List.getLast?_cons, Option.mem_def.mp hl], hcl⟩
    · rw [if_neg he] at h
      have hclose : opens e = false := by simpa using he
      rcases List.mem_append.mp h with h | h
      · obtain ⟨o', ho', heq⟩ := List.mem_map.mp h
        obtain ⟨rfl, rfl⟩ := Prod.mk.inj heq
        exact .inl ⟨by simpa using ho', (firstCloser_cons_of_closes hclose).symm⟩
      · rcases exists_of_mem_pairUp h with ⟨hopened, -⟩ | ⟨before, after, rfl, ho, hc, hfresh⟩
        · cases hopened
        · refine .inr ⟨e :: before, after, rfl, ho, hc, .inr ?_⟩
          rcases hfresh with ⟨rfl, -⟩ | ⟨l, hl, hcl⟩
          · exact ⟨e, rfl, hclose⟩
          · exact ⟨l, by simp [List.getLast?_cons, Option.mem_def.mp hl], hcl⟩

theorem mem_pairUp_of_fresh {o : ε} {after : List ε} (ho : opens o = true) :
    ∀ {before : List ε} {opened : Option ε}, Fresh opens opened before →
      (o, firstCloser opens after) ∈ pairUp opens opened (before ++ o :: after)
  | [], opened, h => by
    rcases h with ⟨-, rfl⟩ | ⟨l, hl, -⟩
    · rw [List.nil_append]
      unfold pairUp
      rw [if_pos ho]
      exact mem_pairUp_opened after
    · cases hl
  | e :: before, opened, h => by
    obtain ⟨l, hl, hcl⟩ : ∃ l ∈ (e :: before).getLast?, opens l = false := by
      rcases h with ⟨hnil, -⟩ | h
      · cases hnil
      · exact h
    rw [List.cons_append]
    unfold pairUp
    cases before with
    | nil =>
      obtain rfl : e = l := by simpa using hl
      rw [if_neg (by simp [hcl])]
      exact List.mem_append_right _ (mem_pairUp_of_fresh ho (.inl ⟨rfl, rfl⟩))
    | cons e' before =>
      have hl' : l ∈ (e' :: before).getLast? := by simpa using hl
      by_cases he : opens e = true
      · rw [if_pos he]
        exact mem_pairUp_of_fresh ho (.inr ⟨l, hl', hcl⟩)
      · rw [if_neg he]
        exact List.mem_append_right _ (mem_pairUp_of_fresh ho (.inr ⟨l, hl', hcl⟩))

theorem mem_pairUp {o : ε} {c : Option ε} {es : List ε} : (o, c) ∈ pairUp opens none es ↔
    ∃ before after, es = before ++ o :: after ∧ opens o = true ∧ c = firstCloser opens after ∧
      Fresh opens none before := by
  constructor
  · intro h
    rcases exists_of_mem_pairUp h with ⟨hnone, -⟩ | h
    · cases hnone
    · exact h
  · rintro ⟨before, after, rfl, ho, rfl, hfresh⟩
    exact mem_pairUp_of_fresh ho hfresh

end Walk

/-! ### Spells -/

section Spells

variable {K : Type} [LinearOrder K] {key : ε → K} {opens : ε → Bool}

/-- The spells a list of events tells of, by the keys they open and close at. -/
structure Tells (key : ε → K) (opens : ε → Bool) (spell : K → Option K → Prop) (es : List ε) :
    Prop where
  inside : ∀ e ∈ es, opens e = true →
    ∃ first last, spell first last ∧ first ≤ key e ∧ ∀ x ∈ last, key e < x
  closes : ∀ e ∈ es, opens e = false → ∃ first, spell first (some (key e))
  opener : ∀ {first last}, spell first last → ∃ e ∈ es, opens e = true ∧ key e = first
  closer : ∀ {first last}, spell first (some last) → ∃ e ∈ es, opens e = false ∧ key e = last
  lt : ∀ {first last}, spell first (some last) → first < last
  apart : ∀ {first last first' last'}, spell first last → spell first' last' →
    (first = first' ∧ last = last') ∨ (∃ x ∈ last, x < first') ∨ ∃ x ∈ last', x < first

/-- Where an event stands in a sorted list, seen from one of its members. -/
structure Split (key : ε → K) (before : List ε) (o : ε) (after : List ε) : Prop where
  le_of_before : ∀ e ∈ before, key e ≤ key o
  le_of_after : ∀ e ∈ after, key o ≤ key e
  before : before.Pairwise (key · ≤ key ·)
  after : after.Pairwise (key · ≤ key ·)

theorem Split.of_pairwise {before after : List ε} {o : ε}
    (h : (before ++ o :: after).Pairwise (key · ≤ key ·)) : Split key before o after := by
  obtain ⟨hbefore, hrest, hcross⟩ := List.pairwise_append.mp h
  obtain ⟨ho, hafter⟩ := List.pairwise_cons.mp hrest
  exact ⟨fun e he => hcross e he o (by simp), ho, hbefore, hafter⟩

theorem Split.mem_before {before after : List ε} {o e : ε} (h : Split key before o after)
    (he : e ∈ before ++ o :: after) (hlt : key e < key o) : e ∈ before := by
  rcases List.mem_append.mp he with he | he
  · exact he
  · rcases List.mem_cons.mp he with rfl | he
    · exact absurd hlt (lt_irrefl _)
    · exact absurd hlt (h.le_of_after e he).not_gt

theorem Split.mem_after {before after : List ε} {o e : ε} (h : Split key before o after)
    (he : e ∈ before ++ o :: after) (hlt : key o < key e) : e ∈ after := by
  rcases List.mem_append.mp he with he | he
  · exact absurd hlt (h.le_of_before e he).not_gt
  · rcases List.mem_cons.mp he with rfl | he
    · exact absurd hlt (lt_irrefl _)
    · exact he

theorem le_getLast {l : List ε} {last e : ε} (hs : l.Pairwise (key · ≤ key ·))
    (hlast : last ∈ l.getLast?) (he : e ∈ l) : key e ≤ key last := by
  obtain ⟨init, rfl⟩ := List.getLast?_eq_some_iff.mp hlast
  rcases List.mem_append.mp he with he | he
  · exact (List.pairwise_append.mp hs).2.2 e he last (by simp)
  · rw [List.mem_singleton.mp he]

theorem firstCloser_le {es : List ε} {c e : ε} (hs : es.Pairwise (key · ≤ key ·))
    (hc : firstCloser opens es = some c) (he : e ∈ es) (hclose : opens e = false) :
    key c ≤ key e := by
  have hrel := rel_of_find? (r := fun a b => key a ≤ key b) hs le_rfl hc he
  exact hrel (by simp [hclose])

variable {spell : K → Option K → Prop} {before after : List ε} {o : ε}

/-- An opener that finds nothing open is the first of its spell. -/
theorem Tells.first_of_fresh (h : Tells key opens spell (before ++ o :: after))
    (hs : Split key before o after) (ho : opens o = true) (hfresh : Fresh opens none before) :
    ∃ last, spell (key o) last := by
  obtain ⟨first, last, hspell, hle, hlt⟩ := h.inside o (by simp) ho
  rcases hle.eq_or_lt with rfl | hfirst
  · exact ⟨last, hspell⟩
  · -- the spell's own opener stands before `o`, and a closer between them
    exfalso
    obtain ⟨e, he, -, rfl⟩ := h.opener hspell
    have hbefore := hs.mem_before he hfirst
    rcases hfresh with ⟨rfl, -⟩ | ⟨l, hl, hclose⟩
    · simp at hbefore
    · have hel := le_getLast hs.before hl hbefore
      have hlmem := List.mem_of_getLast? hl
      have hlo := hs.le_of_before l hlmem
      obtain ⟨first', hspell'⟩ := h.closes l (by simp [hlmem]) hclose
      rcases h.apart hspell hspell' with ⟨-, rfl⟩ | ⟨x, hx, hlt'⟩ | ⟨x, hx, hlt'⟩
      · exact absurd (hlt (key l) rfl) hlo.not_gt
      · have := (hlt x hx).trans (hlt'.trans (h.lt hspell'))
        exact absurd this hlo.not_gt
      · obtain rfl : key l = x := by simpa using hx
        exact absurd hlt' hel.not_gt

/-- The first closer after an opener a spell opens with is the one the spell closes with. -/
theorem Tells.closer_eq (h : Tells key opens spell (before ++ o :: after))
    (hs : Split key before o after) {last : Option K} (hspell : spell (key o) last) :
    (firstCloser opens after).map key = last := by
  cases hc : firstCloser opens after with
  | none =>
    cases last with
    | none => rfl
    | some last =>
      obtain ⟨e, he, hclose, rfl⟩ := h.closer hspell
      have hafter := hs.mem_after he (h.lt hspell)
      have := List.find?_eq_none.mp hc e hafter
      simp [hclose] at this
  | some c =>
    have hcafter : c ∈ after := List.mem_of_find?_eq_some hc
    have hclose : opens c = false := by simpa using List.find?_some hc
    obtain ⟨first', hspell'⟩ := h.closes c (by simp [hcafter]) hclose
    rcases h.apart hspell hspell' with ⟨-, hlast⟩ | ⟨x, hx, hlt⟩ | ⟨x, hx, hlt⟩
    · exact hlast.symm
    · obtain rfl : last = some x := hx
      obtain ⟨e, he, hclose', rfl⟩ := h.closer hspell
      have hafter := hs.mem_after he (h.lt hspell)
      have hle := firstCloser_le hs.after hc hafter hclose'
      exact absurd (hlt.trans (h.lt hspell')) hle.not_gt
    · obtain rfl : key c = x := by simpa using hx
      exact absurd hlt (hs.le_of_after c hcafter).not_gt

/-- The first opener at the key a spell opens at finds nothing open. -/
theorem Tells.fresh_of_first (h : Tells key opens spell (before ++ o :: after))
    (hs : Split key before o after) {last : Option K} (hspell : spell (key o) last)
    (hfirst : ∀ e ∈ before, opens e = true → key e ≠ key o) : Fresh opens none before := by
  cases hl : before.getLast? with
  | none => exact .inl ⟨List.getLast?_eq_none_iff.mp hl, rfl⟩
  | some l =>
    refine .inr ⟨l, hl, ?_⟩
    by_contra hopen
    have hopen : opens l = true := by simpa using hopen
    have hlmem := List.mem_of_getLast? hl
    have hne := hfirst l hlmem hopen
    have hlo := lt_of_le_of_ne (hs.le_of_before l hlmem) hne
    obtain ⟨first', last', hspell', hle, hlt⟩ := h.inside l (by simp [hlmem]) hopen
    rcases h.apart hspell' hspell with ⟨rfl, -⟩ | ⟨x, hx, hxo⟩ | ⟨x, hx, hxf⟩
    · exact absurd hlo hle.not_gt
    · obtain rfl : last' = some x := hx
      obtain ⟨e, he, -, rfl⟩ := h.closer hspell'
      have hebefore := hs.mem_before he hxo
      exact absurd (hlt _ rfl) (le_getLast hs.before hl hebefore).not_gt
    · obtain rfl : last = some x := hx
      have := (h.lt hspell).trans (hxf.trans_le hle)
      exact absurd this hlo.not_gt

/-- **The pairs are the spells.** -/
theorem mem_pairUp_iff_spell {es : List ε} (h : Tells key opens spell es)
    (hs : es.Pairwise (key · ≤ key ·)) {first : K} {last : Option K} :
    (∃ pair ∈ pairUp opens none es, key pair.1 = first ∧ pair.2.map key = last) ↔
      spell first last := by
  constructor
  · rintro ⟨⟨o, c⟩, hmem, rfl, rfl⟩
    obtain ⟨before, after, rfl, ho, rfl, hfresh⟩ := mem_pairUp.mp hmem
    have hsplit := Split.of_pairwise hs
    obtain ⟨last, hspell⟩ := h.first_of_fresh hsplit ho hfresh
    rw [h.closer_eq hsplit hspell]
    exact hspell
  · intro hspell
    obtain ⟨e, he, hopen, hkey⟩ := h.opener hspell
    obtain ⟨o, ho⟩ : ∃ o, es.find? (fun e => opens e && decide (key e = first)) = some o := by
      rw [← Option.isSome_iff_exists, List.find?_isSome]
      exact ⟨e, he, by simp [hopen, hkey]⟩
    obtain ⟨hpo, before, after, rfl, hbefore⟩ := List.find?_eq_some_iff_append.mp ho
    obtain ⟨hopen', rfl⟩ : opens o = true ∧ key o = first := by simpa using hpo
    have hsplit := Split.of_pairwise hs
    have hfresh := h.fresh_of_first hsplit hspell fun e he hopen => by
      simpa [hopen] using hbefore e he
    exact ⟨_, mem_pairUp.mpr ⟨before, after, rfl, hopen', rfl, hfresh⟩, rfl,
      h.closer_eq hsplit hspell⟩

end Spells

end Timeline
