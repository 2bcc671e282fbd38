import OpenBrf.Mime.FromHeader
import OpenBrf.Search.Words

/-!
# Mime.SenderAddress — which headers name a sender
-/

namespace OpenBrf.Mime

open Lang Regex Regex.Pattern Rfc5322

/-! ### One pair of brackets -/

theorem occurs_ANGLE {text before word : List ℕ} : Occurs ANGLE text before word ↔
    ∃ inner after, word = LESS :: (inner ++ [GREATER]) ∧ text = before ++ (word ++ after) ∧
      ∀ c ∈ inner, c ≠ LESS ∧ c ≠ GREATER := by
  unfold Occurs ANGLE
  constructor
  · rintro ⟨after, htext, _, _, rfl, ⟨less, hless, rfl⟩, inner, _, rfl, hinner, greater, hgreater, rfl⟩
    obtain rfl := of_decide_eq_true hless
    obtain rfl := of_decide_eq_true hgreater
    refine ⟨inner, after, rfl, by rw [htext, List.append_assoc], fun c hc => ?_⟩
    have hkept := hinner c hc
    simp only [Bool.not_eq_true', Bool.or_eq_false_iff, decide_eq_false_iff_not] at hkept
    exact hkept
  · rintro ⟨inner, after, rfl, htext, hinner⟩
    refine ⟨after, by rw [htext, List.append_assoc], [LESS], inner ++ [GREATER], rfl,
      ⟨LESS, decide_eq_true rfl, rfl⟩, inner, [GREATER], rfl, fun c hc => ?_,
      GREATER, decide_eq_true rfl, rfl⟩
    simp only [Bool.not_eq_true', Bool.or_eq_false_iff, decide_eq_false_iff_not]
    exact hinner c hc

/-- Two pairs of brackets stand apart. -/
theorem apart_ANGLE (text : List ℕ) : Apart ANGLE text where
  nonempty := by
    intro before word h
    obtain ⟨inner, after, rfl, -, -⟩ := occurs_ANGLE.mp h
    exact List.cons_ne_nil _ _
  unique := by
    intro before word word' h h'
    obtain ⟨inner, after, rfl, rfl, hinner⟩ := occurs_ANGLE.mp h
    obtain ⟨inner', after', rfl, htext, hinner'⟩ := occurs_ANGLE.mp h'
    have hsame : inner ++ [GREATER] ++ after = inner' ++ [GREATER] ++ after' :=
      (List.cons.inj (List.append_cancel_left htext)).2
    rw [List.append_assoc, List.append_assoc] at hsame
    obtain ⟨rfl, -⟩ := Search.first_inj (fun hmem => (hinner _ hmem).2 rfl)
      (fun hmem => (hinner' _ hmem).2 rfl) hsame
    rfl
  apart := by
    intro before word before' word' h h' hlt
    obtain ⟨inner, after, rfl, rfl, hinner⟩ := occurs_ANGLE.mp h
    obtain ⟨inner', after', rfl, htext, -⟩ := occurs_ANGLE.mp h'
    by_contra hle
    -- the bracket that opens the second pair would stand inside the first
    obtain ⟨n, hn⟩ : ∃ n, before'.length = before.length + (n + 1) :=
      ⟨before'.length - before.length - 1, by omega⟩
    have hsecond : (before ++ (LESS :: (inner ++ [GREATER]) ++ after))[before'.length]? = some LESS := by
      rw [htext, List.getElem?_append_right (Nat.le_refl _), Nat.sub_self]
      rfl
    have hlength : n < (inner ++ [GREATER]).length := by
      rw [List.length_cons] at hle
      omega
    rw [hn, List.getElem?_append_right (Nat.le_add_right _ _), Nat.add_sub_cancel_left,
      List.cons_append, List.getElem?_cons_succ, List.getElem?_append_left hlength] at hsecond
    rcases List.mem_append.mp (List.mem_of_getElem? hsecond) with hmem | hmem
    · exact (hinner _ hmem).1 rfl
    · exact absurd (List.mem_singleton.mp hmem) (by decide)

/-- One pair of brackets, with none around it, is all that is found. -/
theorem findAll_ANGLE {before inner after : List ℕ} (hbefore : LESS ∉ before)
    (hinner : ∀ c ∈ inner, c ≠ LESS ∧ c ≠ GREATER) (hafter : LESS ∉ after) :
    findAll ANGLE (before ++ (LESS :: (inner ++ GREATER :: after))) =
      [(before, LESS :: (inner ++ [GREATER]))] := by
  have hocc : Occurs ANGLE (before ++ (LESS :: (inner ++ GREATER :: after))) before
      (LESS :: (inner ++ [GREATER])) := by
    refine occurs_ANGLE.mpr ⟨inner, after, rfl, ?_, hinner⟩
    simp
  have hrest : LESS ∉ inner ++ GREATER :: after := by
    intro hmem
    rcases List.mem_append.mp hmem with hmem | hmem
    · exact (hinner _ hmem).1 rfl
    · rcases List.mem_cons.mp hmem with hmem | hmem
      · exact absurd hmem (by decide)
      · exact hafter hmem
  have hapart := apart_ANGLE (before ++ (LESS :: (inner ++ GREATER :: after)))
  have honly : ∀ found ∈ findAll ANGLE (before ++ (LESS :: (inner ++ GREATER :: after))),
      found = (before, LESS :: (inner ++ [GREATER])) := by
    rintro ⟨before', word'⟩ hfound
    have hocc' := (mem_findAll hapart).mp hfound
    obtain ⟨inner', after', -, htext, -⟩ := occurs_ANGLE.mp hocc'
    obtain ⟨inner'', after'', rfl, -, -⟩ := occurs_ANGLE.mp hocc'
    obtain ⟨rfl, -⟩ := Search.only_inj hbefore hrest htext
    rw [hapart.unique hocc' hocc]
  have hfound := (mem_findAll hapart).mpr hocc
  have horder := inOrder_findAll ANGLE (before ++ (LESS :: (inner ++ GREATER :: after)))
  revert honly hfound horder
  generalize findAll ANGLE (before ++ (LESS :: (inner ++ GREATER :: after))) = found
  intro honly hfound horder
  match found, honly, hfound, horder with
  | [x], honly, _, _ => rw [honly x List.mem_cons_self]
  | x :: y :: rest, honly, _, horder =>
    have hx := honly x List.mem_cons_self
    have hy := honly y (List.mem_cons_of_mem _ List.mem_cons_self)
    have hlt := (List.pairwise_cons.mp horder).1 y List.mem_cons_self
    rw [hx, hy] at hlt
    dsimp only at hlt
    rw [List.length_cons] at hlt
    omega

/-- Where no pair of brackets is found, a bracket stands alone or none does. -/
theorem mailboxOf_some {raw : List ℕ} {mailbox : Mailbox} (h : mailboxOf raw = some mailbox) :
    ∃ visible, blankedOut raw = some visible ∧ COMMA ∉ visible ∧
      ((mailbox = .bare ∧ LESS ∉ visible ∧ GREATER ∉ visible) ∨
        ∃ before inner after, visible = before ++ (LESS :: (inner ++ GREATER :: after)) ∧
          (∀ c ∈ before, c ≠ AT ∧ c ≠ LESS ∧ c ≠ GREATER) ∧ (∀ c ∈ inner, c ≠ LESS ∧ c ≠ GREATER) ∧
          (∀ c ∈ after, isSpace c = true) ∧
          mailbox = .angle before.length
            ((raw.take (before.length + inner.length + 1)).drop (before.length + 1))) := by
  unfold mailboxOf at h
  cases hblanked : blankedOut raw with
  | none =>
    rw [hblanked] at h
    cases h
  | some visible =>
    rw [hblanked] at h
    dsimp only at h
    by_cases hcomma : COMMA ∈ visible
    · rw [if_pos hcomma] at h
      cases h
    rw [if_neg hcomma] at h
    refine ⟨visible, rfl, hcomma, ?_⟩
    match hfound : findAll ANGLE visible with
    | [] =>
      rw [hfound] at h
      dsimp only at h
      split_ifs at h with hbracket
      rw [not_or] at hbracket
      exact .inl ⟨(Option.some.inj h).symm, hbracket⟩
    | [(before, angle)] =>
      rw [hfound] at h
      dsimp only at h
      split_ifs at h with hbeside
      rw [not_or, Bool.not_eq_true, List.any_eq_false, not_not] at hbeside
      have hocc := (mem_findAll (apart_ANGLE visible)).mp (hfound ▸ List.mem_singleton.mpr rfl)
      obtain ⟨inner, after, rfl, hvisible, hinner⟩ := occurs_ANGLE.mp hocc
      refine .inr ⟨before, inner, after, ?_, fun c hc => ?_, hinner, ?_, ?_⟩
      · rw [hvisible]
        simp
      · have hkept := hbeside.1 c hc
        simp only [Bool.or_eq_true, decide_eq_true_eq, not_or, and_assoc] at hkept
        exact hkept
      · have hspace := hbeside.2
        rw [hvisible, ← List.length_append, ← List.append_assoc, List.drop_left' rfl,
          trimmed_eq_nil] at hspace
        exact hspace
      · rw [← Option.some.inj h]
        congr 3
        simp only [List.length_cons, List.length_append]
        rfl
    | x :: y :: rest =>
      rw [hfound] at h
      cases h

/-! ### What can be stored and answered -/

/-- One @ with something on either side, and nothing that is blank, a control or invisible. -/
structure Address (tables : TextTables) (a : List ℕ) : Prop where
  parts : ∃ localPart domain, a = localPart ++ AT :: domain ∧ localPart ≠ [] ∧ domain ≠ [] ∧
    AT ∉ localPart ∧ AT ∉ domain
  noSpace : ∀ c ∈ a, isSpace c = false
  noControl : ∀ c ∈ a, isControl c = false
  noneInvisible : ∀ c ∈ codePoints a, tables.isInvisible c = false

theorem isAddressCharacter_iff {c : ℕ} :
    isAddressCharacter c = true ↔ isSpace c = false ∧ c ≠ AT := by
  unfold isAddressCharacter
  rw [Bool.not_eq_true', Bool.or_eq_false_iff, decide_eq_false_iff_not]

theorem test_ADDRESS {a : List ℕ} : test ADDRESS a = true ↔
    ∃ localPart domain, a = localPart ++ AT :: domain ∧ localPart ≠ [] ∧ domain ≠ [] ∧
      (∀ c ∈ localPart, isAddressCharacter c = true) ∧ ∀ c ∈ domain, isAddressCharacter c = true := by
  unfold ADDRESS
  rw [test_start]
  constructor
  · rintro ⟨_, after, rfl, _, _, rfl, ⟨x, hx, rfl⟩, xs, _, rfl, hxs, _, _, rfl, ⟨at', hat, rfl⟩, _, _,
      rfl, ⟨y, hy, rfl⟩, ys, _, rfl, hys, rfl, hend⟩
    obtain rfl := of_decide_eq_true hat
    have hafter : after = [] := by
      cases after with
      | nil => rfl
      | cons c after => cases hend
    subst hafter
    refine ⟨x :: xs, y :: ys, by simp, List.cons_ne_nil _ _, List.cons_ne_nil _ _, ?_, ?_⟩
    · exact List.forall_mem_cons.mpr ⟨hx, hxs⟩
    · exact List.forall_mem_cons.mpr ⟨hy, hys⟩
  · rintro ⟨localPart, domain, rfl, hlocal, hdomain, hlocals, hdomains⟩
    obtain ⟨x, xs, rfl⟩ := List.exists_cons_of_ne_nil hlocal
    obtain ⟨y, ys, rfl⟩ := List.exists_cons_of_ne_nil hdomain
    obtain ⟨hx, hxs⟩ := List.forall_mem_cons.mp hlocals
    obtain ⟨hy, hys⟩ := List.forall_mem_cons.mp hdomains
    exact ⟨x :: xs ++ AT :: y :: ys, [], (List.append_nil _).symm, [x], _, rfl, ⟨x, hx, rfl⟩, xs, _,
      rfl, hxs, [AT], _, rfl, ⟨AT, rfl, rfl⟩, [y], ys, rfl, ⟨y, hy, rfl⟩, ys, [],
      (List.append_nil _).symm, hys, rfl, rfl⟩

theorem isAddress_iff {tables : TextTables} {a : List ℕ} :
    tables.isAddress a = true ↔ Address tables a := by
  have hcontrol : hasControlCharacter a = false ↔ ∀ c ∈ a, isControl c = false := by
    unfold hasControlCharacter
    rw [List.any_eq_false]
    simp only [Bool.not_eq_true]
  have hinvisible : tables.hasInvisibleCharacter a = false ↔
      ∀ c ∈ codePoints a, tables.isInvisible c = false := by
    unfold TextTables.hasInvisibleCharacter
    rw [List.any_eq_false]
    simp only [Bool.not_eq_true]
  unfold TextTables.isAddress
  rw [Bool.and_eq_true, Bool.and_eq_true, Bool.not_eq_true', Bool.not_eq_true', hcontrol, hinvisible,
    test_ADDRESS]
  constructor
  · rintro ⟨⟨⟨localPart, domain, rfl, hlocal, hdomain, hlocals, hdomains⟩, hcontrol⟩, hinvisible⟩
    refine ⟨⟨localPart, domain, rfl, hlocal, hdomain, fun hmem => ?_, fun hmem => ?_⟩, fun c hc => ?_,
      hcontrol, hinvisible⟩
    · exact (isAddressCharacter_iff.mp (hlocals _ hmem)).2 rfl
    · exact (isAddressCharacter_iff.mp (hdomains _ hmem)).2 rfl
    · rcases List.mem_append.mp hc with hc | hc
      · exact (isAddressCharacter_iff.mp (hlocals c hc)).1
      · rcases List.mem_cons.mp hc with rfl | hc
        · decide
        · exact (isAddressCharacter_iff.mp (hdomains c hc)).1
  · rintro ⟨⟨localPart, domain, rfl, hlocal, hdomain, hat, hat'⟩, hspace, hcontrol, hinvisible⟩
    refine ⟨⟨⟨localPart, domain, rfl, hlocal, hdomain, fun c hc => ?_, fun c hc => ?_⟩, hcontrol⟩,
      hinvisible⟩
    · exact isAddressCharacter_iff.mpr ⟨hspace c (List.mem_append_left _ hc), fun h => hat (h ▸ hc)⟩
    · exact isAddressCharacter_iff.mpr
        ⟨hspace c (List.mem_append_right _ (List.mem_cons_of_mem _ hc)), fun h => hat' (h ▸ hc)⟩

theorem Address.count_at {tables : TextTables} {a : List ℕ} (h : Address tables a) :
    a.count AT = 1 := by
  obtain ⟨localPart, domain, rfl, -, -, hlocal, hdomain⟩ := h.parts
  rw [List.count_append, List.count_cons_self, List.count_eq_zero_of_not_mem hlocal,
    List.count_eq_zero_of_not_mem hdomain]

theorem Address.trimmed_eq {tables : TextTables} {a : List ℕ} (h : Address tables a) :
    trimmed a = a :=
  trimmed_eq_self (fun c hc => h.noSpace c (List.mem_of_mem_head? hc))
    fun c hc => h.noSpace c (List.mem_of_mem_getLast? hc)

theorem count_withoutQuotes (text : List ℕ) : (withoutQuotes text).count AT = text.count AT := by
  have htail : ∀ text : List ℕ,
      (if text.head?.any (fun u => u = QUOTE || u = 0x27) then text.tail else text).count AT =
        text.count AT := by
    intro text
    split_ifs with hquote
    · cases text with
      | nil => rfl
      | cons c text =>
        have hne : (c == AT) = false := by
          refine beq_false_of_ne fun heq => ?_
          subst heq
          simp [AT, QUOTE] at hquote
        rw [List.tail_cons, List.count_cons, hne, if_neg Bool.false_ne_true, Nat.add_zero]
    · rfl
  have hlast : ∀ text : List ℕ,
      (if text.getLast?.any (fun u => u = QUOTE || u = 0x27) then text.dropLast else text).count AT =
        text.count AT := by
    intro text
    rcases List.eq_nil_or_concat text with rfl | ⟨before, c, rfl⟩
    · rfl
    · rw [List.concat_eq_append, List.getLast?_concat, List.dropLast_concat]
      split_ifs with hquote
      · have hne : AT ≠ c := by
          rintro rfl
          exact absurd hquote (by decide)
        rw [List.count_append, List.count_singleton, beq_false_of_ne hne.symm,
          if_neg Bool.false_ne_true, Nat.add_zero]
      · rfl
  unfold withoutQuotes
  dsimp only
  rw [hlast, htail]

/-! ### The sender of a header -/

variable {tables : TextTables} {raw : List ℕ} {outside : List Bool}

theorem addressFrom_some {address : List ℕ} (h : tables.addressFrom raw = some address) :
    ∃ mailbox candidate, mailboxOf raw = some mailbox ∧ Address tables candidate ∧
      address = tables.toLowerCase candidate ∧
      ((mailbox = .bare ∧ candidate = withoutQuotes (trimmed raw)) ∨
        ∃ start inner, mailbox = .angle start inner ∧ candidate = trimmed inner) := by
  unfold TextTables.addressFrom at h
  cases hmailbox : mailboxOf raw with
  | none =>
    rw [hmailbox] at h
    cases h
  | some mailbox =>
    rw [hmailbox] at h
    cases mailbox with
    | bare =>
      dsimp only at h
      split_ifs at h with haddress
      exact ⟨.bare, _, rfl, isAddress_iff.mp haddress, (Option.some.inj h).symm, .inl ⟨rfl, rfl⟩⟩
    | angle start inner =>
      dsimp only at h
      split_ifs at h with haddress
      exact ⟨.angle start inner, _, rfl, isAddress_iff.mp haddress, (Option.some.inj h).symm,
        .inr ⟨start, inner, rfl, rfl⟩⟩

theorem shown_slice (raw : List ℕ) (outside : List Bool) (start stop : ℕ) :
    ((shown raw outside).take stop).drop start =
      shown ((raw.take stop).drop start) ((outside.take stop).drop start) := by
  unfold shown
  rw [List.take_zipWith, List.drop_zipWith]

/-- What an address in it says of a header: one @, one pair of brackets at most, and no comma. -/
structure OneSender (visible : List ℕ) : Prop where
  noComma : COMMA ∉ visible
  at' : visible.count AT ≤ 1
  less : visible.count LESS ≤ 1
  greater : visible.count GREATER ≤ 1

theorem count_eq_zero_of_space {c : ℕ} (hc : isSpace c = false) {text : List ℕ}
    (h : ∀ d ∈ text, isSpace d = true) : text.count c = 0 :=
  List.count_eq_zero_of_not_mem fun hmem => by
    have hspace := h c hmem
    rw [hc] at hspace
    cases hspace

/-- **A header with a sender** shows one address. -/
theorem oneSender_of_addressFrom (hreading : Reading raw outside) {address : List ℕ}
    (h : tables.addressFrom raw = some address) : OneSender (shown raw outside) := by
  obtain ⟨mailbox, candidate, hmailbox, hcandidate, -, hread⟩ := addressFrom_some h
  obtain ⟨visible, hblanked, hcomma, hbrackets⟩ := mailboxOf_some hmailbox
  obtain rfl := Option.some.inj (hreading.blankedOut.symm.trans hblanked)
  have hone := hcandidate.count_at
  rcases hbrackets with ⟨rfl, hless, hgreater⟩ | ⟨before, inner, after, hvisible, hbefore, hinner,
    hafter, rfl⟩
  · rcases hread with ⟨-, rfl⟩ | ⟨start, inner, hmailbox', -⟩
    · rw [count_withoutQuotes, count_trimmed (by decide)] at hone
      refine ⟨hcomma, ?_, ?_, ?_⟩
      · rw [← hone]
        exact count_shown_le (by decide) raw outside
      · rw [List.count_eq_zero_of_not_mem hless]
        exact Nat.zero_le 1
      · rw [List.count_eq_zero_of_not_mem hgreater]
        exact Nat.zero_le 1
    · cases hmailbox'
  · rcases hread with ⟨hmailbox', -⟩ | ⟨start, inner', hmailbox', rfl⟩
    · cases hmailbox'
    · obtain ⟨rfl, rfl⟩ := Mailbox.angle.inj hmailbox'
      rw [count_trimmed (by decide)] at hone
      -- the brackets stand where they are shown
      have hslice : ((shown raw outside).take (before.length + inner.length + 1)).drop
          (before.length + 1) = inner := by
        have hsplit : before ++ LESS :: (inner ++ GREATER :: after) =
            (before ++ [LESS]) ++ (inner ++ GREATER :: after) := by simp
        have hlength : before.length + inner.length + 1 = (before ++ [LESS]).length + inner.length := by
          rw [List.length_append, List.length_singleton]
          omega
        have hstart : before.length + 1 = (before ++ [LESS]).length := by
          rw [List.length_append, List.length_singleton]
        rw [hvisible, hsplit, hlength, hstart, ← List.append_assoc, ← List.length_append,
          List.take_left' rfl, List.drop_left' rfl]
      have hinnerAt : inner.count AT ≤ 1 := by
        have hne : AT ≠ SPACE := by decide
        have hle := count_shown_le hne
          ((raw.take (before.length + inner.length + 1)).drop (before.length + 1))
          ((outside.take (before.length + inner.length + 1)).drop (before.length + 1))
        rw [hone] at hle
        rw [← hslice, shown_slice]
        exact hle
      have hzero : ∀ c, c = AT ∨ c = LESS ∨ c = GREATER → before.count c = 0 := by
        intro c hc
        refine List.count_eq_zero_of_not_mem fun hmem => ?_
        obtain ⟨hat, hless, hgreater⟩ := hbefore c hmem
        rcases hc with hc | hc | hc
        · exact hat hc
        · exact hless hc
        · exact hgreater hc
      have hinnerLess : inner.count LESS = 0 :=
        List.count_eq_zero_of_not_mem fun hmem => (hinner _ hmem).1 rfl
      have hinnerGreater : inner.count GREATER = 0 :=
        List.count_eq_zero_of_not_mem fun hmem => (hinner _ hmem).2 rfl
      have hcount : ∀ c, (shown raw outside).count c = before.count c +
          ((inner.count c + (after.count c + if GREATER == c then 1 else 0)) +
            if LESS == c then 1 else 0) := by
        intro c
        rw [hvisible, List.count_append, List.count_cons, List.count_append, List.count_cons]
      refine ⟨hcomma, ?_, ?_, ?_⟩
      · rw [hcount, hzero AT (.inl rfl), count_eq_zero_of_space (by decide) hafter,
          if_neg (by decide), if_neg (by decide)]
        omega
      · rw [hcount, hzero LESS (.inr (.inl rfl)), hinnerLess, count_eq_zero_of_space (by decide) hafter,
          if_neg (by decide), if_pos (by decide)]
      · rw [hcount, hzero GREATER (.inr (.inr rfl)), hinnerGreater,
          count_eq_zero_of_space (by decide) hafter, if_pos (by decide), if_neg (by decide)]

theorem addressFrom_of_blankedOut (h : blankedOut raw = none) : tables.addressFrom raw = none := by
  unfold TextTables.addressFrom mailboxOf
  rw [h]

/-- An address between brackets, behind a display name and in front of comments. -/
structure Wrapped (tables : TextTables) (before a after : List ℕ) : Prop where
  address : Address tables a
  /-- Quoted strings, comments and a name that writes no address. -/
  name : ∃ outside, Closed before outside ∧ ∀ c ∈ shown before outside,
    c ≠ AT ∧ c ≠ COMMA ∧ c ≠ LESS ∧ c ≠ GREATER
  /-- A quoted local part is closed. -/
  inner : ∃ outside, Closed a outside ∧ ∀ c ∈ shown a outside, c ≠ COMMA ∧ c ≠ LESS ∧ c ≠ GREATER
  /-- Comments and blanks. -/
  comments : ∃ outside, Closed after outside ∧ ∀ c ∈ shown after outside, isSpace c = true

/-- **An address in brackets** is the sender, in lower case. -/
theorem addressFrom_wrapped {before a after : List ℕ} (h : Wrapped tables before a after) :
    tables.addressFrom (before ++ (LESS :: (a ++ GREATER :: after))) = some (tables.toLowerCase a) := by
  obtain ⟨haddress, ⟨o1, hbefore, hname⟩, ⟨o2, ha, hinner⟩, ⟨o3, hafter, hcomments⟩⟩ := h
  have hclosed : Closed (before ++ (LESS :: (a ++ GREATER :: after)))
      (o1 ++ (true :: (o2 ++ true :: o3))) :=
    hbefore.append (.text (by decide) (by decide) (ha.append (.text (by decide) (by decide) hafter)))
  have hvisible : blankedOut (before ++ (LESS :: (a ++ GREATER :: after))) =
      some (shown before o1 ++ (LESS :: (shown a o2 ++ GREATER :: shown after o3))) := by
    rw [(Reading.closed hclosed).blankedOut, shown_append hbefore.length_eq]
    show some (_ ++ LESS :: shown (a ++ GREATER :: after) (o2 ++ true :: o3)) = _
    rw [shown_append ha.length_eq]
    rfl
  have hspace : ∀ c, isSpace c = false → c ∉ shown after o3 := by
    intro c hc hmem
    have h := hcomments c hmem
    rw [hc] at h
    cases h
  have hcomma : COMMA ∉ shown before o1 ++ (LESS :: (shown a o2 ++ GREATER :: shown after o3)) := by
    simp only [List.mem_append, List.mem_cons, not_or]
    exact ⟨fun hmem => (hname _ hmem).2.1 rfl, by decide, fun hmem => (hinner _ hmem).1 rfl, by decide,
      hspace COMMA (by decide)⟩
  have hfound : findAll ANGLE (shown before o1 ++ (LESS :: (shown a o2 ++ GREATER :: shown after o3))) =
      [(shown before o1, LESS :: (shown a o2 ++ [GREATER]))] :=
    findAll_ANGLE (fun hmem => (hname _ hmem).2.2.1 rfl) (fun c hc => (hinner c hc).2)
      (hspace LESS (by decide))
  have hmailbox : mailboxOf (before ++ (LESS :: (a ++ GREATER :: after))) =
      some (.angle before.length a) := by
    have hlead : (shown before o1).length = before.length := length_shown hbefore.length_eq
    have hangle : (LESS :: (shown a o2 ++ [GREATER])).length = a.length + 2 := by
      rw [List.length_cons, List.length_append, length_shown ha.length_eq]
      rfl
    have hrest : (shown before o1 ++ (LESS :: (shown a o2 ++ GREATER :: shown after o3))).drop
        ((shown before o1).length + (LESS :: (shown a o2 ++ [GREATER])).length) = shown after o3 := by
      have hsplit : shown before o1 ++ (LESS :: (shown a o2 ++ GREATER :: shown after o3)) =
          (shown before o1 ++ (LESS :: (shown a o2 ++ [GREATER]))) ++ shown after o3 := by simp
      rw [hsplit, ← List.length_append, List.drop_left' rfl]
    have hkept : ((before ++ (LESS :: (a ++ GREATER :: after))).take (before.length + (a.length + 2) - 1)).drop
        (before.length + 1) = a := by
      have hsplit : before ++ (LESS :: (a ++ GREATER :: after)) =
          (before ++ [LESS]) ++ (a ++ GREATER :: after) := by simp
      have hstart : before.length + 1 = (before ++ [LESS]).length := by
        rw [List.length_append, List.length_singleton]
      have hstop : before.length + (a.length + 2) - 1 = (before ++ [LESS]).length + a.length := by
        rw [← hstart]
        omega
      rw [hsplit, hstart, hstop, ← List.append_assoc, ← List.length_append, List.take_left' rfl,
        List.drop_left' rfl]
    have hbeside : ¬ (((shown before o1).any fun c => c = AT || c = LESS || c = GREATER) = true ∨
        trimmed (shown after o3) ≠ []) := by
      rw [not_or, not_not, trimmed_eq_nil, Bool.not_eq_true, List.any_eq_false]
      refine ⟨fun c hc => ?_, hcomments⟩
      obtain ⟨hat, -, hless, hgreater⟩ := hname c hc
      simp [hat, hless, hgreater]
    unfold mailboxOf
    rw [hvisible]
    dsimp only
    rw [if_neg hcomma, hfound]
    dsimp only
    rw [hrest, if_neg hbeside, hangle, hlead, hkept]
  unfold TextTables.addressFrom
  rw [hmailbox]
  dsimp only
  simp only [haddress.trimmed_eq, isAddress_iff.mpr haddress, if_true]

/-- **The sender** of any header: an address in brackets, whatever quoted strings and comments are
around it; none, where the header shows two or leaves one open behind an @ it shows, and none where
no reader can say what it shows; and what is shown stands where it was written. -/
theorem sender_of_header (tables : TextTables) :
    (∀ before a after, Wrapped tables before a after →
      tables.addressFrom (before ++ (LESS :: (a ++ GREATER :: after))) =
        some (tables.toLowerCase a)) ∧
    (∀ raw outside, Reading raw outside →
      1 < (shown raw outside).count AT ∨ 1 < (shown raw outside).count LESS ∨
        1 < (shown raw outside).count GREATER ∨ COMMA ∈ shown raw outside →
      tables.addressFrom raw = none) ∧
    (∀ raw visible, LeftOpen raw visible → AT ∈ visible → tables.addressFrom raw = none) ∧
    (∀ raw, (∀ outside, ¬Reading raw outside) → tables.addressFrom raw = none) ∧
    ∀ raw text : List ℕ, blankedOut raw = some text → ∃ outside : List Bool, Reading raw outside ∧
      text.length = raw.length ∧ ∀ i : ℕ, outside[i]? = some true → text[i]? = raw[i]? := by
  refine ⟨fun before a after h => addressFrom_wrapped h, ?_, ?_, ?_, ?_⟩
  · intro raw outside hreading htwo
    cases haddress : tables.addressFrom raw with
    | none => rfl
    | some address =>
      exfalso
      obtain ⟨hcomma, hat, hless, hgreater⟩ := oneSender_of_addressFrom hreading haddress
      rcases htwo with h | h | h | h
      · exact Nat.not_lt_of_le hat h
      · exact Nat.not_lt_of_le hless h
      · exact Nat.not_lt_of_le hgreater h
      · exact hcomma h
  · intro raw visible hopen hat
    exact addressFrom_of_blankedOut (hopen.blankedOut hat)
  · intro raw hunread
    refine addressFrom_of_blankedOut ?_
    cases hblanked : blankedOut raw with
    | none => rfl
    | some text =>
      obtain ⟨outside, hreading, -⟩ := reading_of_blankedOut hblanked
      exact absurd hreading (hunread outside)
  · intro raw text hblanked
    obtain ⟨outside, hreading, rfl⟩ := reading_of_blankedOut hblanked
    exact ⟨outside, hreading, length_shown hreading.length_eq, fun i hi => getElem?_shown hi⟩

/-- Tables of ASCII alone. -/
def asciiTables : TextTables where
  toLowerCase := List.map fun c => if 0x41 ≤ c ∧ c ≤ 0x5A then c + 0x20 else c
  defaultIgnorable := fun _ => false

/-- `"k,<" (@) <A@b> (c)`: an address behind a display name and a comment.  `A@b,c@d` shows two,
`A@b (c` opens a comment behind one, and `A, "b` never closes its name. -/
theorem sender_behind_name :
    asciiTables.addressFrom
      ([0x22, 0x6B, 0x2C, 0x3C, 0x22, 0x20, 0x28, 0x40, 0x29, 0x20] ++
        (LESS :: ([0x41, 0x40, 0x62] ++ GREATER :: [0x20, 0x28, 0x63, 0x29]))) =
      some (asciiTables.toLowerCase [0x41, 0x40, 0x62]) ∧
    asciiTables.addressFrom [0x41, 0x40, 0x62, 0x2C, 0x63, 0x40, 0x64] = none ∧
    asciiTables.addressFrom [0x41, 0x40, 0x62, 0x20, 0x28, 0x63] = none ∧
    asciiTables.addressFrom [0x41, 0x2C, 0x20, 0x22, 0x62] = none := by
  have hquoted : InQuotes [0x6B, 0x2C, 0x3C] :=
    .char (by decide) (by decide) <| .char (by decide) (by decide) <|
      .char (by decide) (by decide) .nil
  have hcomment : ∀ c, c = 0x40 ∨ c = 0x63 → InComment [c] := by
    rintro c (rfl | rfl) <;> exact .char (by decide) (by decide) (by decide) .nil
  have hname : Closed [0x22, 0x6B, 0x2C, 0x3C, 0x22, 0x20, 0x28, 0x40, 0x29, 0x20] _ :=
    .quoted hquoted <| .text (by decide) (by decide) <| .comment (hcomment 0x40 (.inl rfl)) <|
      .text (by decide) (by decide) .nil
  have hinner : Closed [0x41, 0x40, 0x62] _ :=
    .text (by decide) (by decide) <| .text (by decide) (by decide) <|
      .text (by decide) (by decide) .nil
  have hbehind : Closed [0x20, 0x28, 0x63, 0x29] _ :=
    .text (by decide) (by decide) (.comment (hcomment 0x63 (.inr rfl)) .nil)
  have htwo : Closed [0x41, 0x40, 0x62, 0x2C, 0x63, 0x40, 0x64] _ :=
    hinner.append <| .text (by decide) (by decide) <| .text (by decide) (by decide) <|
      .text (by decide) (by decide) <| .text (by decide) (by decide) .nil
  have hopens : Closed [0x41, 0x40, 0x62, 0x20] _ := hinner.append (.text (by decide) (by decide) .nil)
  have hunclosed : CommentOpen [0x63] := commentOpen_of_not_mem (by decide)
  refine ⟨(sender_of_header asciiTables).1 _ _ _ ⟨⟨⟨[0x41], [0x62], rfl, by decide⟩, by decide,
    by decide, by decide⟩, ⟨_, hname, by decide⟩, ⟨_, hinner, by decide⟩, ⟨_, hbehind, by decide⟩⟩,
    (sender_of_header asciiTables).2.1 _ _ (.closed htwo) (by decide),
    (sender_of_header asciiTables).2.2.1 _ _ (.first hopens (.inr ⟨[0x63], rfl, hunclosed⟩))
      (by decide), (sender_of_header asciiTables).2.2.2.1 _ fun outside hreading => ?_⟩
  have hnone : blankedOut [0x41, 0x2C, 0x20, 0x22, 0x62] = none := by decide +kernel
  rw [hreading.blankedOut] at hnone
  cases hnone

/-- `"a@b" :-( <c@d.se>` leaves a comment open behind an @, which a quoted name writes. -/
theorem sender_of_smiley : ¬∀ raw before outside, Closed before outside → OpensBehind raw before →
    AT ∈ before → asciiTables.addressFrom raw = none := by
  intro hnone
  have hname : Closed [0x22, 0x61, 0x40, 0x62, 0x22, 0x20, 0x3A, 0x2D] _ :=
    .quoted (.char (by decide) (by decide) <| .char (by decide) (by decide) <|
      .char (by decide) (by decide) .nil) <|
      .text (by decide) (by decide) <| .text (by decide) (by decide) <| .text (by decide) (by decide) .nil
  have hopen : CommentOpen [0x20, 0x3C, 0x63, 0x40, 0x64, 0x2E, 0x73, 0x65, 0x3E] :=
    commentOpen_of_not_mem (by decide)
  have hsender := hnone _ _ _ hname (.inr ⟨_, rfl, hopen⟩) (by decide)
  exact absurd hsender (by decide +kernel)

end OpenBrf.Mime
