import Mathlib.Data.List.Basic
import Mathlib.Data.List.Forall2
import Mathlib.Tactic.Common

/-!
# Regex.Pattern — patterns and where a backtracking matcher finds them

A pattern over any alphabet, in which what is repeated without a bound is one character of a class.
`run` lists the ways a pattern matches at one place, the one that is tried first in front; `findAll`
is a global search, from the left and past what it has found.  `Spells` says what a pattern matches
with no mention of the order.
-/

namespace Regex

variable {α β : Type}

inductive Pattern (α : Type) where
  | empty
  /-- One character of a class. -/
  | one (p : α → Bool)
  | seq (a b : Pattern α)
  /-- Either, the first where both match. -/
  | either (a b : Pattern α)
  /-- Characters of a class, as many as there are. -/
  | many (p : α → Bool)
  /-- Not right after a character of the class. -/
  | notAfter (p : α → Bool)
  /-- Not right before a character of the class. -/
  | notBefore (p : α → Bool)

namespace Pattern

def optional (a : Pattern α) : Pattern α := either a empty

def times (p : α → Bool) : ℕ → Pattern α
  | 0 => empty
  | n + 1 => seq (one p) (times p n)

/-- A place in a text: the character before it, and what follows it. -/
structure Place (α : Type) where
  prev : Option α
  rest : List α

/-- The places behind the characters of a class, the furthest first. -/
def runMany (p : α → Bool) : Option α → List α → List (Place α)
  | prev, [] => [⟨prev, []⟩]
  | prev, x :: rest =>
    if p x then runMany p (some x) rest ++ [⟨prev, x :: rest⟩] else [⟨prev, x :: rest⟩]

/-- The places a match that starts here may end, as they are tried. -/
def run : Pattern α → Place α → List (Place α)
  | empty, here => [here]
  | one p, here =>
    match here.rest with
    | [] => []
    | x :: rest => if p x then [⟨some x, rest⟩] else []
  | seq a b, here => (run a here).flatMap (run b)
  | either a b, here => run a here ++ run b here
  | many p, here => runMany p here.prev here.rest
  | notAfter p, here => if here.prev.any p then [] else [here]
  | notBefore p, here => if here.rest.head?.any p then [] else [here]

/-- The character before a place that lies a word further. -/
def lastOf (prev : Option α) (word : List α) : Option α := word.getLast?.or prev

@[simp] theorem lastOf_nil (prev : Option α) : lastOf prev [] = prev := rfl

theorem lastOf_append (prev : Option α) (u v : List α) :
    lastOf prev (u ++ v) = lastOf (lastOf prev u) v := by
  unfold lastOf
  rw [List.getLast?_append, Option.or_assoc]

@[simp] theorem lastOf_cons (prev : Option α) (x : α) (word : List α) :
    lastOf prev (x :: word) = lastOf (some x) word := lastOf_append prev [x] word

/-- The words a pattern matches, between what stands before and after them. -/
def Spells : Pattern α → Option α → List α → List α → Prop
  | empty, _, word, _ => word = []
  | one p, _, word, _ => ∃ x, p x = true ∧ word = [x]
  | seq a b, prev, word, after => ∃ u v, word = u ++ v ∧ Spells a prev u (v ++ after) ∧
      Spells b (lastOf prev u) v after
  | either a b, prev, word, after => Spells a prev word after ∨ Spells b prev word after
  | many p, _, word, _ => ∀ x ∈ word, p x = true
  | notAfter p, prev, word, _ => word = [] ∧ prev.any p = false
  | notBefore p, _, word, after => word = [] ∧ after.head?.any p = false

theorem mem_runMany {p : α → Bool} {there : Place α} : ∀ {rest : List α} {prev : Option α},
    there ∈ runMany p prev rest ↔ ∃ word, rest = word ++ there.rest ∧
      there.prev = lastOf prev word ∧ ∀ x ∈ word, p x = true := by
  intro rest
  induction rest with
  | nil =>
    intro prev
    unfold runMany
    rw [List.mem_singleton]
    constructor
    · rintro rfl
      exact ⟨[], rfl, rfl, nofun⟩
    · rintro ⟨word, hrest, hprev, -⟩
      obtain ⟨rfl, hnil⟩ := List.append_eq_nil_iff.mp hrest.symm
      obtain ⟨prev', rest'⟩ := there
      obtain rfl : rest' = [] := hnil
      obtain rfl : prev' = prev := hprev
      rfl
  | cons x rest ih =>
    intro prev
    have hhere : ∀ there : Place α, there = ⟨prev, x :: rest⟩ → ∃ word,
        x :: rest = word ++ there.rest ∧ there.prev = lastOf prev word ∧
          ∀ y ∈ word, p y = true := by
      rintro there rfl
      exact ⟨[], rfl, rfl, nofun⟩
    unfold runMany
    constructor
    · intro hmem
      split_ifs at hmem with hp
      · rcases List.mem_append.mp hmem with hmem | hmem
        · obtain ⟨word, hrest, hprev, hword⟩ := ih.mp hmem
          refine ⟨x :: word, by rw [hrest, List.cons_append], ?_, ?_⟩
          · rw [hprev, lastOf_cons]
          · intro y hy
            rcases List.mem_cons.mp hy with rfl | hy
            · exact hp
            · exact hword y hy
        · exact hhere there (List.mem_singleton.mp hmem)
      · exact hhere there (List.mem_singleton.mp hmem)
    · rintro ⟨word, hrest, hprev, hword⟩
      cases word with
      | nil =>
        have heq : there = ⟨prev, x :: rest⟩ := by
          obtain ⟨prev', rest'⟩ := there
          obtain rfl : prev' = prev := hprev
          obtain rfl : x :: rest = rest' := hrest
          rfl
        split_ifs
        · exact List.mem_append_right _ (List.mem_singleton.mpr heq)
        · exact List.mem_singleton.mpr heq
      | cons y word =>
        obtain ⟨rfl, htail⟩ := List.cons.inj hrest
        rw [if_pos (hword x List.mem_cons_self)]
        refine List.mem_append_left _ (ih.mpr ⟨word, htail, ?_, ?_⟩)
        · rw [hprev, lastOf_cons]
        · exact fun y hy => hword y (List.mem_cons_of_mem _ hy)

/-- A match of a pattern that starts here ends there. -/
def Ends (r : Pattern α) (here there : Place α) : Prop :=
  ∃ word, here.rest = word ++ there.rest ∧ there.prev = lastOf here.prev word ∧
    Spells r here.prev word there.rest

section Ends

variable {p : α → Bool} {here there : Place α}

/-- What takes no character ends where it starts. -/
theorem stays_iff {q : Prop} : (∃ word, here.rest = word ++ there.rest ∧
    there.prev = lastOf here.prev word ∧ word = [] ∧ q) ↔ there = here ∧ q := by
  constructor
  · rintro ⟨word, hrest, hprev, rfl, hq⟩
    obtain ⟨prev, rest⟩ := here
    obtain ⟨prev', rest'⟩ := there
    obtain rfl : prev' = prev := hprev
    obtain rfl : rest = rest' := hrest
    exact ⟨rfl, hq⟩
  · rintro ⟨rfl, hq⟩
    exact ⟨[], rfl, rfl, rfl, hq⟩

theorem ends_empty : Ends empty here there ↔ there = here := by
  unfold Ends Spells
  have hstays : _ ↔ there = here ∧ True := stays_iff
  simpa using hstays

theorem ends_one : Ends (one p) here there ↔
    ∃ x rest, here.rest = x :: rest ∧ p x = true ∧ there = ⟨some x, rest⟩ := by
  constructor
  · rintro ⟨word, hrest, hprev, x, hp, rfl⟩
    obtain ⟨prev', rest'⟩ := there
    obtain rfl : prev' = some x := hprev
    exact ⟨x, rest', hrest, hp, rfl⟩
  · rintro ⟨x, rest, hrest, hp, rfl⟩
    exact ⟨[x], hrest, rfl, x, hp, rfl⟩

theorem ends_seq {a b : Pattern α} :
    Ends (seq a b) here there ↔ ∃ mid, Ends a here mid ∧ Ends b mid there := by
  constructor
  · rintro ⟨word, hrest, hprev, u, v, rfl, hspellsu, hspellsv⟩
    refine ⟨⟨lastOf here.prev u, v ++ there.rest⟩, ⟨u, ?_, rfl, hspellsu⟩, v, rfl, ?_, hspellsv⟩
    · rw [hrest, List.append_assoc]
    · rw [hprev, lastOf_append]
  · rintro ⟨mid, ⟨u, hu, hprevu, hspellsu⟩, v, hv, hprevv, hspellsv⟩
    refine ⟨u ++ v, ?_, ?_, u, v, rfl, ?_, ?_⟩
    · rw [hu, hv, List.append_assoc]
    · rw [hprevv, hprevu, lastOf_append]
    · rwa [← hv]
    · rwa [← hprevu]

theorem ends_either {a b : Pattern α} :
    Ends (either a b) here there ↔ Ends a here there ∨ Ends b here there := by
  unfold Ends
  rw [← exists_or]
  refine exists_congr fun word => ?_
  rw [← and_or_left, ← and_or_left]
  rfl

theorem ends_notAfter :
    Ends (notAfter p) here there ↔ there = here ∧ here.prev.any p = false := stays_iff

theorem ends_notBefore :
    Ends (notBefore p) here there ↔ there = here ∧ here.rest.head?.any p = false := by
  refine stays_iff.trans (and_congr_right ?_)
  rintro rfl
  rfl

theorem mem_unless {b : Bool} : there ∈ (if b then [] else [here]) ↔ there = here ∧ b = false := by
  cases b with
  | true => simp
  | false => simp

end Ends

/-- **The matcher** ends a match behind the words the pattern spells, and nowhere else. -/
theorem mem_run {there : Place α} : ∀ {r : Pattern α} {here : Place α},
    there ∈ run r here ↔ ∃ word, here.rest = word ++ there.rest ∧
      there.prev = lastOf here.prev word ∧ Spells r here.prev word there.rest := by
  intro r
  change ∀ {here : Place α}, there ∈ run r here ↔ Ends r here there
  induction r generalizing there with
  | empty =>
    intro here
    rw [ends_empty]
    exact List.mem_singleton
  | one p =>
    rintro ⟨prev, rest⟩
    rw [ends_one]
    cases rest with
    | nil => simp [run]
    | cons x rest =>
      show there ∈ (if p x then [⟨some x, rest⟩] else []) ↔ _
      by_cases hp : p x = true
      · simp [hp]
      · simp [hp]
  | seq a b iha ihb =>
    intro here
    rw [ends_seq]
    unfold run
    rw [List.mem_flatMap]
    exact exists_congr fun mid => and_congr iha ihb
  | either a b iha ihb =>
    intro here
    rw [ends_either]
    unfold run
    rw [List.mem_append, iha, ihb]
  | many p => exact mem_runMany
  | notAfter p =>
    intro here
    rw [ends_notAfter]
    exact mem_unless
  | notBefore p =>
    intro here
    rw [ends_notBefore]
    exact mem_unless

theorem spells_times {p : α → Bool} {after : List α} : ∀ {n : ℕ} {prev : Option α}
    {word : List α}, Spells (times p n) prev word after ↔
      word.length = n ∧ ∀ x ∈ word, p x = true := by
  intro n
  induction n with
  | zero =>
    intro prev word
    unfold times Spells
    rw [List.length_eq_zero_iff]
    constructor
    · rintro rfl
      exact ⟨rfl, nofun⟩
    · exact fun h => h.1
  | succ n ih =>
    intro prev word
    unfold times Spells
    constructor
    · rintro ⟨_, v, rfl, ⟨x, hp, rfl⟩, hspells⟩
      obtain ⟨hlength, hv⟩ := ih.mp hspells
      refine ⟨by rw [List.singleton_append, List.length_cons, hlength], ?_⟩
      intro y hy
      rcases List.mem_cons.mp hy with rfl | hy
      · exact hp
      · exact hv y hy
    · rintro ⟨hlength, hword⟩
      cases word with
      | nil => cases hlength
      | cons x word =>
        refine ⟨[x], word, rfl, ⟨x, hword x List.mem_cons_self, rfl⟩, ih.mpr ⟨?_, ?_⟩⟩
        · exact Nat.succ.inj hlength
        · exact fun y hy => hword y (List.mem_cons_of_mem _ hy)

/-! ### Searching a text -/

/-- The word the matcher takes here. -/
def takes (r : Pattern α) (before rest : List α) : Option (List α) :=
  (run r ⟨before.getLast?, rest⟩).head?.map fun there =>
    rest.take (rest.length - there.rest.length)

/-- A search through the rest of a text, past so many characters of it. -/
def findFrom (r : Pattern α) : ℕ → List α → List α → List (List α × List α)
  | _, _, [] => []
  | skip + 1, before, x :: rest => findFrom r skip (before ++ [x]) rest
  | 0, before, x :: rest =>
    match takes r before (x :: rest) with
    | some word => (before, word) :: findFrom r (word.length - 1) (before ++ [x]) rest
    | none => findFrom r 0 (before ++ [x]) rest

/-- What a global search finds: each word with what stands before it. -/
def findAll (r : Pattern α) (text : List α) : List (List α × List α) := findFrom r 0 [] text

/-- The pattern matches a word where it stands in a text. -/
def Occurs (r : Pattern α) (text before word : List α) : Prop :=
  ∃ after, text = before ++ word ++ after ∧ Spells r before.getLast? word after

/-- Where the matches of a pattern in a text stand apart, as any matcher finds them. -/
structure Apart (r : Pattern α) (text : List α) : Prop where
  nonempty : ∀ {before word}, Occurs r text before word → word ≠ []
  unique : ∀ {before word word'}, Occurs r text before word → Occurs r text before word' →
    word = word'
  apart : ∀ {before word before' word'}, Occurs r text before word → Occurs r text before' word' →
    before.length < before'.length → before.length + word.length ≤ before'.length

theorem takes_some {r : Pattern α} {before rest word : List α} (h : takes r before rest = some word) :
    Occurs r (before ++ rest) before word := by
  unfold takes at h
  obtain ⟨there, hthere, rfl⟩ := Option.map_eq_some_iff.mp h
  obtain ⟨word, hrest, -, hspells⟩ := mem_run.mp (List.mem_of_mem_head? hthere)
  have htake : rest.take (rest.length - there.rest.length) = word := by
    dsimp only at hrest
    rw [hrest, List.length_append, Nat.add_sub_cancel, List.take_left']
    rfl
  rw [htake]
  refine ⟨there.rest, ?_, hspells⟩
  rw [List.append_assoc, ← hrest]

theorem takes_none {r : Pattern α} {before rest : List α} (h : takes r before rest = none)
    (word : List α) : ¬ Occurs r (before ++ rest) before word := by
  rintro ⟨after, htext, hspells⟩
  rw [List.append_assoc] at htext
  have hmem : (⟨lastOf before.getLast? word, after⟩ : Place α) ∈ run r ⟨before.getLast?, rest⟩ :=
    mem_run.mpr ⟨word, List.append_cancel_left htext, rfl, hspells⟩
  unfold takes at h
  rw [Option.map_eq_none_iff, List.head?_eq_none_iff] at h
  rw [h] at hmem
  cases hmem

theorem Occurs.length_le {r : Pattern α} {text before word : List α} (h : Occurs r text before word) :
    before.length + word.length ≤ text.length := by
  obtain ⟨after, rfl, -⟩ := h
  rw [List.length_append, List.length_append]
  omega

theorem Occurs.eq_of_length {r : Pattern α} {text before before' word word' : List α}
    (h : Occurs r text before word) (h' : Occurs r text before' word')
    (hlength : before.length = before'.length) : before = before' := by
  obtain ⟨after, rfl, -⟩ := h
  obtain ⟨after', htext, -⟩ := h'
  rw [List.append_assoc, List.append_assoc] at htext
  exact (List.append_inj htext hlength).1

theorem mem_findFrom {r : Pattern α} {text : List α} (hr : Apart r text) {before word : List α} :
    ∀ {rest passed : List α} {skip : ℕ}, text = passed ++ rest →
      (∀ {before word}, Occurs r text before word → passed.length ≤ before.length →
        passed.length + skip ≤ before.length) →
      ((before, word) ∈ findFrom r skip passed rest ↔
        Occurs r text before word ∧ passed.length ≤ before.length) := by
  intro rest
  induction rest with
  | nil =>
    intro passed skip htext _
    unfold findFrom
    constructor
    · intro h
      cases h
    · rintro ⟨hoccurs, hle⟩
      have hlen := hoccurs.length_le
      rw [htext, List.append_nil] at hlen
      have hword := List.length_pos_of_ne_nil (hr.nonempty hoccurs)
      omega
  | cons x rest ih =>
    intro passed skip htext hskip
    have htext' : text = passed ++ [x] ++ rest := by
      rw [htext, List.append_assoc, List.singleton_append]
    have hlen : (passed ++ [x]).length = passed.length + 1 := by
      rw [List.length_append, List.length_singleton]
    cases skip with
    | succ skip =>
      unfold findFrom
      rw [ih htext' fun hoccurs hle => ?_, hlen]
      · refine and_congr_right fun hoccurs => ⟨fun hle => by omega, fun hle => ?_⟩
        have hpast := hskip hoccurs hle
        omega
      · have hpast := hskip hoccurs (by omega)
        omega
    | zero =>
      unfold findFrom
      cases htakes : takes r passed (x :: rest) with
      | some found =>
        have hfound : Occurs r text passed found := htext ▸ takes_some htakes
        have hpos := List.length_pos_of_ne_nil (hr.nonempty hfound)
        show (before, word) ∈ (passed, found) :: findFrom r (found.length - 1) (passed ++ [x]) rest ↔ _
        rw [List.mem_cons, ih htext' fun hoccurs hle => ?_, hlen]
        · constructor
          · rintro (heq | ⟨hoccurs, hle⟩)
            · obtain ⟨rfl, rfl⟩ := Prod.mk.inj heq
              exact ⟨hfound, Nat.le_refl _⟩
            · exact ⟨hoccurs, by omega⟩
          · rintro ⟨hoccurs, hle⟩
            rcases Nat.eq_or_lt_of_le hle with heq | hlt
            · obtain rfl := hfound.eq_of_length hoccurs heq
              rw [hr.unique hoccurs hfound]
              exact .inl rfl
            · exact .inr ⟨hoccurs, hlt⟩
        · have hpast := hr.apart hfound hoccurs (by omega)
          omega
      | none =>
        show (before, word) ∈ findFrom r 0 (passed ++ [x]) rest ↔ _
        rw [ih htext' fun hoccurs hle => by omega, hlen]
        refine and_congr_right fun hoccurs => ⟨fun hle => by omega, fun hle => ?_⟩
        rcases Nat.eq_or_lt_of_le hle with heq | hlt
        · obtain ⟨after, hafter, hspells⟩ := hoccurs
          have hpassed : passed = before := by
            rw [htext, List.append_assoc] at hafter
            exact (List.append_inj hafter heq).1
          rw [htext] at hafter
          exact absurd ⟨after, hpassed ▸ hafter, hpassed ▸ hspells⟩ (takes_none htakes word)
        · exact hlt

/-- **A search** for matches that stand apart finds all of them. -/
theorem mem_findAll {r : Pattern α} {text : List α} (hr : Apart r text) {before word : List α} :
    (before, word) ∈ findAll r text ↔ Occurs r text before word := by
  unfold findAll
  rw [mem_findFrom hr rfl fun _ _ => Nat.zero_le _]
  exact and_iff_left (Nat.zero_le _)

/-- What a search finds, in order, one match past the other. -/
def InOrder (found : List (List α × List α)) : Prop :=
  found.Pairwise fun a b => a.1.length + a.2.length ≤ b.1.length

theorem le_of_mem_findFrom {r : Pattern α} {before word : List α} :
    ∀ {rest passed : List α} {skip : ℕ}, (before, word) ∈ findFrom r skip passed rest →
      passed.length + skip ≤ before.length := by
  intro rest
  induction rest with
  | nil =>
    intro passed skip h
    cases h
  | cons x rest ih =>
    intro passed skip h
    have hlen : (passed ++ [x]).length = passed.length + 1 := by
      rw [List.length_append, List.length_singleton]
    cases skip with
    | succ skip =>
      have hle : (passed ++ [x]).length + skip ≤ before.length := ih h
      omega
    | zero =>
      unfold findFrom at h
      cases htakes : takes r passed (x :: rest) with
      | some found =>
        rw [htakes] at h
        rcases List.mem_cons.mp h with heq | h
        · obtain ⟨rfl, rfl⟩ := Prod.mk.inj heq
          exact Nat.le_refl _
        · have hle := ih h
          omega
      | none =>
        rw [htakes] at h
        have hle := ih h
        omega

theorem inOrder_findFrom {r : Pattern α} : ∀ {rest passed : List α} {skip : ℕ},
    InOrder (findFrom r skip passed rest) := by
  intro rest
  induction rest with
  | nil => exact fun {passed skip} => .nil
  | cons x rest ih =>
    intro passed skip
    cases skip with
    | succ skip =>
      show InOrder (findFrom r skip (passed ++ [x]) rest)
      exact ih
    | zero =>
      unfold findFrom
      cases takes r passed (x :: rest) with
      | some found =>
        refine List.pairwise_cons.mpr ⟨fun next hnext => ?_, ih⟩
        have hle : (passed ++ [x]).length + (found.length - 1) ≤ next.1.length :=
          le_of_mem_findFrom hnext
        rw [List.length_append, List.length_singleton] at hle
        show passed.length + found.length ≤ next.1.length
        omega
      | none => exact ih

theorem inOrder_findAll (r : Pattern α) (text : List α) : InOrder (findAll r text) :=
  inOrder_findFrom

theorem findFrom_skip {r : Pattern α} : ∀ {word before rest : List α},
    findFrom r word.length before (word ++ rest) = findFrom r 0 (before ++ word) rest
  | [], before, rest => by rw [List.append_nil]; rfl
  | x :: word, before, rest => by
    show findFrom r word.length (before ++ [x]) (word ++ rest) = _
    rw [findFrom_skip, List.append_assoc, List.singleton_append]

/-- The word that is the only one to match here is taken, and the search goes on behind it. -/
theorem findFrom_word {r : Pattern α} {before word rest : List α} (hne : word ≠ [])
    (hoccurs : Occurs r (before ++ (word ++ rest)) before word)
    (honly : ∀ word', Occurs r (before ++ (word ++ rest)) before word' → word' = word) :
    findFrom r 0 before (word ++ rest) = (before, word) :: findFrom r 0 (before ++ word) rest := by
  obtain ⟨x, word, rfl⟩ := List.exists_cons_of_ne_nil hne
  cases htakes : takes r before (x :: word ++ rest) with
  | none => exact absurd hoccurs (takes_none htakes _)
  | some found =>
    obtain rfl := honly found (takes_some htakes)
    have hskip : findFrom r word.length (before ++ [x]) (word ++ rest) = _ := findFrom_skip
    rw [List.append_assoc, List.singleton_append] at hskip
    rw [List.cons_append] at htakes
    rw [List.cons_append, findFrom, htakes, ← hskip]
    rfl

/-- Where nothing matches, the search goes on. -/
theorem findFrom_none {r : Pattern α} {before rest : List α} {x : α}
    (hnone : ∀ word, ¬ Occurs r (before ++ x :: rest) before word) :
    findFrom r 0 before (x :: rest) = findFrom r 0 (before ++ [x]) rest := by
  cases htakes : takes r before (x :: rest) with
  | some found => exact absurd (takes_some htakes) (hnone found)
  | none => rw [findFrom, htakes]

/-! ### Texts that read alike -/

def Place.map (f : β → α) (here : Place β) : Place α := ⟨here.prev.map f, here.rest.map f⟩

/-- Whether the pattern matches anywhere in a text. -/
def test (r : Pattern α) (text : List α) : Bool :=
  (List.range (text.length + 1)).any fun i =>
    !(run r ⟨(text.take i).getLast?, text.drop i⟩).isEmpty

theorem test_iff {r : Pattern α} {text : List α} :
    test r text = true ↔ ∃ before word, Occurs r text before word := by
  unfold test
  rw [List.any_eq_true]
  constructor
  · rintro ⟨i, -, hrun⟩
    rw [Bool.not_eq_true', List.isEmpty_eq_false_iff_exists_mem] at hrun
    obtain ⟨there, hthere⟩ := hrun
    obtain ⟨word, hrest, -, hspells⟩ := mem_run.mp hthere
    refine ⟨text.take i, word, there.rest, ?_, hspells⟩
    rw [List.append_assoc, ← hrest, List.take_append_drop]
  · rintro ⟨before, word, after, rfl, hspells⟩
    refine ⟨before.length, ?_, ?_⟩
    · rw [List.mem_range, List.length_append, List.length_append]
      omega
    · rw [List.append_assoc, List.take_left' rfl, List.drop_left' rfl, Bool.not_eq_true',
        List.isEmpty_eq_false_iff_exists_mem]
      exact ⟨⟨lastOf before.getLast? word, after⟩, mem_run.mpr ⟨word, rfl, rfl, hspells⟩⟩

/-- The beginning of the text. -/
def start : Pattern α := notAfter fun _ => true

theorem test_start {r : Pattern α} {text : List α} :
    test (seq start r) text = true ↔ ∃ word after, text = word ++ after ∧ Spells r none word after := by
  rw [test_iff]
  constructor
  · rintro ⟨before, word, after, rfl, u, v, rfl, ⟨rfl, hprev⟩, hspells⟩
    have hbefore : before = [] := by
      rcases List.eq_nil_or_concat before with rfl | ⟨before, x, rfl⟩
      · rfl
      · rw [List.concat_eq_append, List.getLast?_append] at hprev
        cases hprev
    subst hbefore
    exact ⟨v, after, rfl, hspells⟩
  · rintro ⟨word, after, rfl, hspells⟩
    exact ⟨[], word, after, rfl, [], word, rfl, ⟨rfl, rfl⟩, hspells⟩

/-- A character of each of the classes in turn. -/
def classes [DecidableEq α] : List (List α) → Pattern α
  | [] => empty
  | these :: rest => seq (one fun x => decide (x ∈ these)) (classes rest)

theorem spells_classes [DecidableEq α] {after : List α} : ∀ {these : List (List α)}
    {prev : Option α} {word : List α}, Spells (classes these) prev word after ↔
      List.Forall₂ (fun x xs => x ∈ xs) word these := by
  intro these
  induction these with
  | nil =>
    intro prev word
    rw [List.forall₂_nil_right_iff]
    rfl
  | cons xs these ih =>
    intro prev word
    unfold classes Spells
    rw [List.forall₂_cons_right_iff]
    constructor
    · rintro ⟨_, v, rfl, ⟨x, hx, rfl⟩, hspells⟩
      exact ⟨x, v, of_decide_eq_true hx, ih.mp hspells, rfl⟩
    · rintro ⟨x, v, hx, hv, rfl⟩
      exact ⟨[x], v, rfl, ⟨x, decide_eq_true hx, rfl⟩, ih.mpr hv⟩

end Pattern

end Regex
