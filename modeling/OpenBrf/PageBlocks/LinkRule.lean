import OpenBrf.Lang.CodeUnits
import OpenBrf.Regex.Pattern
import OpenBrf.Url.Scheme

/-!
# PageBlocks.LinkRule — which links a page may carry (`text-runs.ts`, `link-target.ts`)

The one rule as three readers apply it: the schema of the write path with its pattern and its
refinement, the read path with the refinement alone, and a caller of the published document with
the pattern alone.
-/

namespace OpenBrf.PageBlocks

open Lang Regex Regex.Pattern Url

namespace PAGE_CONTENT_LIMITS

def link : ℕ := 2000

end PAGE_CONTENT_LIMITS

/-- A literal of the source in ASCII. -/
def ascii (word : List Char) : List ℕ := word.map Char.toNat

def HTTP : List ℕ := ascii ['h', 't', 't', 'p']

def HTTPS : List ℕ := ascii ['h', 't', 't', 'p', 's']

def MAILTO : List ℕ := ascii ['m', 'a', 'i', 'l', 't', 'o']

/-- Each letter of a word in either case, `[Hh][Tt]`. -/
def eitherCase (word : List ℕ) : List (List ℕ) := word.map fun c => [c - 0x20, c]

def LINK_PATTERN : Pattern ℕ :=
  seq start <| either
    (seq (classes (eitherCase HTTP)) <|
      seq (Pattern.optional (classes (eitherCase (ascii ['s'])))) <|
        classes [[COLON], [SOLIDUS], [SOLIDUS]])
    (either (seq (classes (eitherCase MAILTO)) (classes [[COLON]])) (classes [[SOLIDUS]]))

def hasControlCharacter (value : List ℕ) : Bool :=
  (codePoints value).any fun code => code ≤ 0x20 || code = 0x7F

variable (completes : Completes)

def isPublishableUrl (value : List ℕ) : Bool :=
  if value = [] ∨ PAGE_CONTENT_LIMITS.link < value.length then false
  else if REVERSE_SOLIDUS ∈ value ∨ hasControlCharacter value then false
  else if [SOLIDUS].isPrefixOf value then !([SOLIDUS, SOLIDUS].isPrefixOf value)
  else
    match Url.parse completes none (codePoints value) with
    | none => false
    | some parsed =>
      parsed.protocol = HTTP ++ [COLON] || parsed.protocol = HTTPS ++ [COLON] ||
        parsed.protocol = MAILTO ++ [COLON]

/-- What the link of a run must satisfy in `textRunSchema`. -/
def textRunSchemaLink (link : List ℕ) : Bool :=
  test LINK_PATTERN link && isPublishableUrl completes link

/-- The link `readRunList` gives a run with one. -/
def readRunLink (link : List ℕ) : Option (List ℕ) :=
  if isPublishableUrl completes link then some link else none

/-! ### What the patterns match -/

theorem mem_eitherCase {c d : ℕ} (hd : 0x61 ≤ d ∧ d ≤ 0x7A) :
    c ∈ [d - 0x20, d] ↔ lowercased c = d := by
  rw [List.mem_cons, List.mem_singleton]
  unfold lowercased
  split_ifs <;> omega

/-- The letters of a word, in whatever case they are written. -/
theorem forall_eitherCase : ∀ {word written : List ℕ}, (∀ d ∈ word, 0x61 ≤ d ∧ d ≤ 0x7A) →
    (List.Forall₂ (fun x xs => x ∈ xs) written (eitherCase word) ↔ written.map lowercased = word)
  | [], written, _ => by
    show List.Forall₂ _ written [] ↔ _
    rw [List.forall₂_nil_right_iff, List.map_eq_nil_iff]
  | d :: word, [], _ => by
    constructor
    · intro h
      cases h
    · intro h
      cases h
  | d :: word, c :: written, hword => by
    show List.Forall₂ _ (c :: written) ([d - 0x20, d] :: eitherCase word) ↔ _
    rw [List.forall₂_cons, mem_eitherCase (hword d List.mem_cons_self),
      forall_eitherCase fun e he => hword e (List.mem_cons_of_mem _ he), List.map_cons,
      List.cons.injEq]

theorem spells_eitherCase {word written after : List ℕ} {prev : Option ℕ}
    (hword : ∀ d ∈ word, 0x61 ≤ d ∧ d ≤ 0x7A) :
    Spells (classes (eitherCase word)) prev written after ↔ written.map lowercased = word := by
  rw [spells_classes, forall_eitherCase hword]

theorem spells_literal (literal : List ℕ) {written after : List ℕ} {prev : Option ℕ} :
    Spells (classes (literal.map fun c => [c])) prev written after ↔ written = literal := by
  rw [spells_classes, List.forall₂_map_right_iff]
  simp only [List.mem_singleton]
  exact List.forall₂_eq_eq_eq ▸ Iff.rfl

/-- The scheme an address writes in front of a colon, in lower case, and what follows. -/
def Writes (value scheme rest : List ℕ) : Prop :=
  ∃ letters, value = letters ++ COLON :: rest ∧ letters.map lowercased = scheme

theorem letters_HTTP : ∀ d ∈ HTTP, 0x61 ≤ d ∧ d ≤ 0x7A := by decide

theorem letters_MAILTO : ∀ d ∈ MAILTO, 0x61 ≤ d ∧ d ≤ 0x7A := by decide

theorem spells_colonSlashes {written after : List ℕ} {prev : Option ℕ} :
    Spells (classes [[COLON], [SOLIDUS], [SOLIDUS]]) prev written after ↔
      written = [COLON, SOLIDUS, SOLIDUS] := spells_literal [COLON, SOLIDUS, SOLIDUS]

theorem spells_mark {c : ℕ} {written after : List ℕ} {prev : Option ℕ} :
    Spells (classes [[c]]) prev written after ↔ written = [c] := spells_literal [c]

theorem test_LINK_PATTERN {value : List ℕ} :
    test LINK_PATTERN value = true ↔
      (∃ scheme rest, (scheme = HTTP ∨ scheme = HTTPS) ∧
        Writes value scheme (SOLIDUS :: SOLIDUS :: rest)) ∨
      (∃ rest, Writes value MAILTO rest) ∨ ∃ rest, value = SOLIDUS :: rest := by
  unfold LINK_PATTERN
  rw [test_start]
  constructor
  · rintro ⟨_, after, rfl, h | h | h⟩
    · obtain ⟨u, _, rfl, hu, v, w, rfl, hv, hw⟩ := h
      rw [spells_eitherCase letters_HTTP] at hu
      rw [spells_colonSlashes] at hw
      subst hw
      rcases hv with hv | hv
      · rw [spells_eitherCase (by decide)] at hv
        refine .inl ⟨HTTPS, after, .inr rfl, u ++ v, by simp, ?_⟩
        rw [List.map_append, hu, hv]
        rfl
      · obtain rfl : v = [] := hv
        exact .inl ⟨HTTP, after, .inl rfl, u, by simp, hu⟩
    · obtain ⟨u, v, rfl, hu, hv⟩ := h
      rw [spells_eitherCase letters_MAILTO] at hu
      rw [spells_mark] at hv
      subst hv
      exact .inr (.inl ⟨after, u, by simp, hu⟩)
    · rw [spells_mark] at h
      subst h
      exact .inr (.inr ⟨after, rfl⟩)
  · rintro (⟨scheme, rest, hscheme, letters, rfl, hletters⟩ | ⟨rest, letters, rfl, hletters⟩ |
      ⟨rest, rfl⟩)
    · rcases hscheme with rfl | rfl
      · refine ⟨letters ++ [COLON, SOLIDUS, SOLIDUS], rest, by simp, .inl ⟨letters, _, rfl, ?_, ?_⟩⟩
        · rwa [spells_eitherCase letters_HTTP]
        · exact ⟨[], _, rfl, .inr rfl, spells_colonSlashes.mpr rfl⟩
      · have hsplit : letters = letters.take 4 ++ letters.drop 4 := (List.take_append_drop 4 _).symm
        refine ⟨letters ++ [COLON, SOLIDUS, SOLIDUS], rest, by simp, .inl ⟨letters.take 4,
          letters.drop 4 ++ [COLON, SOLIDUS, SOLIDUS], ?_, ?_, ?_⟩⟩
        · rw [← List.append_assoc, ← hsplit]
        · rw [spells_eitherCase letters_HTTP, List.map_take, hletters]
          rfl
        · refine ⟨letters.drop 4, _, rfl, .inl ?_, spells_colonSlashes.mpr rfl⟩
          rw [spells_eitherCase (by decide), List.map_drop, hletters]
          rfl
    · refine ⟨letters ++ [COLON], rest, by simp, .inr (.inl ⟨letters, _, rfl, ?_, ?_⟩)⟩
      · rwa [spells_eitherCase letters_MAILTO]
      · exact spells_mark.mpr rfl
    · exact ⟨[SOLIDUS], rest, rfl, .inr (.inr (spells_mark.mpr rfl))⟩

/-- The letters in front of a colon are told by the address. -/
theorem Writes.inj {value scheme scheme' rest rest' : List ℕ} (h : Writes value scheme rest)
    (h' : Writes value scheme' rest') (hscheme : COLON ∉ scheme) (hscheme' : COLON ∉ scheme') :
    scheme = scheme' ∧ rest = rest' := by
  obtain ⟨letters, rfl, rfl⟩ := h
  obtain ⟨letters', heq, rfl⟩ := h'
  have hcolon : ∀ {word : List ℕ}, COLON ∉ word.map lowercased → COLON ∉ word := by
    intro word hword hmem
    exact hword (List.mem_map.mpr ⟨COLON, hmem, rfl⟩)
  obtain ⟨rfl, rfl⟩ := colon_inj (hcolon hscheme) (hcolon hscheme') heq
  exact ⟨rfl, rfl⟩

/-! ### What is accepted -/

variable {completes} {value : List ℕ}

/-- What the hand check of `isPublishableUrl` lets through. -/
structure Printable (value : List ℕ) : Prop where
  noBackslash : REVERSE_SOLIDUS ∉ value
  noControl : ∀ c ∈ codePoints value, 0x20 < c

theorem printable_of_accepted (h : isPublishableUrl completes value = true) : Printable value := by
  unfold isPublishableUrl at h
  split_ifs at h with hlength hrefused
  all_goals
    rw [not_or] at hrefused
    refine ⟨hrefused.1, fun c hc => ?_⟩
    have hcontrol := List.any_eq_false.mp (Bool.not_eq_true _ ▸ hrefused.2) c hc
    simp only [Bool.or_eq_true, decide_eq_true_eq, not_or] at hcontrol
    exact Nat.lt_of_not_le hcontrol.1

/-- **An accepted address** is a path of this instance or writes one of the three schemes. -/
theorem written_of_accepted (h : isPublishableUrl completes value = true) :
    (∃ rest, value = SOLIDUS :: rest ∧ ¬ [SOLIDUS] <+: rest) ∨
      ∃ scheme rest, (scheme = HTTP ∨ scheme = HTTPS ∨ scheme = MAILTO) ∧
        Writes value scheme rest ∧ ∃ after, schemeStartState (prepared (codePoints value)) =
          some (scheme, after) := by
  have hprintable := (printable_of_accepted h).noControl
  unfold isPublishableUrl at h
  split_ifs at h with hlength hrefused hsolidus
  · left
    obtain ⟨rest, rfl⟩ := List.isPrefixOf_iff_prefix.mp hsolidus
    refine ⟨rest, rfl, fun hprefix => ?_⟩
    rw [Bool.not_eq_true', ← Bool.not_eq_true, List.isPrefixOf_iff_prefix] at h
    exact h (List.cons_prefix_cons.mpr ⟨rfl, hprefix⟩)
  · right
    cases hparse : Url.parse completes none (codePoints value) with
    | none =>
      rw [hparse] at h
      cases h
    | some parsed =>
      rw [hparse] at h
      obtain ⟨after, hscheme⟩ := parse_alone hparse
      obtain ⟨letters, tail, htext, hletters, hall⟩ := scheme_written hprintable hscheme
      have hascii : ∀ c ∈ letters ++ [COLON], c < 0xD800 := by
        intro c hc
        rcases List.mem_append.mp hc with hc | hc
        · have hlt := isSchemeCharacter_lt (hall c hc)
          omega
        · obtain rfl := List.mem_singleton.mp hc
          decide
      rw [← List.singleton_append, ← List.append_assoc] at htext
      obtain ⟨rest, hvalue, -⟩ := append_of_codePoints hascii htext
      refine ⟨parsed.scheme, rest, ?_, ⟨letters, ?_, hletters.symm⟩, after, hscheme⟩
      · simp only [Bool.or_eq_true, decide_eq_true_eq, Parsed.protocol,
          List.append_left_inj] at h
        rcases h with (h | h) | h
        · exact .inl h
        · exact .inr (.inl h)
        · exact .inr (.inr h)
      · rw [hvalue, List.append_assoc, List.singleton_append]

/-- Resolved against an https address, an address is on its origin or has one of the schemes. -/
def Lands (value : List ℕ) : Prop :=
  ∀ completes resolved, Url.parse completes (some HTTPS) (codePoints value) = some resolved →
    (resolved.ofBase = true ∧ resolved.scheme = HTTPS) ∨
      resolved.protocol ∈ [HTTP ++ [COLON], HTTPS ++ [COLON], MAILTO ++ [COLON]]

theorem keepsAuthority_path {rest : List ℕ} (hslash : ¬ [SOLIDUS] <+: rest)
    (hbackslash : REVERSE_SOLIDUS ∉ rest) :
    keepsAuthority ((codePoints (SOLIDUS :: rest)).map scalarValue) = true := by
  rw [codePoints_cons (by decide)]
  cases hrest : codePoints rest with
  | nil => rfl
  | cons d after =>
    have hsecond : ∀ c, c < 0xD800 → c = d ∨ c = scalarValue d → ∃ tail, rest = c :: tail := by
      intro c hc heq
      have hd : d = c := by
        unfold scalarValue at heq
        split_ifs at heq <;> omega
      rw [hd] at hrest
      obtain ⟨tail, htail, -⟩ := cons_of_codePoints hc hrest
      exact ⟨tail, htail⟩
    have hnotSlash : scalarValue d ≠ SOLIDUS := by
      intro heq
      obtain ⟨tail, rfl⟩ := hsecond SOLIDUS (by decide) (.inr heq.symm)
      exact hslash (List.cons_prefix_cons.mpr ⟨rfl, List.nil_prefix⟩)
    have hnotBackslash : scalarValue d ≠ REVERSE_SOLIDUS := by
      intro heq
      obtain ⟨tail, rfl⟩ := hsecond REVERSE_SOLIDUS (by decide) (.inr heq.symm)
      exact hbackslash List.mem_cons_self
    simp [keepsAuthority, hnotSlash, hnotBackslash]

/-- **Every accepted address** stays on the origin or goes to one of the three schemes. -/
theorem lands_of_accepted (h : isPublishableUrl completes value = true) : Lands value := by
  obtain ⟨hbackslash, hprintable⟩ := printable_of_accepted h
  intro completes' resolved hresolved
  rcases written_of_accepted h with ⟨rest, rfl, hslash⟩ | ⟨scheme, rest, hscheme, -, after, hstart⟩
  · left
    have hnone : schemeStartState (prepared (codePoints (SOLIDUS :: rest))) = none := by
      rw [prepared_of_printable hprintable, codePoints_cons (by decide)]
      rfl
    rw [parse_relative hnone hresolved, prepared_of_printable hprintable]
    exact ⟨keepsAuthority_path hslash fun hmem => hbackslash (List.mem_cons_of_mem _ hmem), rfl⟩
  · right
    rw [Parsed.protocol, parse_scheme hstart hresolved]
    rcases hscheme with rfl | rfl | rfl <;> decide

/-! ### Where the readers agree -/

/-- Two slashes follow the scheme, where the address writes http or https. -/
def Slashed (value : List ℕ) : Prop :=
  ∀ scheme rest, scheme = HTTP ∨ scheme = HTTPS → Writes value scheme rest →
    [SOLIDUS, SOLIDUS] <+: rest

theorem matches_of_slashed (h : isPublishableUrl completes value = true) (hslashed : Slashed value) :
    test LINK_PATTERN value = true := by
  rw [test_LINK_PATTERN]
  rcases written_of_accepted h with ⟨rest, rfl, -⟩ | ⟨scheme, rest, hscheme, hwrites, -⟩
  · exact .inr (.inr ⟨rest, rfl⟩)
  · have hweb : scheme = HTTP ∨ scheme = HTTPS → ∃ scheme rest, (scheme = HTTP ∨ scheme = HTTPS) ∧
        Writes value scheme (SOLIDUS :: SOLIDUS :: rest) := by
      intro hscheme
      obtain ⟨rest', rfl⟩ := hslashed scheme rest hscheme hwrites
      exact ⟨scheme, rest', hscheme, hwrites⟩
    rcases hscheme with rfl | rfl | rfl
    · exact .inl (hweb (.inl rfl))
    · exact .inl (hweb (.inr rfl))
    · exact .inr (.inl ⟨rest, hwrites⟩)

theorem slashed_of_matches (h : test LINK_PATTERN value = true) : Slashed value := by
  intro scheme rest hscheme hwrites
  have hcolon : COLON ∉ scheme := by rcases hscheme with rfl | rfl <;> decide
  rcases test_LINK_PATTERN.mp h with ⟨scheme', after, hscheme', hwrites'⟩ | ⟨after, hwrites'⟩ |
    ⟨after, rfl⟩
  · have hcolon' : COLON ∉ scheme' := by rcases hscheme' with rfl | rfl <;> decide
    obtain ⟨-, rfl⟩ := hwrites.inj hwrites' hcolon hcolon'
    exact ⟨after, rfl⟩
  · obtain ⟨rfl, -⟩ := hwrites.inj hwrites' hcolon (by decide)
    rcases hscheme with hscheme | hscheme <;> cases hscheme
  · obtain ⟨letters, heq, rfl⟩ := hwrites
    cases letters with
    | nil => rcases hscheme with hscheme | hscheme <;> cases hscheme
    | cons c letters =>
      obtain ⟨rfl, -⟩ := List.cons.inj heq
      rcases hscheme with hscheme | hscheme <;> cases hscheme

/-- **An accepted link** is one the pattern and the write path take too, just where a web scheme is
followed by two slashes; wherever it leads, it stays within the three schemes or the origin. -/
theorem accepted_alike_iff (h : isPublishableUrl completes value = true) :
    (test LINK_PATTERN value = true ∧ textRunSchemaLink completes value = true ∧
      readRunLink completes value = some value ∧ Lands value) ↔ Slashed value := by
  constructor
  · exact fun hall => slashed_of_matches hall.1
  · intro hslashed
    have hmatches := matches_of_slashed h hslashed
    refine ⟨hmatches, Bool.and_eq_true_iff.mpr ⟨hmatches, h⟩, ?_, lands_of_accepted h⟩
    unfold readRunLink
    rw [if_pos h]

/-- What the parser makes of an address that writes its host right after the scheme. -/
def hostFollows : Completes := fun _ _ rest => !rest.isEmpty

theorem alike_of_slashes :
    (test LINK_PATTERN (ascii ['H', 't', 't', 'p', ':', '/', '/', 'a']) = true ∧
      textRunSchemaLink hostFollows (ascii ['H', 't', 't', 'p', ':', '/', '/', 'a']) = true ∧
      readRunLink hostFollows (ascii ['H', 't', 't', 'p', ':', '/', '/', 'a']) =
        some (ascii ['H', 't', 't', 'p', ':', '/', '/', 'a']) ∧
      Lands (ascii ['H', 't', 't', 'p', ':', '/', '/', 'a'])) ↔
    Slashed (ascii ['H', 't', 't', 'p', ':', '/', '/', 'a']) :=
  accepted_alike_iff (by decide)

/-- The host without its slashes, https:exempel.se. -/
def UNSLASHED : List ℕ :=
  ascii ['h', 't', 't', 'p', 's', ':', 'e', 'x', 'e', 'm', 'p', 'e', 'l', '.', 's', 'e']

theorem accepted_unmatched :
    isPublishableUrl hostFollows UNSLASHED = true ∧ test LINK_PATTERN UNSLASHED = false ∧
      textRunSchemaLink hostFollows UNSLASHED = false := by
  decide

end OpenBrf.PageBlocks
