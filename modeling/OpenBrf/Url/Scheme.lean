import Mathlib.Data.List.Basic
import Mathlib.Tactic.Common

/-!
# Url.Scheme — how a WHATWG URL parser reads a scheme

The part of the basic URL parser that decides the scheme of an address and whether it keeps the
authority of the base it is resolved against.  The base is one of a special scheme other than
`file:`.  Whether the rest of the address parses, its host, its port and its path, is a parameter.
-/

namespace Url

def COLON : ℕ := 0x3A

def SOLIDUS : ℕ := 0x2F

def REVERSE_SOLIDUS : ℕ := 0x5C

/-- A scalar value string keeps no half of a surrogate pair. -/
def scalarValue (c : ℕ) : ℕ := if 0xD800 ≤ c ∧ c ≤ 0xDFFF then 0xFFFD else c

/-- A C0 control, or space. -/
def isControlOrSpace (c : ℕ) : Bool := c ≤ 0x20

def isTabOrNewline (c : ℕ) : Bool := c = 0x9 || c = 0xA || c = 0xD

def isAlpha (c : ℕ) : Bool := (0x41 ≤ c && c ≤ 0x5A) || (0x61 ≤ c && c ≤ 0x7A)

def lowercased (c : ℕ) : ℕ := if 0x41 ≤ c ∧ c ≤ 0x5A then c + 0x20 else c

/-- What the scheme state takes: an alphanumeric, a plus, a hyphen or a full stop. -/
def isSchemeCharacter (c : ℕ) : Bool :=
  isAlpha c || (0x30 ≤ c && c ≤ 0x39) || c = 0x2B || c = 0x2D || c = 0x2E

/-- The input as the states read it. -/
def prepared (input : List ℕ) : List ℕ :=
  ((((input.map scalarValue).dropWhile isControlOrSpace).reverse.dropWhile
    isControlOrSpace).reverse).filter fun c => !isTabOrNewline c

/-- The scheme state: the buffer it ends with, and what follows the colon. -/
def schemeState : List ℕ → Option (List ℕ × List ℕ)
  | [] => none
  | c :: rest =>
    if c = COLON then some ([], rest)
    else if isSchemeCharacter c then
      (schemeState rest).map fun (buffer, after) => (lowercased c :: buffer, after)
    else none

/-- The scheme start state. -/
def schemeStartState : List ℕ → Option (List ℕ × List ℕ)
  | [] => none
  | c :: rest =>
    if isAlpha c then
      (schemeState rest).map fun (buffer, after) => (lowercased c :: buffer, after)
    else none

/-- Whether the relative state keeps the authority of its base. -/
def keepsAuthority : List ℕ → Bool
  | c :: d :: _ => !((c = SOLIDUS || c = REVERSE_SOLIDUS) && (d = SOLIDUS || d = REVERSE_SOLIDUS))
  | _ => true

/-- What is read here of a parsed address. -/
structure Parsed where
  scheme : List ℕ
  /-- Its host and port are those of the base. -/
  ofBase : Bool
  deriving DecidableEq, Repr

def Parsed.protocol (parsed : Parsed) : List ℕ := parsed.scheme ++ [COLON]

/-- Whether the states after the scheme succeed, of an address with its scheme and what follows. -/
abbrev Completes := Option (List ℕ) → List ℕ → List ℕ → Bool

/-- The basic URL parser over code points, against the scheme of its base. -/
def parse (completes : Completes) (base : Option (List ℕ)) (input : List ℕ) :
    Option Parsed :=
  let text := prepared input
  match schemeStartState text with
  | some (scheme, rest) =>
    if completes base scheme rest then
      some ⟨scheme, base = some scheme && !([SOLIDUS, SOLIDUS].isPrefixOf rest) &&
        keepsAuthority rest⟩
    else none
  | none =>
    match base with
    | none => none
    | some scheme =>
      if completes base scheme text then some ⟨scheme, keepsAuthority text⟩ else none

/-! ### Texts with no control character -/

theorem dropWhile_eq_self {p : ℕ → Bool} : ∀ {text : List ℕ},
    (∀ c ∈ text, p c = false) → text.dropWhile p = text
  | [], _ => rfl
  | c :: text, h => by
    rw [List.dropWhile_cons, if_neg]
    rw [h c List.mem_cons_self]
    exact Bool.false_ne_true

theorem scalarValue_le_iff {c bound : ℕ} (h : bound < 0xD800) :
    scalarValue c ≤ bound ↔ c ≤ bound := by
  unfold scalarValue
  split_ifs <;> omega

/-- The states read an address with no control character as it is written. -/
theorem prepared_of_printable {input : List ℕ} (h : ∀ c ∈ input, 0x20 < c) :
    prepared input = input.map scalarValue := by
  have hlow : ∀ c ∈ input.map scalarValue, ¬ c ≤ 0x20 := by
    intro c hc
    obtain ⟨d, hd, rfl⟩ := List.mem_map.mp hc
    have hpos := h d hd
    rw [scalarValue_le_iff (by omega)]
    omega
  have hkept : ∀ c ∈ input.map scalarValue, isControlOrSpace c = false := by
    intro c hc
    exact decide_eq_false (hlow c hc)
  unfold prepared
  rw [dropWhile_eq_self hkept, dropWhile_eq_self, List.reverse_reverse, List.filter_eq_self]
  · intro c hc
    have hlow := hlow c hc
    unfold isTabOrNewline
    have h9 : c ≠ 0x9 := by omega
    have hA : c ≠ 0xA := by omega
    have hD : c ≠ 0xD := by omega
    simp [h9, hA, hD]
  · intro c hc
    exact hkept c (List.mem_reverse.mp hc)

/-! ### The scheme as it is written -/

theorem isSchemeCharacter_lt {c : ℕ} (h : isSchemeCharacter c = true) : c < 0x80 := by
  unfold isSchemeCharacter isAlpha at h
  simp only [Bool.or_eq_true, Bool.and_eq_true, decide_eq_true_eq] at h
  omega

theorem isSchemeCharacter_of_isAlpha {c : ℕ} (h : isAlpha c = true) :
    isSchemeCharacter c = true := by
  unfold isSchemeCharacter
  rw [h, Bool.true_or, Bool.true_or, Bool.true_or, Bool.true_or]

theorem schemeState_some : ∀ {text buffer after : List ℕ},
    schemeState text = some (buffer, after) → ∃ written, text = written ++ COLON :: after ∧
      buffer = written.map lowercased ∧ ∀ c ∈ written, isSchemeCharacter c = true := by
  intro text
  induction text with
  | nil =>
    intro buffer after h
    cases h
  | cons c text ih =>
    intro buffer after h
    unfold schemeState at h
    split_ifs at h with hcolon hchar
    · obtain ⟨rfl, rfl⟩ := Prod.mk.inj (Option.some.inj h)
      exact ⟨[], by rw [hcolon, List.nil_append], rfl, nofun⟩
    · obtain ⟨⟨buffer', after'⟩, hrest, heq⟩ := Option.map_eq_some_iff.mp h
      obtain ⟨rfl, rfl⟩ := Prod.mk.inj heq
      obtain ⟨written, rfl, rfl, hall⟩ := ih hrest
      refine ⟨c :: written, rfl, rfl, ?_⟩
      intro d hd
      rcases List.mem_cons.mp hd with rfl | hd
      · exact hchar
      · exact hall d hd

theorem schemeStartState_some {text buffer after : List ℕ}
    (h : schemeStartState text = some (buffer, after)) :
    ∃ written, text = written ++ COLON :: after ∧ buffer = written.map lowercased ∧
      ∀ c ∈ written, isSchemeCharacter c = true := by
  cases text with
  | nil => cases h
  | cons c text =>
    unfold schemeStartState at h
    dsimp only at h
    split_ifs at h with halpha
    obtain ⟨⟨buffer', after'⟩, hrest, heq⟩ := Option.map_eq_some_iff.mp h
    obtain ⟨rfl, rfl⟩ := Prod.mk.inj heq
    obtain ⟨written, rfl, rfl, hall⟩ := schemeState_some hrest
    refine ⟨c :: written, rfl, rfl, ?_⟩
    intro d hd
    rcases List.mem_cons.mp hd with rfl | hd
    · exact isSchemeCharacter_of_isAlpha halpha
    · exact hall d hd

/-- What begins the scalar values of a text in ASCII begins the text. -/
theorem append_of_scalarValues : ∀ {written text after : List ℕ}, (∀ c ∈ written, c < 0xD800) →
    text.map scalarValue = written ++ after → ∃ rest, text = written ++ rest ∧
      rest.map scalarValue = after
  | [], text, after, _, h => ⟨text, rfl, h⟩
  | c :: written, [], after, _, h => by cases h
  | c :: written, d :: text, after, hwritten, h => by
    obtain ⟨hc, htext⟩ := List.cons.inj h
    have hlow := hwritten c List.mem_cons_self
    have hd : d = c := by
      unfold scalarValue at hc
      split_ifs at hc <;> omega
    obtain ⟨rest, rfl, hrest⟩ :=
      append_of_scalarValues (fun e he => hwritten e (List.mem_cons_of_mem _ he)) htext
    exact ⟨rest, by rw [hd, List.cons_append], hrest⟩

/-- **A scheme** of a printable address is written in front of its first colon. -/
theorem scheme_written {input scheme rest : List ℕ} (hprintable : ∀ c ∈ input, 0x20 < c)
    (h : schemeStartState (prepared input) = some (scheme, rest)) :
    ∃ written after, input = written ++ COLON :: after ∧ scheme = written.map lowercased ∧
      ∀ c ∈ written, isSchemeCharacter c = true := by
  rw [prepared_of_printable hprintable] at h
  obtain ⟨written, htext, hscheme, hall⟩ := schemeStartState_some h
  have hascii : ∀ c ∈ written ++ [COLON], c < 0xD800 := by
    intro c hc
    rcases List.mem_append.mp hc with hc | hc
    · have hlt := isSchemeCharacter_lt (hall c hc)
      omega
    · obtain rfl := List.mem_singleton.mp hc
      decide
  rw [List.append_cons] at htext
  obtain ⟨after, hinput, -⟩ := append_of_scalarValues hascii htext
  exact ⟨written, after, by rw [hinput, List.append_assoc, List.singleton_append], hscheme, hall⟩

/-- What stands in front of the first colon is told by the text. -/
theorem colon_inj : ∀ {a b x y : List ℕ}, COLON ∉ a → COLON ∉ b →
    a ++ COLON :: x = b ++ COLON :: y → a = b ∧ x = y
  | [], [], _, _, _, _, h => ⟨rfl, (List.cons.inj h).2⟩
  | [], d :: b, _, _, _, hb, h => by
    obtain ⟨rfl, -⟩ := List.cons.inj h
    exact absurd List.mem_cons_self hb
  | c :: a, [], _, _, ha, _, h => by
    obtain ⟨rfl, -⟩ := List.cons.inj h
    exact absurd List.mem_cons_self ha
  | c :: a, d :: b, _, _, ha, hb, h => by
    obtain ⟨rfl, htail⟩ := List.cons.inj h
    obtain ⟨rfl, hx⟩ := colon_inj (fun hmem => ha (List.mem_cons_of_mem _ hmem))
      (fun hmem => hb (List.mem_cons_of_mem _ hmem)) htail
    exact ⟨rfl, hx⟩

/-! ### Against a base -/

variable {completes : Completes} {base : Option (List ℕ)} {input : List ℕ} {parsed : Parsed}

theorem parse_alone (h : parse completes none input = some parsed) :
    ∃ rest, schemeStartState (prepared input) = some (parsed.scheme, rest) := by
  unfold parse at h
  dsimp only at h
  cases hscheme : schemeStartState (prepared input) with
  | none =>
    rw [hscheme] at h
    cases h
  | some found =>
    obtain ⟨scheme, rest⟩ := found
    rw [hscheme] at h
    dsimp only at h
    split_ifs at h
    obtain rfl := Option.some.inj h
    exact ⟨rest, rfl⟩

/-- An address that writes a scheme keeps it against any base. -/
theorem parse_scheme {scheme rest : List ℕ}
    (hscheme : schemeStartState (prepared input) = some (scheme, rest))
    (h : parse completes base input = some parsed) : parsed.scheme = scheme := by
  unfold parse at h
  dsimp only at h
  rw [hscheme] at h
  dsimp only at h
  split_ifs at h
  obtain rfl := Option.some.inj h
  rfl

/-- An address that writes no scheme has that of its base. -/
theorem parse_relative {scheme : List ℕ} (hscheme : schemeStartState (prepared input) = none)
    (h : parse completes (some scheme) input = some parsed) :
    parsed = ⟨scheme, keepsAuthority (prepared input)⟩ := by
  unfold parse at h
  dsimp only at h
  rw [hscheme] at h
  dsimp only at h
  split_ifs at h
  exact (Option.some.inj h).symm

end Url
