import OpenBrf.Lang.CodeUnits
import OpenBrf.Regex.Pattern
import OpenBrf.Rfc5322.Quoting

/-!
# Mime.FromHeader — the address a letter says it is from (`mime.ts`, `header-text.ts`)

A header is the list of its code units.  What is lower case, and which code points cannot be seen,
is told by the tables the language carries.
-/

namespace OpenBrf.Mime

open Lang Regex Regex.Pattern Rfc5322

def AT : ℕ := 0x40

def COMMA : ℕ := 0x2C

def LESS : ℕ := 0x3C

def GREATER : ℕ := 0x3E

/-! ### Blanking out -/

structure Blanked where
  text : List ℕ
  /-- A quoted string is left open. -/
  quoted : Bool
  /-- Where the outermost comment that is left open starts. -/
  opened : Option ℕ
  deriving DecidableEq, Repr

/-- The rest of a text that has been read up to here. -/
def Blanked.behind (read : List ℕ) (rest : Blanked) : Blanked := { rest with text := read ++ rest.text }

/-- The loop of `blankedFrom`, at an index. -/
def blankedLoop : (index depth : ℕ) → (quoted : Bool) → (opened : Option ℕ) → List ℕ → Blanked
  | _, depth, quoted, opened, [] => ⟨[], quoted, if 0 < depth then opened else none⟩
  | index, depth, quoted, opened, c :: rest =>
    if c = BACKSLASH ∧ (quoted = true ∨ 0 < depth) then
      match rest with
      | [] => ⟨[SPACE], quoted, if 0 < depth then opened else none⟩
      | _ :: rest => (blankedLoop (index + 2) depth quoted opened rest).behind [SPACE, SPACE]
    else if depth = 0 ∧ c = QUOTE then (blankedLoop (index + 1) depth (!quoted) opened rest).behind [SPACE]
    else if quoted = true then (blankedLoop (index + 1) depth quoted opened rest).behind [SPACE]
    else if c = OPEN then
      (blankedLoop (index + 1) (depth + 1) quoted (if depth = 0 then some index else opened)
        rest).behind [SPACE]
    else if 0 < depth then
      (blankedLoop (index + 1) (if c = CLOSE then depth - 1 else depth) quoted opened
        rest).behind [SPACE]
    else (blankedLoop (index + 1) depth quoted opened rest).behind [c]

def blankedFrom (raw : List ℕ) (start : ℕ) : Blanked :=
  blankedLoop start 0 false none (raw.drop start)

def blankedOut (raw : List ℕ) : Option (List ℕ) :=
  let whole := blankedFrom raw 0
  match whole.opened with
  | none => if whole.quoted then none else some whole.text
  | some opened =>
    let before := whole.text.take opened
    if AT ∈ before then none
    else
      let after := blankedFrom raw (opened + 1)
      if after.opened = none ∧ after.quoted = false then some (before ++ OPEN :: after.text) else none

/-! ### The address -/

/-- `/<[^<>]*>/` -/
def ANGLE : Pattern ℕ :=
  seq (one fun c => c = LESS) <| seq (many fun c => !(c = LESS || c = GREATER)) <|
    one fun c => c = GREATER

inductive Mailbox where
  | bare
  /-- Between a pair of brackets that starts here. -/
  | angle (start : ℕ) (inner : List ℕ)
  deriving DecidableEq, Repr

def mailboxOf (raw : List ℕ) : Option Mailbox :=
  match blankedOut raw with
  | none => none
  | some visible =>
    if COMMA ∈ visible then none
    else
      match findAll ANGLE visible with
      | [] => if LESS ∈ visible ∨ GREATER ∈ visible then none else some .bare
      | [(before, angle)] =>
        let stop := before.length + angle.length
        if (before.any fun c => c = AT || c = LESS || c = GREATER) = true ∨
            trimmed (visible.drop stop) ≠ [] then none
        else some (.angle before.length ((raw.take (stop - 1)).drop (before.length + 1)))
      | _ => none

structure TextTables where
  toLowerCase : List ℕ → List ℕ
  /-- `\p{Default_Ignorable_Code_Point}` -/
  defaultIgnorable : ℕ → Bool

/-- `CONTROL_CHARACTERS` -/
def isControl (u : ℕ) : Bool := u ≤ 0x1F || u = 0x7F

def hasControlCharacter (value : List ℕ) : Bool := value.any isControl

/-- `replaceAll(/^["']|["']$/g, "")` -/
def withoutQuotes (text : List ℕ) : List ℕ :=
  let isQuote (u : ℕ) : Bool := u = QUOTE || u = 0x27
  let text := if text.head?.any isQuote then text.tail else text
  if text.getLast?.any isQuote then text.dropLast else text

/-- `[^\s@]` -/
def isAddressCharacter (u : ℕ) : Bool := !(isSpace u || u = AT)

/-- `/^[^\s@]+@[^\s@]+$/` -/
def ADDRESS : Pattern ℕ :=
  seq start <| seq (one isAddressCharacter) <| seq (many isAddressCharacter) <|
    seq (one fun c => c = AT) <| seq (one isAddressCharacter) <| seq (many isAddressCharacter) <|
    notBefore fun _ => true

namespace TextTables

variable (tables : TextTables)

/-- `INVISIBLE_CHARACTERS` -/
def isInvisible (c : ℕ) : Bool := (0x80 ≤ c && c ≤ 0x9F) || tables.defaultIgnorable c

def hasInvisibleCharacter (value : List ℕ) : Bool := (codePoints value).any tables.isInvisible

/-- What can be stored and answered as an address. -/
def isAddress (candidate : List ℕ) : Bool :=
  test ADDRESS candidate && !hasControlCharacter candidate &&
    !tables.hasInvisibleCharacter candidate

def addressFrom (raw : List ℕ) : Option (List ℕ) :=
  match mailboxOf raw with
  | none => none
  | some mailbox =>
    let candidate :=
      match mailbox with
      | .bare => withoutQuotes (trimmed raw)
      | .angle _ inner => trimmed inner
    if tables.isAddress candidate then some (tables.toLowerCase candidate) else none

end TextTables

/-! ### What the loop leaves blank -/

@[simp] theorem behind_behind (u v : List ℕ) (rest : Blanked) :
    (rest.behind v).behind u = rest.behind (u ++ v) := by
  unfold Blanked.behind
  rw [List.append_assoc]

@[simp] theorem behind_nil (rest : Blanked) : rest.behind [] = rest := rfl

def blanks (n : ℕ) : List ℕ := List.replicate n SPACE

theorem behind_blanks (n m : ℕ) (rest : Blanked) :
    (rest.behind (blanks m)).behind (blanks n) = rest.behind (blanks (n + m)) := by
  rw [behind_behind]
  unfold blanks
  rw [List.replicate_append_replicate]

section Steps

variable {index depth c d : ℕ} {opened : Option ℕ} {rest : List ℕ}

/-- One turn of the loop on a character that is no pair. -/
theorem loop_cons {quoted : Bool} (h : ¬ (c = BACKSLASH ∧ (quoted = true ∨ 0 < depth))) :
    blankedLoop index depth quoted opened (c :: rest) =
      if depth = 0 ∧ c = QUOTE then
        (blankedLoop (index + 1) depth (!quoted) opened rest).behind [SPACE]
      else if quoted = true then (blankedLoop (index + 1) depth quoted opened rest).behind [SPACE]
      else if c = OPEN then
        (blankedLoop (index + 1) (depth + 1) quoted (if depth = 0 then some index else opened)
          rest).behind [SPACE]
      else if 0 < depth then
        (blankedLoop (index + 1) (if c = CLOSE then depth - 1 else depth) quoted opened
          rest).behind [SPACE]
      else (blankedLoop (index + 1) depth quoted opened rest).behind [c] := by
  cases rest with
  | nil =>
    rw [blankedLoop]
    exact if_neg h
  | cons d rest =>
    rw [blankedLoop]
    exact if_neg h

theorem loop_pair {quoted : Bool} (h : quoted = true ∨ 0 < depth) :
    blankedLoop index depth quoted opened (BACKSLASH :: d :: rest) =
      (blankedLoop (index + 2) depth quoted opened rest).behind (blanks 2) := by
  rw [blankedLoop, if_pos ⟨rfl, h⟩]
  rfl

theorem loop_quote {quoted : Bool} :
    blankedLoop index 0 quoted opened (QUOTE :: rest) =
      (blankedLoop (index + 1) 0 (!quoted) opened rest).behind (blanks 1) := by
  rw [loop_cons, if_pos ⟨rfl, rfl⟩]
  · rfl
  · rintro ⟨h, -⟩
    cases h

theorem loop_quoted (hquote : c ≠ QUOTE) (hslash : c ≠ BACKSLASH) :
    blankedLoop index 0 true opened (c :: rest) =
      (blankedLoop (index + 1) 0 true opened rest).behind (blanks 1) := by
  rw [loop_cons fun h => hslash h.1, if_neg fun h => hquote h.2, if_pos rfl]
  rfl

theorem loop_open :
    blankedLoop index depth false opened (OPEN :: rest) =
      (blankedLoop (index + 1) (depth + 1) false (if depth = 0 then some index else opened)
        rest).behind (blanks 1) := by
  rw [loop_cons, if_neg, if_neg Bool.false_ne_true, if_pos rfl]
  · rfl
  · rintro ⟨-, h⟩
    cases h
  · rintro ⟨h, -⟩
    cases h

theorem loop_close :
    blankedLoop index (depth + 1) false opened (CLOSE :: rest) =
      (blankedLoop (index + 1) depth false opened rest).behind (blanks 1) := by
  rw [loop_cons, if_neg, if_neg Bool.false_ne_true, if_neg, if_pos (Nat.succ_pos depth),
    if_pos rfl, Nat.add_sub_cancel]
  · rfl
  · intro h
    cases h
  · rintro ⟨h, -⟩
    cases h
  · rintro ⟨h, -⟩
    cases h

theorem loop_comment (hopen : c ≠ OPEN) (hclose : c ≠ CLOSE) (hslash : c ≠ BACKSLASH) :
    blankedLoop index (depth + 1) false opened (c :: rest) =
      (blankedLoop (index + 1) (depth + 1) false opened rest).behind (blanks 1) := by
  rw [loop_cons fun h => hslash h.1, if_neg fun h => Nat.succ_ne_zero depth h.1,
    if_neg Bool.false_ne_true, if_neg hopen, if_pos (Nat.succ_pos depth), if_neg hclose]
  rfl

theorem loop_text (hquote : c ≠ QUOTE) (hopen : c ≠ OPEN) :
    blankedLoop index 0 false opened (c :: rest) =
      (blankedLoop (index + 1) 0 false opened rest).behind [c] := by
  rw [loop_cons, if_neg fun h => hquote h.2, if_neg Bool.false_ne_true, if_neg hopen,
    if_neg (Nat.lt_irrefl 0)]
  rintro ⟨-, h | h⟩
  · cases h
  · exact Nat.lt_irrefl 0 h

end Steps

/-! ### What the loop reads of a closed text -/

theorem loop_inQuotes {inner : List ℕ} (hinner : InQuotes inner) :
    ∀ {index : ℕ} {opened : Option ℕ} {rest : List ℕ},
      blankedLoop index 0 true opened (inner ++ rest) =
        (blankedLoop (index + inner.length) 0 true opened rest).behind (blanks inner.length) := by
  induction hinner with
  | nil => exact fun {index opened rest} => rfl
  | char hquote hslash _ ih =>
    intro index opened rest
    rw [List.cons_append, loop_quoted hquote hslash, ih, behind_blanks, List.length_cons,
      Nat.add_comm 1, Nat.add_assoc, Nat.add_comm 1]
  | pair _ ih =>
    intro index opened rest
    rw [List.cons_append, List.cons_append, loop_pair (.inl rfl), ih, behind_blanks,
      List.length_cons, List.length_cons, Nat.add_comm 2, Nat.add_assoc, Nat.add_comm 2]

theorem loop_inComment {inner : List ℕ} (hinner : InComment inner) :
    ∀ {index depth : ℕ} {opened : Option ℕ} {rest : List ℕ},
      blankedLoop index (depth + 1) false opened (inner ++ rest) =
        (blankedLoop (index + inner.length) (depth + 1) false opened rest).behind
          (blanks inner.length) := by
  induction hinner with
  | nil => exact fun {index depth opened rest} => rfl
  | char hopen hclose hslash _ ih =>
    intro index depth opened rest
    rw [List.cons_append, loop_comment hopen hclose hslash, ih, behind_blanks, List.length_cons,
      Nat.add_comm 1, Nat.add_assoc, Nat.add_comm 1]
  | pair _ ih =>
    intro index depth opened rest
    rw [List.cons_append, List.cons_append, loop_pair (.inr (Nat.succ_pos depth)), ih, behind_blanks,
      List.length_cons, List.length_cons, Nat.add_comm 2, Nat.add_assoc, Nat.add_comm 2]
  | @nested inner tail _ _ ihinner ih =>
    intro index depth opened rest
    rw [List.cons_append, List.append_assoc, List.cons_append, loop_open,
      if_neg (Nat.succ_ne_zero depth), ihinner, loop_close, ih, behind_blanks, behind_blanks,
      behind_blanks, List.length_cons, List.length_append, List.length_cons]
    congr 2 <;> omega

theorem shown_behind (a b : ℕ) (inner before : List ℕ) (outside : List Bool) :
    shown (a :: (inner ++ b :: before)) (List.replicate (inner.length + 2) false ++ outside) =
      blanks (1 + (inner.length + 1)) ++ shown before outside := by
  have hsplit : a :: (inner ++ b :: before) = (a :: (inner ++ [b])) ++ before := by simp
  have hlength : (a :: (inner ++ [b])).length = inner.length + 2 := by simp
  rw [hsplit, shown_append (by rw [List.length_replicate, hlength]), ← hlength, shown_hidden, hlength,
    Nat.add_comm 1]
  rfl

/-- **A closed text** is read with a blank for what is quoted or commented. -/
theorem loop_closed {before : List ℕ} {outside : List Bool} (h : Closed before outside) :
    ∀ (index : ℕ) (opened : Option ℕ) (rest : List ℕ), ∃ opened',
      blankedLoop index 0 false opened (before ++ rest) =
        (blankedLoop (index + before.length) 0 false opened' rest).behind
          (shown before outside) := by
  have hlength : ∀ (a b index : ℕ) (inner before : List ℕ),
      index + (a :: (inner ++ b :: before)).length = index + 1 + inner.length + 1 + before.length := by
    intro a b index inner before
    simp only [List.length_cons, List.length_append]
    omega
  induction h with
  | nil => exact fun index opened rest => ⟨opened, rfl⟩
  | @text c before outside hquote hopen _ ih =>
    intro index opened rest
    obtain ⟨opened', hrest⟩ := ih (index + 1) opened rest
    refine ⟨opened', ?_⟩
    rw [List.cons_append, loop_text hquote hopen, hrest, behind_behind, List.length_cons,
      Nat.add_assoc, Nat.add_comm 1]
    rfl
  | @quoted inner before outside hinner _ ih =>
    intro index opened rest
    obtain ⟨opened', hrest⟩ := ih (index + 1 + inner.length + 1) opened rest
    refine ⟨opened', ?_⟩
    rw [shown_behind, hlength, List.cons_append, List.append_assoc, List.cons_append, loop_quote,
      Bool.not_false, loop_inQuotes hinner, loop_quote, Bool.not_true, hrest, behind_blanks,
      ← behind_behind, behind_blanks]
    rfl
  | @comment inner before outside hinner _ ih =>
    intro index opened rest
    obtain ⟨opened', hrest⟩ := ih (index + 1 + inner.length + 1) (some index) rest
    refine ⟨opened', ?_⟩
    rw [shown_behind, hlength, List.cons_append, List.append_assoc, List.cons_append, loop_open,
      if_pos rfl, loop_inComment hinner, loop_close, hrest, behind_blanks, ← behind_behind,
      behind_blanks]
    rfl

/-! ### What the loop reads of a text left open -/

/-- A quoted string ends, or the rest is blank. -/
theorem loop_quoteOpen : ∀ rest : List ℕ,
    (∃ inner tail, rest = inner ++ QUOTE :: tail ∧ InQuotes inner) ∨
      ∀ (index : ℕ) (opened : Option ℕ),
        blankedLoop index 0 true opened rest = ⟨blanks rest.length, true, none⟩
  | [] => .inr fun index opened => rfl
  | [c] => by
    by_cases hquote : c = QUOTE
    · exact .inl ⟨[], [], by rw [hquote]; rfl, .nil⟩
    · right
      intro index opened
      by_cases hslash : c = BACKSLASH
      · subst hslash
        rfl
      · rw [loop_quoted hquote hslash]
        rfl
  | c :: d :: rest => by
    by_cases hquote : c = QUOTE
    · exact .inl ⟨[], d :: rest, by rw [hquote]; rfl, .nil⟩
    · by_cases hslash : c = BACKSLASH
      · subst hslash
        rcases loop_quoteOpen rest with ⟨inner, tail, rfl, hinner⟩ | hrest
        · exact .inl ⟨BACKSLASH :: d :: inner, tail, rfl, .pair hinner⟩
        · right
          intro index opened
          rw [loop_pair (.inl rfl), hrest]
          rfl
      · rcases loop_quoteOpen (d :: rest) with ⟨inner, tail, htail, hinner⟩ | hrest
        · exact .inl ⟨c :: inner, tail, by rw [htail, List.cons_append], .char hquote hslash hinner⟩
        · right
          intro index opened
          rw [loop_quoted hquote hslash, hrest]
          rfl

/-- A comment ends, or the rest is blank at any depth. -/
theorem loop_commentOpen (rest : List ℕ) :
    (∃ inner tail, rest = inner ++ CLOSE :: tail ∧ InComment inner) ∨
      ∀ (index depth : ℕ) (opened : Option ℕ),
        blankedLoop index (depth + 1) false opened rest = ⟨blanks rest.length, false, opened⟩ := by
  induction hn : rest.length using Nat.strongRecOn generalizing rest with
  | ind n ih =>
    subst hn
    match rest with
    | [] => exact .inr fun index depth opened => rfl
    | c :: rest =>
      by_cases hclose : c = CLOSE
      · exact .inl ⟨[], rest, by rw [hclose]; rfl, .nil⟩
      by_cases hslash : c = BACKSLASH
      · subst hslash
        cases rest with
        | nil => exact .inr fun index depth opened => rfl
        | cons d rest =>
          rcases ih rest.length (by simp only [List.length_cons]; omega) rest rfl with
            ⟨inner, tail, rfl, hinner⟩ | hrest
          · exact .inl ⟨BACKSLASH :: d :: inner, tail, rfl, .pair hinner⟩
          · right
            intro index depth opened
            rw [loop_pair (.inr (Nat.succ_pos depth)), hrest]
            rfl
      by_cases hopen : c = OPEN
      · subst hopen
        rcases ih rest.length (Nat.lt_succ_self _) rest rfl with ⟨inner, tail, rfl, hinner⟩ | hrest
        · -- the comment inside ends, and the one around it may yet
          have htail : tail.length < (OPEN :: (inner ++ CLOSE :: tail)).length := by
            simp only [List.length_cons, List.length_append]
            omega
          rcases ih tail.length htail tail rfl with ⟨inner', tail', rfl, hinner'⟩ | hrest
          · refine .inl ⟨OPEN :: (inner ++ CLOSE :: inner'), tail', ?_, .nested hinner hinner'⟩
            rw [List.cons_append, List.append_assoc, List.cons_append]
          · right
            intro index depth opened
            rw [loop_open, if_neg (Nat.succ_ne_zero depth), loop_inComment hinner, loop_close, hrest]
            simp only [Blanked.behind, blanks, List.replicate_append_replicate, List.length_cons,
              List.length_append]
            congr 2
            omega
        · right
          intro index depth opened
          rw [loop_open, if_neg (Nat.succ_ne_zero depth), hrest]
          rfl
      rcases ih rest.length (Nat.lt_succ_self _) rest rfl with ⟨inner, tail, rfl, hinner⟩ | hrest
      · exact .inl ⟨c :: inner, tail, rfl, .char hopen hclose hslash hinner⟩
      · right
        intro index depth opened
        rw [loop_comment hopen hclose hslash, hrest]
        rfl

/-! ### What is blanked out -/

theorem blankedFrom_closed {raw : List ℕ} {outside : List Bool} (lead : List ℕ) (h : Closed raw outside) :
    blankedFrom (lead ++ raw) lead.length = ⟨shown raw outside, false, none⟩ := by
  unfold blankedFrom
  rw [List.drop_left' rfl]
  obtain ⟨opened, hloop⟩ := loop_closed h lead.length none []
  rw [List.append_nil] at hloop
  rw [hloop]
  unfold blankedLoop Blanked.behind
  rw [List.append_nil, if_neg (Nat.lt_irrefl 0)]

theorem blankedFrom_quoteOpen {before rest : List ℕ} {outside : List Bool} (lead : List ℕ)
    (h : Closed before outside) (hopen : QuoteOpen rest) :
    (blankedFrom (lead ++ (before ++ QUOTE :: rest)) lead.length).quoted = true ∧
      (blankedFrom (lead ++ (before ++ QUOTE :: rest)) lead.length).opened = none := by
  have hrest := (loop_quoteOpen rest).resolve_left fun ⟨inner, tail, heq, hinner⟩ =>
    hopen inner tail heq hinner
  obtain ⟨opened, hloop⟩ := loop_closed h lead.length none (QUOTE :: rest)
  unfold blankedFrom
  rw [List.drop_left' rfl, hloop, loop_quote, Bool.not_false, hrest]
  exact ⟨rfl, rfl⟩

theorem blankedFrom_commentOpen {before rest : List ℕ} {outside : List Bool} (lead : List ℕ)
    (h : Closed before outside) (hopen : CommentOpen rest) :
    blankedFrom (lead ++ (before ++ OPEN :: rest)) lead.length =
      ⟨shown before outside ++ blanks (1 + rest.length), false, some (lead.length + before.length)⟩ := by
  have hrest := (loop_commentOpen rest).resolve_left fun ⟨inner, tail, heq, hinner⟩ =>
    hopen inner tail heq hinner
  obtain ⟨opened, hloop⟩ := loop_closed h lead.length none (OPEN :: rest)
  unfold blankedFrom
  rw [List.drop_left' rfl, hloop, loop_open, if_pos rfl, hrest]
  show Blanked.mk (shown before outside ++ (blanks 1 ++ blanks rest.length)) false _ = _
  unfold blanks
  rw [List.replicate_append_replicate]
  rfl

/-- A header as the reader takes it, and which of its characters are outside quoted strings and
comments. -/
inductive Reading : List ℕ → List Bool → Prop where
  | closed {raw : List ℕ} {outside : List Bool} : Closed raw outside → Reading raw outside
  /-- One parenthesis that is never closed, with no address in front of it, is a character. -/
  | lone {before after : List ℕ} {outside outside' : List Bool} : Closed before outside →
      CommentOpen after → AT ∉ shown before outside → Closed after outside' →
      Reading (before ++ OPEN :: after) (outside ++ true :: outside')

/-- A quoted string or a comment begins behind a text, and is left open. -/
def OpensBehind (raw before : List ℕ) : Prop :=
  (∃ rest, raw = before ++ QUOTE :: rest ∧ QuoteOpen rest) ∨
    ∃ rest, raw = before ++ OPEN :: rest ∧ CommentOpen rest

/-- A header leaves one open behind what is shown, perhaps not the first. -/
inductive LeftOpen : List ℕ → List ℕ → Prop where
  | first {raw before : List ℕ} {outside : List Bool} : Closed before outside →
      OpensBehind raw before → LeftOpen raw (shown before outside)
  | second {before after middle : List ℕ} {outside outside' : List Bool} : Closed before outside →
      CommentOpen after → Closed middle outside' → OpensBehind after middle →
      LeftOpen (before ++ OPEN :: after) (shown before outside ++ OPEN :: shown middle outside')

section Blanking

variable {raw before after : List ℕ} {outside outside' : List Bool}

theorem blankedFrom_start_closed (h : Closed raw outside) :
    blankedFrom raw 0 = ⟨shown raw outside, false, none⟩ :=
  blankedFrom_closed [] h

theorem blankedOut_lone (h : Closed before outside) (hopen : CommentOpen after) :
    blankedOut (before ++ OPEN :: after) =
      if AT ∈ shown before outside then none
      else if (blankedFrom (before ++ OPEN :: after) (before.length + 1)).opened = none ∧
          (blankedFrom (before ++ OPEN :: after) (before.length + 1)).quoted = false then
        some (shown before outside ++
          OPEN :: (blankedFrom (before ++ OPEN :: after) (before.length + 1)).text)
      else none := by
  have hwhole : blankedFrom (before ++ OPEN :: after) 0 = _ :=
    blankedFrom_commentOpen [] h hopen
  have htake : (shown before outside ++ blanks (1 + after.length)).take before.length =
      shown before outside := by
    rw [← length_shown h.length_eq, List.take_left' rfl]
  unfold blankedOut
  rw [hwhole]
  simp only [List.length_nil, Nat.zero_add, htake]

theorem behind_lone (before after : List ℕ) :
    before ++ OPEN :: after = (before ++ [OPEN]) ++ after ∧
      before.length + 1 = (before ++ [OPEN]).length := by
  constructor
  · rw [List.append_assoc, List.singleton_append]
  · rw [List.length_append, List.length_singleton]

theorem Reading.length_eq (h : Reading raw outside) : outside.length = raw.length := by
  cases h with
  | closed h => exact h.length_eq
  | lone h _ _ h' =>
    rw [List.length_append, List.length_append, List.length_cons, List.length_cons, h.length_eq,
      h'.length_eq]

/-- **A header** that is read is blanked out. -/
theorem Reading.blankedOut (h : Reading raw outside) : blankedOut raw = some (shown raw outside) := by
  cases h with
  | closed h =>
    unfold Mime.blankedOut
    rw [blankedFrom_start_closed h]
    rfl
  | @lone before after outside outside' h hopen hat h' =>
    obtain ⟨hraw, hlength⟩ := behind_lone before after
    have hafter := blankedFrom_closed (before ++ [OPEN]) h'
    rw [← hraw, ← hlength] at hafter
    rw [blankedOut_lone h hopen, if_neg hat, hafter, if_pos ⟨rfl, rfl⟩, shown_append h.length_eq]
    rfl

theorem blankedOut_quoteOpen (h : Closed before outside) {rest : List ℕ} (hopen : QuoteOpen rest) :
    blankedOut (before ++ QUOTE :: rest) = none := by
  obtain ⟨hquoted, hopened⟩ := blankedFrom_quoteOpen [] h hopen
  unfold blankedOut
  dsimp only
  rw [show blankedFrom (before ++ QUOTE :: rest) 0 = blankedFrom ([] ++ (before ++ QUOTE :: rest))
    (List.length ([] : List ℕ)) from rfl, hopened]
  exact if_pos hquoted

theorem blankedOut_twoOpen (h : Closed before outside) (hopen : CommentOpen after)
    {middle : List ℕ} (hmiddle : Closed middle outside') (hbehind : OpensBehind after middle) :
    blankedOut (before ++ OPEN :: after) = none := by
  obtain ⟨hraw, hlength⟩ := behind_lone before after
  rw [blankedOut_lone h hopen]
  split_ifs with hat hread
  · rfl
  · exfalso
    rw [hraw, hlength] at hread
    rcases hbehind with ⟨rest, rfl, hrest⟩ | ⟨rest, rfl, hrest⟩
    · obtain ⟨hquoted, -⟩ := blankedFrom_quoteOpen (before ++ [OPEN]) hmiddle hrest
      rw [hquoted] at hread
      cases hread.2
    · have hopened := blankedFrom_commentOpen (before ++ [OPEN]) hmiddle hrest
      rw [hopened] at hread
      cases hread.1
  · rfl

/-- **What is blanked out** is a header that is read. -/
theorem reading_of_blankedOut {text : List ℕ} (h : blankedOut raw = some text) :
    ∃ outside, Reading raw outside ∧ text = shown raw outside := by
  rcases closed_or_open raw with ⟨outside, hclosed⟩ | ⟨before, outside, rest, rfl, hclosed, hopen⟩ |
    ⟨before, outside, rest, rfl, hclosed, hopen⟩
  · have hreading := Reading.closed hclosed
    rw [hreading.blankedOut] at h
    exact ⟨outside, hreading, (Option.some.inj h).symm⟩
  · rw [blankedOut_quoteOpen hclosed hopen] at h
    cases h
  · rcases closed_or_open rest with ⟨outside', hclosed'⟩ |
      ⟨middle, outside', tail, htail, hclosed', hopen'⟩ | ⟨middle, outside', tail, htail, hclosed', hopen'⟩
    · have hat : AT ∉ shown before outside := by
        intro hat
        rw [blankedOut_lone hclosed hopen, if_pos hat] at h
        cases h
      have hreading := Reading.lone hclosed hopen hat hclosed'
      rw [hreading.blankedOut] at h
      exact ⟨_, hreading, (Option.some.inj h).symm⟩
    · rw [blankedOut_twoOpen hclosed hopen hclosed' (.inl ⟨tail, htail, hopen'⟩)] at h
      cases h
    · rw [blankedOut_twoOpen hclosed hopen hclosed' (.inr ⟨tail, htail, hopen'⟩)] at h
      cases h

/-- **A header** that leaves a quoted string or a comment open behind an @ is not read. -/
theorem LeftOpen.blankedOut {visible : List ℕ} (h : LeftOpen raw visible) (hat : AT ∈ visible) :
    blankedOut raw = none := by
  cases h with
  | first hclosed hbehind =>
    rcases hbehind with ⟨rest, rfl, hopen⟩ | ⟨rest, rfl, hopen⟩
    · exact blankedOut_quoteOpen hclosed hopen
    · rw [blankedOut_lone hclosed hopen, if_pos hat]
  | second hclosed hopen hclosed' hbehind => exact blankedOut_twoOpen hclosed hopen hclosed' hbehind

end Blanking

end OpenBrf.Mime
