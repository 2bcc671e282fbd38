import Mathlib.Data.List.Basic
import Mathlib.Tactic.Common

/-!
# Rfc5322.Quoting — quoted strings and comments of a header

A comment stands in parentheses, outside a quoted string, and nests; a backslash takes the next
character with it in both.  A text is closed, or it leaves one quoted string or one comment open.
-/

namespace Rfc5322

def QUOTE : ℕ := 0x22

def BACKSLASH : ℕ := 0x5C

def OPEN : ℕ := 0x28

def CLOSE : ℕ := 0x29

def SPACE : ℕ := 0x20

/-- What stands between the quotes of a quoted string. -/
inductive InQuotes : List ℕ → Prop where
  | nil : InQuotes []
  | char {c : ℕ} {rest : List ℕ} : c ≠ QUOTE → c ≠ BACKSLASH → InQuotes rest → InQuotes (c :: rest)
  | pair {c : ℕ} {rest : List ℕ} : InQuotes rest → InQuotes (BACKSLASH :: c :: rest)

/-- What stands between the parentheses of a comment. -/
inductive InComment : List ℕ → Prop where
  | nil : InComment []
  | char {c : ℕ} {rest : List ℕ} : c ≠ OPEN → c ≠ CLOSE → c ≠ BACKSLASH → InComment rest →
      InComment (c :: rest)
  | pair {c : ℕ} {rest : List ℕ} : InComment rest → InComment (BACKSLASH :: c :: rest)
  | nested {inner rest : List ℕ} : InComment inner → InComment rest →
      InComment (OPEN :: (inner ++ CLOSE :: rest))

/-- A text that closes its quoted strings and comments, and which characters are outside them. -/
inductive Closed : List ℕ → List Bool → Prop where
  | nil : Closed [] []
  | text {c : ℕ} {rest : List ℕ} {outside : List Bool} : c ≠ QUOTE → c ≠ OPEN →
      Closed rest outside → Closed (c :: rest) (true :: outside)
  | quoted {inner rest : List ℕ} {outside : List Bool} : InQuotes inner → Closed rest outside →
      Closed (QUOTE :: (inner ++ QUOTE :: rest))
        (List.replicate (inner.length + 2) false ++ outside)
  | comment {inner rest : List ℕ} {outside : List Bool} : InComment inner → Closed rest outside →
      Closed (OPEN :: (inner ++ CLOSE :: rest))
        (List.replicate (inner.length + 2) false ++ outside)

/-- No quote ends the quoted string that begins in front of a text. -/
def QuoteOpen (rest : List ℕ) : Prop :=
  ∀ inner tail, rest = inner ++ QUOTE :: tail → ¬ InQuotes inner

/-- No parenthesis ends the comment that begins in front of a text. -/
def CommentOpen (rest : List ℕ) : Prop :=
  ∀ inner tail, rest = inner ++ CLOSE :: tail → ¬ InComment inner

theorem commentOpen_of_not_mem {rest : List ℕ} (h : CLOSE ∉ rest) : CommentOpen rest := by
  rintro inner tail rfl _
  exact h (List.mem_append_right _ List.mem_cons_self)

/-- The text with a blank for every character that is not outside. -/
def shown (raw : List ℕ) (outside : List Bool) : List ℕ :=
  List.zipWith (fun c out => if out then c else SPACE) raw outside

theorem Closed.length_eq {raw : List ℕ} {outside : List Bool} (h : Closed raw outside) :
    outside.length = raw.length := by
  induction h with
  | nil => rfl
  | text _ _ _ ih => rw [List.length_cons, List.length_cons, ih]
  | quoted _ _ ih | comment _ _ ih =>
    rw [List.length_append, List.length_replicate, List.length_cons, List.length_append,
      List.length_cons, ih]
    omega

theorem shown_append {raw raw' : List ℕ} {outside outside' : List Bool}
    (h : outside.length = raw.length) :
    shown (raw ++ raw') (outside ++ outside') = shown raw outside ++ shown raw' outside' :=
  List.zipWith_append h.symm

theorem shown_hidden : ∀ raw : List ℕ,
    shown raw (List.replicate raw.length false) = List.replicate raw.length SPACE
  | [] => rfl
  | _ :: raw => congrArg (SPACE :: ·) (shown_hidden raw)

theorem length_shown {raw : List ℕ} {outside : List Bool} (h : outside.length = raw.length) :
    (shown raw outside).length = raw.length := by
  unfold shown
  rw [List.length_zipWith, h, Nat.min_self]

/-- A character outside is shown where it stands. -/
theorem getElem?_shown {raw : List ℕ} {outside : List Bool} {i : ℕ} (h : outside[i]? = some true) :
    (shown raw outside)[i]? = raw[i]? := by
  unfold shown
  rw [List.getElem?_zipWith, h]
  cases raw[i]? <;> rfl

theorem count_shown_le {c : ℕ} (hc : c ≠ SPACE) : ∀ (raw : List ℕ) (outside : List Bool),
    (shown raw outside).count c ≤ raw.count c
  | [], _ => Nat.le_refl _
  | _ :: _, [] => Nat.zero_le _
  | d :: raw, out :: outside => by
    have hrest := count_shown_le hc raw outside
    show ((if out then d else SPACE) :: shown raw outside).count c ≤ _
    rw [List.count_cons, List.count_cons]
    cases out with
    | true =>
      rw [if_pos rfl]
      omega
    | false =>
      have hspace : (SPACE == c) = false := beq_false_of_ne hc.symm
      rw [if_neg Bool.false_ne_true, hspace, if_neg Bool.false_ne_true]
      omega

theorem Closed.append {raw raw' : List ℕ} {outside outside' : List Bool} (h : Closed raw outside)
    (h' : Closed raw' outside') : Closed (raw ++ raw') (outside ++ outside') := by
  induction h with
  | nil => exact h'
  | text hquote hopen _ ih => exact .text hquote hopen ih
  | @quoted inner rest outside hinner _ ih =>
    rw [List.append_assoc, List.cons_append, List.append_assoc, List.cons_append]
    exact .quoted hinner ih
  | @comment inner rest outside hinner _ ih =>
    rw [List.append_assoc, List.cons_append, List.append_assoc, List.cons_append]
    exact .comment hinner ih

/-- **A text** is closed, or the first quoted string or comment it leaves open can be named. -/
theorem closed_or_open (raw : List ℕ) :
    (∃ outside, Closed raw outside) ∨
      (∃ before outside rest, raw = before ++ QUOTE :: rest ∧ Closed before outside ∧
        QuoteOpen rest) ∨
      ∃ before outside rest, raw = before ++ OPEN :: rest ∧ Closed before outside ∧
        CommentOpen rest := by
  -- what is closed in front of a text changes nothing about the rest
  have hbehind : ∀ {front rest : List ℕ} {mask : List Bool}, Closed front mask →
      ((∃ outside, Closed rest outside) ∨
        (∃ before outside tail, rest = before ++ QUOTE :: tail ∧ Closed before outside ∧
          QuoteOpen tail) ∨
        ∃ before outside tail, rest = before ++ OPEN :: tail ∧ Closed before outside ∧
          CommentOpen tail) →
      (∃ outside, Closed (front ++ rest) outside) ∨
        (∃ before outside tail, front ++ rest = before ++ QUOTE :: tail ∧ Closed before outside ∧
          QuoteOpen tail) ∨
        ∃ before outside tail, front ++ rest = before ++ OPEN :: tail ∧ Closed before outside ∧
          CommentOpen tail := by
    rintro front rest mask hfront (⟨outside, h⟩ | ⟨before, outside, tail, rfl, h, hopen⟩ |
      ⟨before, outside, tail, rfl, h, hopen⟩)
    · exact .inl ⟨_, hfront.append h⟩
    · exact .inr (.inl ⟨_, _, tail, (List.append_assoc _ _ _).symm, hfront.append h, hopen⟩)
    · exact .inr (.inr ⟨_, _, tail, (List.append_assoc _ _ _).symm, hfront.append h, hopen⟩)
  induction hn : raw.length using Nat.strongRecOn generalizing raw with
  | ind n ih =>
    subst hn
    cases raw with
    | nil => exact .inl ⟨[], .nil⟩
    | cons c rest =>
      by_cases hquote : c = QUOTE
      · subst hquote
        by_cases hends : QuoteOpen rest
        · exact .inr (.inl ⟨[], [], rest, rfl, .nil, hends⟩)
        · unfold QuoteOpen at hends
          push Not at hends
          obtain ⟨inner, tail, rfl, hinner⟩ := hends
          have hlength : tail.length < (QUOTE :: (inner ++ QUOTE :: tail)).length := by
            rw [List.length_cons, List.length_append, List.length_cons]
            omega
          have hfront := Closed.quoted hinner .nil
          have hrest := hbehind hfront (ih _ hlength tail rfl)
          rw [List.cons_append, List.append_assoc] at hrest
          exact hrest
      · by_cases hopen : c = OPEN
        · subst hopen
          by_cases hends : CommentOpen rest
          · exact .inr (.inr ⟨[], [], rest, rfl, .nil, hends⟩)
          · unfold CommentOpen at hends
            push Not at hends
            obtain ⟨inner, tail, rfl, hinner⟩ := hends
            have hlength : tail.length < (OPEN :: (inner ++ CLOSE :: tail)).length := by
              rw [List.length_cons, List.length_append, List.length_cons]
              omega
            have hfront := Closed.comment hinner .nil
            have hrest := hbehind hfront (ih _ hlength tail rfl)
            rw [List.cons_append, List.append_assoc] at hrest
            exact hrest
        · have hfront := Closed.text hquote hopen .nil
          exact hbehind hfront (ih _ (Nat.lt_succ_self _) rest rfl)

end Rfc5322
