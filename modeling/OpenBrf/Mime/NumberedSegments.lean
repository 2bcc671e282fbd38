import OpenBrf.Mime.EncodedTexts
import OpenBrf.Mime.Parameters
import Mathlib.Data.List.Perm.Subperm
import Mathlib.Data.List.ReduceOption

/-!
# Mime.NumberedSegments — a parameter in numbered segments is put together again
-/

namespace OpenBrf.Mime

open Lang Octets Regex Regex.Pattern Rfc5322 Charsets

/-! ### Numbered names -/

theorem digit_ne_star {c : ℕ} (h : isDigit c = true) : c ≠ STAR := by
  rintro rfl
  cases h

def starred (star : Bool) : List ℕ := if star then [STAR] else []

/-- The names the pattern matches. -/
structure NumberedName (name base digits : List ℕ) (star : Bool) : Prop where
  written : name = base ++ STAR :: (digits ++ starred star)
  based : base ≠ []
  line : ∀ c ∈ base, isLineTerminator c = false
  some_digits : digits ≠ []
  three_digits : digits.length ≤ 3
  digits : ∀ c ∈ digits, isDigit c = true

theorem spells_optional {p : ℕ → Bool} {prev : Option ℕ} {word after : List ℕ} :
    Spells (optional (one p)) prev word after ↔ (∃ x, p x = true ∧ word = [x]) ∨ word = [] := Iff.rfl

theorem test_NUMBERED {name : List ℕ} :
    test NUMBERED name = true ↔ ∃ base digits star, NumberedName name base digits star := by
  unfold NUMBERED
  rw [test_start]
  constructor
  · rintro ⟨_, after, rfl, _, _, rfl, ⟨c, hc, rfl⟩, base, _, rfl, hbase, _, _, rfl, ⟨s, hs, rfl⟩, _, _, rfl,
      ⟨d, hd, rfl⟩, second, _, rfl, hsecond, third, _, rfl, hthird, tail, _, rfl, htail, rfl, hafter⟩
    obtain rfl : after = [] := by
      cases after with
      | nil => rfl
      | cons x after => exact Bool.noConfusion (hafter : true = false)
    obtain rfl := of_decide_eq_true hs
    have hone : ∀ {word : List ℕ}, ((∃ x, isDigit x = true ∧ word = [x]) ∨ word = []) →
        word.length ≤ 1 ∧ ∀ x ∈ word, isDigit x = true := by
      rintro word (⟨x, hx, rfl⟩ | rfl)
      · exact ⟨Nat.le_refl _, List.forall_mem_singleton.mpr hx⟩
      · exact ⟨Nat.zero_le _, nofun⟩
    obtain ⟨hsecond, hsecond'⟩ := hone (spells_optional.mp hsecond)
    obtain ⟨hthird, hthird'⟩ := hone (spells_optional.mp hthird)
    obtain ⟨star, rfl⟩ : ∃ star, tail = starred star := by
      rcases spells_optional.mp htail with ⟨x, hx, rfl⟩ | rfl
      · exact ⟨true, by rw [of_decide_eq_true hx]; rfl⟩
      · exact ⟨false, rfl⟩
    refine ⟨c :: base, d :: (second ++ third), star, ?_, List.cons_ne_nil _ _, ?_, List.cons_ne_nil _ _,
      ?_, ?_⟩
    · simp
    · refine List.forall_mem_cons.mpr ⟨?_, fun x hx => ?_⟩
      · simpa using hc
      · simpa using hbase x hx
    · rw [List.length_cons, List.length_append]
      omega
    · refine List.forall_mem_cons.mpr ⟨hd, fun x hx => ?_⟩
      exact (List.mem_append.mp hx).elim (hsecond' x) (hthird' x)
  · rintro ⟨base, digits, star, rfl, hbased, hline, hsome, hthree, hdigits⟩
    obtain ⟨c, base, rfl⟩ := List.exists_cons_of_ne_nil hbased
    obtain ⟨d, digits, rfl⟩ := List.exists_cons_of_ne_nil hsome
    obtain ⟨hd, hdigits⟩ := List.forall_mem_cons.mp hdigits
    obtain ⟨hc, hline⟩ := List.forall_mem_cons.mp hline
    -- the second and the third digit, where they are there
    have hsplit : ∃ second third, digits = second ++ third ∧
        ((∃ x, isDigit x = true ∧ second = [x]) ∨ second = []) ∧
        ((∃ x, isDigit x = true ∧ third = [x]) ∨ third = []) := by
      match digits, hthree, hdigits with
      | [], _, _ => exact ⟨[], [], rfl, .inr rfl, .inr rfl⟩
      | [x], _, h => exact ⟨[x], [], rfl, .inl ⟨x, h x List.mem_cons_self, rfl⟩, .inr rfl⟩
      | [x, y], _, h =>
        exact ⟨[x], [y], rfl, .inl ⟨x, h x List.mem_cons_self, rfl⟩,
          .inl ⟨y, h y (List.mem_cons_of_mem _ List.mem_cons_self), rfl⟩⟩
      | _ :: _ :: _ :: _, h, _ =>
        simp only [List.length_cons] at h
        omega
    obtain ⟨second, third, rfl, hsecond, hthird⟩ := hsplit
    refine ⟨c :: base ++ STAR :: (d :: (second ++ third) ++ starred star), [], (List.append_nil _).symm,
      [c], _, rfl, ⟨c, by simp [hc], rfl⟩, base, _, rfl, fun x hx => by simp [hline x hx],
      [STAR], _, rfl, ⟨STAR, rfl, rfl⟩, [d], _, rfl, ⟨d, hd, rfl⟩, second, third ++ starred star, ?_,
      spells_optional.mpr hsecond, third, starred star, rfl, spells_optional.mpr hthird, starred star, [],
      (List.append_nil _).symm, spells_optional.mpr ?_, rfl, rfl⟩
    · exact List.append_assoc _ _ _
    · cases star with
      | true => exact .inl ⟨STAR, rfl, rfl⟩
      | false => exact .inr rfl

/-- The groups of a numbered name. -/
theorem numbered_eq {name base digits : List ℕ} {star : Bool} (h : NumberedName name base digits star) :
    numbered name = some (base, numberOfDigits digits, star) := by
  have hdigits : ∀ c ∈ digits.reverse, decide (c ≠ STAR) = true := fun c hc =>
    decide_eq_true (digit_ne_star (h.digits c (List.mem_reverse.mp hc)))
  have hstar : decide (name.getLast? = some STAR) = star := by
    rw [h.written]
    cases star with
    | true =>
      refine decide_eq_true ?_
      rw [List.getLast?_append, List.getLast?_cons, List.getLast?_append]
      rfl
    | false =>
      refine decide_eq_false ?_
      obtain ⟨init, last, hlast⟩ := (List.eq_nil_or_concat digits).resolve_left h.some_digits
      have hlastDigit := h.digits last (by rw [hlast, List.concat_eq_append]; simp)
      rw [hlast, List.concat_eq_append]
      simp only [starred, Bool.false_eq_true, if_false, List.append_nil, List.getLast?_append,
        List.getLast?_cons]
      intro heq
      exact digit_ne_star hlastDigit (Option.some.inj heq)
  have hkept : (if star = true then name.dropLast else name) = base ++ STAR :: digits := by
    rw [h.written]
    cases star with
    | true =>
      rw [if_pos rfl, ← List.cons_append, ← List.append_assoc]
      exact List.dropLast_concat
    | false =>
      rw [if_neg Bool.false_ne_true]
      show base ++ STAR :: (digits ++ []) = _
      rw [List.append_nil]
  have hback : (base ++ STAR :: digits).reverse = digits.reverse ++ STAR :: base.reverse := by simp
  unfold numbered
  rw [if_pos (test_NUMBERED.mpr ⟨base, digits, star, h⟩)]
  dsimp only
  rw [hstar, hkept, hback, List.takeWhile_append_of_pos hdigits, List.dropWhile_append_of_pos hdigits]
  simp

theorem numbered_some {name base : List ℕ} {position : ℕ} {star : Bool}
    (h : numbered name = some (base, position, star)) :
    ∃ digits, NumberedName name base digits star ∧ numberOfDigits digits = position := by
  have htest : test NUMBERED name = true := by
    by_contra hnot
    unfold numbered at h
    rw [if_neg hnot] at h
    cases h
  obtain ⟨base', digits, star', hname⟩ := test_NUMBERED.mp htest
  rw [numbered_eq hname] at h
  simp only [Option.some.injEq, Prod.mk.injEq] at h
  obtain ⟨rfl, rfl, rfl⟩ := h
  exact ⟨digits, hname, rfl⟩

theorem isDigit_of_mem_decimal {c n : ℕ} (h : c ∈ decimal n) : isDigit c = true := by
  obtain ⟨hlow, hhigh⟩ := digit_of_mem_decimal h
  unfold isDigit
  rw [decide_eq_true hlow, decide_eq_true hhigh]
  rfl

/-! ### Splitting at semicolons -/

/-- No quote is opened and none is closed, and no part ends. -/
def Plain (text : List ℕ) : Prop := ∀ c ∈ text, c ≠ QUOTE ∧ c ≠ SEMICOLON

/-- A parameter as it is written: with no quotes, or with quotes around some of it, inside which a quote
stands behind a backslash. -/
inductive Whole : List ℕ → Prop where
  | plain {text : List ℕ} : Plain text → Whole text
  | quoted {lead inner trail : List ℕ} : Plain lead → Plain trail → BACKSLASH ∉ lead →
      (∀ before after, inner = before ++ QUOTE :: after → before.getLast? = some BACKSLASH) →
      inner.getLast? ≠ some BACKSLASH → Whole (lead ++ QUOTE :: (inner ++ QUOTE :: trail))

/-- What the loop reads on without a change of its state. -/
theorem splitLoop_append {quoted : Bool} : ∀ {text : List ℕ} {prev : Option ℕ} {current : List ℕ}
    (_ : ∀ before c after, text = before ++ c :: after →
      (c = QUOTE → Search.charBefore prev before = some BACKSLASH) ∧ (c = SEMICOLON → quoted = true))
    (rest : List ℕ), splitLoop prev quoted current (text ++ rest) =
      splitLoop (Search.charBefore prev text) quoted (current ++ text) rest
  | [], prev, current, _, rest => by
    rw [List.append_nil]
    rfl
  | c :: text, prev, current, h, rest => by
    obtain ⟨hquote, hsemicolon⟩ := h [] c text rfl
    rw [Search.charBefore_nil] at hquote
    have hkept : (if c = QUOTE ∧ prev ≠ some BACKSLASH then !quoted else quoted) = quoted :=
      if_neg fun hc => hc.2 (hquote hc.1)
    have hone : ¬ (c = SEMICOLON ∧ quoted = false) := by
      rintro ⟨hc, hopen⟩
      rw [hsemicolon hc] at hopen
      cases hopen
    rw [List.cons_append, splitLoop, hkept, if_neg hone, splitLoop_append (fun before d after htext => ?_), List.append_assoc, List.singleton_append,
      Search.charBefore_cons]
    have hnext := h (c :: before) d after (by rw [htext, List.cons_append])
    rwa [Search.charBefore_cons] at hnext

theorem splitLoop_plain {text : List ℕ} (h : Plain text) (prev : Option ℕ) (quoted : Bool)
    (current rest : List ℕ) : splitLoop prev quoted current (text ++ rest) =
      splitLoop (Search.charBefore prev text) quoted (current ++ text) rest := by
  refine splitLoop_append (fun before c after htext => ?_) rest
  obtain ⟨hquote, hsemicolon⟩ := h c (by rw [htext]; simp)
  exact ⟨fun hc => absurd hc hquote, fun hc => absurd hc hsemicolon⟩

theorem splitLoop_quote {prev : Option ℕ} (h : prev ≠ some BACKSLASH) (quoted : Bool)
    (current rest : List ℕ) : splitLoop prev quoted current (QUOTE :: rest) =
      splitLoop (some QUOTE) (!quoted) (current ++ [QUOTE]) rest := by
  have hturned : (if QUOTE = QUOTE ∧ prev ≠ some BACKSLASH then !quoted else quoted) = !quoted :=
    if_pos ⟨rfl, h⟩
  rw [splitLoop, hturned]
  exact if_neg fun hc => absurd hc.1 (by decide)

/-- A parameter that is whole is one part. -/
theorem splitLoop_whole {piece : List ℕ} (h : Whole piece) {prev : Option ℕ}
    (hprev : prev ≠ some BACKSLASH) (current : List ℕ) : ∃ last, ∀ rest,
      splitLoop prev false current (piece ++ rest) = splitLoop last false (current ++ piece) rest := by
  cases h with
  | plain hplain => exact ⟨_, splitLoop_plain hplain prev false current⟩
  | @quoted lead inner trail hlead htrail hback hinner hlast =>
    refine ⟨Search.charBefore (some QUOTE) trail, fun rest => ?_⟩
    have hopen : Search.charBefore prev lead ≠ some BACKSLASH := by
      unfold Search.charBefore
      cases hend : lead.getLast? with
      | none => exact hprev
      | some c =>
        rintro heq
        obtain rfl := Option.some.inj heq
        exact hback (List.mem_of_mem_getLast? hend)
    have hclose : Search.charBefore (some QUOTE) inner ≠ some BACKSLASH := by
      unfold Search.charBefore
      cases hend : inner.getLast? with
      | none => exact fun heq => absurd (Option.some.inj heq) (by decide)
      | some c => rwa [hend] at hlast
    rw [List.append_assoc, List.cons_append, List.append_assoc, List.cons_append,
      splitLoop_plain hlead, splitLoop_quote hopen, splitLoop_append, splitLoop_quote hclose,
      splitLoop_plain htrail]
    · simp
    · intro before c after htext
      refine ⟨?_, fun _ => rfl⟩
      rintro rfl
      unfold Search.charBefore
      rw [hinner before after htext]
      rfl

theorem splitLoop_pieces : ∀ {pieces : List (List ℕ)} (_ : ∀ piece ∈ pieces, Whole piece)
    (last : Option ℕ) (current : List ℕ), splitLoop last false current
      (pieces.flatMap fun piece => SEMICOLON :: piece) = current :: pieces
  | [], _, last, current => rfl
  | piece :: pieces, h, last, current => by
    obtain ⟨hpiece, hpieces⟩ := List.forall_mem_cons.mp h
    have hbehind : some SEMICOLON ≠ some BACKSLASH := by decide
    obtain ⟨last', hwhole⟩ := splitLoop_whole hpiece hbehind []
    have hsemicolon : ∀ rest, splitLoop last false current (SEMICOLON :: rest) =
        current :: splitLoop (some SEMICOLON) false [] rest := by
      intro rest
      have hkept : (if SEMICOLON = QUOTE ∧ last ≠ some BACKSLASH then !false else false) = false :=
        if_neg fun hc => absurd hc.1 (by decide)
      rw [splitLoop, hkept]
      exact if_pos ⟨rfl, rfl⟩
    rw [List.flatMap_cons, List.cons_append, hsemicolon, hwhole, splitLoop_pieces hpieces,
      List.nil_append]

/-- **The parameters** of a header are the parts behind its first. -/
theorem splitParameters_eq {head : List ℕ} {pieces : List (List ℕ)} (hhead : Plain head)
    (hpieces : ∀ piece ∈ pieces, Whole piece) :
    splitParameters (head ++ pieces.flatMap fun piece => SEMICOLON :: piece) = head :: pieces := by
  unfold splitParameters
  rw [splitLoop_plain hhead, splitLoop_pieces hpieces, List.nil_append]

/-! ### Percent encoding -/

/-- What may stand for itself in an extended value, and in a name. -/
def isAttributeCharacter (c : ℕ) : Bool :=
  0x21 ≤ c && c ≤ 0x7E && !(c ∈ [STAR, APOSTROPHE, PERCENT, OPEN, CLOSE, LESS, GREATER, AT, COMMA,
    SEMICOLON, 0x3A, BACKSLASH, QUOTE, 0x2F, 0x5B, 0x5D, QUESTION, EQUALS_SIGN])

/-- An extended value and the octets it stands for. -/
inductive PercentEncoded : List ℕ → Bytes → Prop where
  | nil : PercentEncoded [] []
  | literal {c : ℕ} {payload : List ℕ} {bytes : Bytes} : isAttributeCharacter c = true →
      PercentEncoded payload bytes → PercentEncoded (c :: payload) (UInt8.ofNat c :: bytes)
  | escaped {byte : UInt8} {high low : ℕ} {payload : List ℕ} {bytes : Bytes} : HexOf byte high low →
      PercentEncoded payload bytes → PercentEncoded (PERCENT :: high :: low :: payload) (byte :: bytes)

/-- What no character of an encoded value, of a name and of a label is. -/
def Inert (c : ℕ) : Prop :=
  isSpace c = false ∧ isLineTerminator c = false ∧ c < 0x80 ∧ c ≠ APOSTROPHE ∧ c ≠ QUOTE ∧ c ≠ SEMICOLON ∧
    c ≠ EQUALS_SIGN

theorem inert_of_bounds {c : ℕ} (hlow : 0x21 ≤ c) (hhigh : c ≤ 0x7E)
    (hne : c ≠ APOSTROPHE ∧ c ≠ QUOTE ∧ c ≠ SEMICOLON ∧ c ≠ EQUALS_SIGN) : Inert c := by
  refine ⟨?_, ?_, by omega, hne⟩
  · unfold isSpace
    simp
    omega
  · unfold isLineTerminator
    simp
    omega

theorem inert_of_attribute {c : ℕ} (h : isAttributeCharacter c = true) :
    Inert c ∧ c ≠ PERCENT ∧ c ≠ STAR := by
  unfold isAttributeCharacter at h
  rw [Bool.and_eq_true, Bool.and_eq_true, decide_eq_true_eq, decide_eq_true_eq,
    Bool.not_eq_true', decide_eq_false_iff_not] at h
  obtain ⟨⟨hlow, hhigh⟩, hnot⟩ := h
  have hne : ∀ d : ℕ, d ∈ [STAR, APOSTROPHE, PERCENT, OPEN, CLOSE, LESS, GREATER, AT, COMMA,
      SEMICOLON, 0x3A, BACKSLASH, QUOTE, 0x2F, 0x5B, 0x5D, QUESTION, EQUALS_SIGN] → c ≠ d := by
    rintro d hd rfl
    exact hnot hd
  refine ⟨inert_of_bounds hlow hhigh ⟨?_, ?_, ?_, ?_⟩, ?_, ?_⟩ <;> exact hne _ (by decide)

theorem inert_of_hex {c n : ℕ} (h : hexValue c = some n) : Inert c := by
  obtain ⟨hlow, hhigh, hequals, -⟩ := hexValue_bounds h
  have hne : ∀ d : ℕ, hexValue d = none → c ≠ d := by
    rintro d hd rfl
    rw [h] at hd
    cases hd
  refine inert_of_bounds (by omega) (by omega) ⟨?_, ?_, ?_, hequals⟩ <;> exact hne _ rfl

theorem inert_of_digit {c : ℕ} (h : isDigit c = true) : Inert c := by
  unfold isDigit at h
  rw [Bool.and_eq_true, decide_eq_true_eq, decide_eq_true_eq] at h
  refine inert_of_bounds (by omega) (by omega) ?_
  unfold APOSTROPHE QUOTE SEMICOLON EQUALS_SIGN
  omega

theorem parseInt16_hexOf {byte : UInt8} {high low : ℕ} (h : HexOf byte high low) :
    parseInt16 [high, low] = some (byte.toNat : ℤ) := by
  have hne : ∀ {c n d : ℕ}, hexValue c = some n → hexValue d = none → c ≠ d := by
    rintro c n d hc hd rfl
    rw [hc] at hd
    cases hd
  have hdrop : [high, low].dropWhile isSpace = [high, low] :=
    dropWhile_eq_self fun u hu => by
      obtain rfl := Option.some.inj hu
      exact (inert_of_hex h.high).1
  have hminus : high ≠ 0x2D := hne h.high rfl
  have hplus : high ≠ 0x2B := hne h.high rfl
  have hx : low ≠ 0x78 := hne h.low rfl
  have hX : low ≠ 0x58 := hne h.low rfl
  unfold parseInt16
  rw [hdrop]
  simp only [List.head?_cons, Option.some.injEq, hminus, hplus, or_self, if_false, List.take_succ_cons, List.take_zero, List.cons.injEq, hx, hX, and_false, false_and,
    List.map_cons, h.high, h.low, List.map_nil, List.takeWhile_cons, Option.isSome_some, if_true,
    List.takeWhile_nil, List.cons_ne_nil, List.reduceOption, List.filterMap_cons_some, id,
    List.filterMap_nil, List.foldl_cons, List.foldl_nil]
  omega

theorem percentBytes_eq {payload : List ℕ} {bytes : Bytes} (h : PercentEncoded payload bytes) :
    percentBytes payload = bytes := by
  induction h with
  | nil => rfl
  | literal hc _ ih =>
    unfold percentBytes
    rw [if_pos (inert_of_attribute hc).2.1, ih]
  | @escaped byte high low payload bytes hhex _ ih =>
    have hbyte : UInt8.ofInt (byte.toNat : ℤ) = byte := by
      have hlt := byte.toNat_lt
      apply UInt8.toNat.inj
      simp [UInt8.ofInt]
      omega
    unfold percentBytes
    rw [if_neg (fun hne => hne rfl)]
    dsimp only
    rw [parseInt16_hexOf hhex]
    dsimp only
    rw [hbyte, ih]

theorem inert_payload {payload : List ℕ} {bytes : Bytes} (h : PercentEncoded payload bytes) :
    ∀ c ∈ payload, Inert c := by
  induction h with
  | nil => exact nofun
  | literal hc _ ih => exact List.forall_mem_cons.mpr ⟨(inert_of_attribute hc).1, ih⟩
  | escaped hhex _ ih =>
    exact List.forall_mem_cons.mpr ⟨inert_of_bounds (by decide) (by decide) (by decide),
      List.forall_mem_cons.mpr ⟨inert_of_hex hhex.high,
        List.forall_mem_cons.mpr ⟨inert_of_hex hhex.low, ih⟩⟩⟩

/-! ### What is read -/

section Reading

variable {charsets : Charsets} {tables : TextTables}

def parameterName (tables : TextTables) (segment : List ℕ) : List ℕ :=
  tables.toLowerCase (trimmed (segment.takeWhile fun c => c ≠ EQUALS_SIGN))

def parameterValue (segment : List ℕ) : List ℕ :=
  unquoted (trimmed (segment.dropWhile fun c => c ≠ EQUALS_SIGN).tail)

/-- The segment a parameter is of a name at a position. -/
def segmentAt (tables : TextTables) (base : List ℕ) (position : ℕ) (segment : List ℕ) : Option Segment :=
  if EQUALS_SIGN ∉ segment then none
  else
    match numbered (parameterName tables segment) with
    | some (base', position', star) =>
      if base' = base ∧ position' = position then some ⟨parameterValue segment, star⟩ else none
    | none => none

def Parameters.segmentAt (state : Parameters) (base : List ℕ) (position : ℕ) : Option Segment :=
  (getKey base state.continued).bind (getKey position)

theorem segmentAt_readParameter (state : Parameters) (segment base : List ℕ) (position : ℕ) :
    (charsets.readParameter tables state segment).segmentAt base position =
      (state.segmentAt base position).or (segmentAt tables base position segment) := by
  unfold readParameter Mime.segmentAt parameterName parameterValue
  by_cases hequals : EQUALS_SIGN ∉ segment
  · rw [if_pos hequals, if_pos hequals, Option.or_none]
  · rw [if_neg hequals, if_neg hequals]
    have hkept : ∀ parameters, Parameters.segmentAt { state with parameters := parameters } base position =
        state.segmentAt base position := fun _ => rfl
    dsimp only
    cases numbered (tables.toLowerCase (trimmed (segment.takeWhile fun c => c ≠ EQUALS_SIGN))) with
    | none =>
      dsimp only
      rw [Option.or_none]
      split_ifs <;> exact hkept _
    | some found =>
      obtain ⟨base', position', star⟩ := found
      dsimp only
      unfold Parameters.segmentAt
      rw [getKey_setKey]
      by_cases hbase : base = base'
      · subst hbase
        rw [if_pos rfl, Option.bind_some]
        have hsegments : ∀ p, getKey p ((getKey base state.continued).getD []) =
            (getKey base state.continued).bind (getKey p) := by
          intro p
          cases getKey base state.continued <;> rfl
        split_ifs with hthere hat hat
        · obtain ⟨-, rfl⟩ := hat
          rw [← hsegments]
          obtain ⟨found, hfound⟩ := Option.isSome_iff_exists.mp hthere
          rw [hfound]
          rfl
        · rw [hsegments, Option.or_none]
        · obtain ⟨-, rfl⟩ := hat
          rw [getKey_setKey, if_pos rfl, ← hsegments]
          rw [Option.not_isSome_iff_eq_none.mp hthere]
          rfl
        · rw [getKey_setKey, if_neg fun heq => hat ⟨rfl, heq.symm⟩, hsegments, Option.or_none]
      · rw [if_neg hbase, if_neg fun h => hbase h.1.symm, Option.or_none]

theorem segmentAt_foldl (base : List ℕ) (position : ℕ) : ∀ (pieces : List (List ℕ)) (state : Parameters),
    (pieces.foldl (charsets.readParameter tables) state).segmentAt base position =
      (state.segmentAt base position).or (pieces.findSome? (segmentAt tables base position))
  | [], state => (Option.or_none).symm
  | piece :: pieces, state => by
    rw [List.foldl_cons, segmentAt_foldl base position pieces, segmentAt_readParameter, Option.or_assoc,
      List.findSome?_cons]
    cases segmentAt tables base position piece <;> rfl

theorem nodup_continued {state : Parameters} (h : (state.continued.map (·.1)).Nodup) :
    ∀ (pieces : List (List ℕ)),
      ((pieces.foldl (charsets.readParameter tables) state).continued.map (·.1)).Nodup := by
  intro pieces
  induction pieces generalizing state with
  | nil => exact h
  | cons piece pieces ih =>
    refine ih ?_
    unfold readParameter
    by_cases hequals : EQUALS_SIGN ∉ piece
    · rw [if_pos hequals]
      exact h
    · rw [if_neg hequals]
      dsimp only
      cases numbered (tables.toLowerCase (trimmed (piece.takeWhile fun c => c ≠ EQUALS_SIGN))) with
      | some found => exact nodup_keys_setKey h
      | none =>
        dsimp only
        split_ifs <;> exact h

/-- What a run over the numbered parameters leaves of a name it does not meet. -/
theorem getKey_joined_other {name : List ℕ} : ∀ {entries : List (List ℕ × List (ℕ × Segment))}
    {parameters : List (List ℕ × List ℕ)}, name ∉ entries.map (·.1) →
      getKey name (entries.foldl (fun parameters entry =>
        if (getKey 0 entry.2).isSome then setKey entry.1 (charsets.joinSegments entry.2) parameters
        else parameters) parameters) = getKey name parameters
  | [], _, _ => rfl
  | entry :: entries, parameters, h => by
    rw [List.map_cons, List.mem_cons, not_or] at h
    rw [List.foldl_cons, getKey_joined_other h.2]
    split_ifs
    · rw [getKey_setKey, if_neg h.1]
    · rfl

theorem getKey_joined {name : List ℕ} {segments : List (ℕ × Segment)} (hfirst : (getKey 0 segments).isSome) :
    ∀ {entries : List (List ℕ × List (ℕ × Segment))} {parameters : List (List ℕ × List ℕ)},
      (entries.map (·.1)).Nodup → (name, segments) ∈ entries →
      getKey name (entries.foldl (fun parameters entry =>
        if (getKey 0 entry.2).isSome then setKey entry.1 (charsets.joinSegments entry.2) parameters
        else parameters) parameters) = some (charsets.joinSegments segments)
  | entry :: entries, parameters, hnodup, hmem => by
    rw [List.map_cons, List.nodup_cons] at hnodup
    rw [List.foldl_cons]
    rcases List.mem_cons.mp hmem with rfl | hmem
    · rw [getKey_joined_other hnodup.1, if_pos hfirst, getKey_setKey, if_pos rfl]
    · exact getKey_joined hfirst hnodup.2 hmem

end Reading

/-! ### Numbered segments -/

/-- A segment as it is written, without its number and the label in front of the first. -/
structure Extended where
  name : List ℕ
  lead : List ℕ
  payload : List ℕ
  trail : List ℕ
  bytes : Bytes

structure NumberedText where
  charset : List ℕ
  language : List ℕ
  segments : List Extended

namespace NumberedText

def valueAt (encoded : NumberedText) (number : ℕ) (segment : Extended) : List ℕ :=
  if number = 0 then
    encoded.charset ++ APOSTROPHE :: (encoded.language ++ APOSTROPHE :: segment.payload)
  else segment.payload

def pieceAt (encoded : NumberedText) (number : ℕ) (segment : Extended) : List ℕ :=
  segment.lead ++ (segment.name ++ STAR :: (decimal number ++ [STAR]) ++
    EQUALS_SIGN :: (encoded.valueAt number segment ++ segment.trail))

def pieces (encoded : NumberedText) : List (List ℕ) := encoded.segments.mapIdx encoded.pieceAt

def bytes (encoded : NumberedText) : Bytes := encoded.segments.flatMap (·.bytes)

end NumberedText

def asciiLower (c : ℕ) : ℕ := if 0x41 ≤ c ∧ c ≤ 0x5A then c + 0x20 else c

/-- The table of lower case letters, as far as names go. -/
def AsciiLower (tables : TextTables) : Prop :=
  ∀ text : List ℕ, (∀ c ∈ text, c < 0x80) → tables.toLowerCase text = text.map asciiLower

/-- **A legal writing** of a text as the value of a parameter: its octets in a character set that is
known, cut anywhere, with the name in whatever case on each. -/
structure NumberedText.Legal (charsets : Charsets) (name text : List ℕ) (encoded : NumberedText) : Prop where
  segments : encoded.segments ≠ []
  named : name ≠ []
  token : ∀ segment ∈ encoded.segments, segment.name.map asciiLower = name ∧
    ∀ c ∈ segment.name, isAttributeCharacter c = true
  blanks : ∀ segment ∈ encoded.segments, ∀ c ∈ segment.lead ++ segment.trail, isSpace c = true
  label : ∀ c ∈ encoded.charset ++ encoded.language, isAttributeCharacter c = true
  payload : ∀ segment ∈ encoded.segments, PercentEncoded segment.payload segment.bytes
  text : charsets.decode (if encoded.charset = [] then UTF_8 else encoded.charset) encoded.bytes = some text

theorem asciiLower_bounds {c : ℕ} (h : isAttributeCharacter c = true) :
    0x21 ≤ asciiLower c ∧ asciiLower c ≤ 0x7E := by
  unfold isAttributeCharacter at h
  rw [Bool.and_eq_true, Bool.and_eq_true, decide_eq_true_eq, decide_eq_true_eq] at h
  unfold asciiLower
  split_ifs <;> omega

theorem map_asciiLower_digits {digits : List ℕ} (h : ∀ c ∈ digits, isDigit c = true) :
    digits.map asciiLower = digits := by
  refine (List.map_congr_left fun c hc => ?_).trans (List.map_id _)
  have hdigit := h c hc
  unfold isDigit at hdigit
  rw [Bool.and_eq_true, decide_eq_true_eq, decide_eq_true_eq] at hdigit
  unfold asciiLower
  exact if_neg (by omega)

namespace NumberedText.Legal

variable {charsets : Charsets} {tables : TextTables} {name text : List ℕ} {encoded : NumberedText}
  (h : encoded.Legal charsets name text)

include h

theorem numberedName {position : ℕ} (hposition : position < 1000) :
    NumberedName (name ++ STAR :: (decimal position ++ [STAR])) name (decimal position) true where
  written := rfl
  based := h.named
  line := by
    obtain ⟨segment, hsegment⟩ := List.exists_mem_of_ne_nil _ h.segments
    obtain ⟨rfl, htoken⟩ := h.token segment hsegment
    intro c hc
    obtain ⟨d, hd, rfl⟩ := List.mem_map.mp hc
    obtain ⟨hlow, hhigh⟩ := asciiLower_bounds (htoken d hd)
    unfold isLineTerminator
    simp
    omega
  some_digits := decimal_ne_nil position
  three_digits := length_decimal hposition
  digits _ := isDigit_of_mem_decimal

variable {segment : Extended} (hsegment : segment ∈ encoded.segments) (position : ℕ)

include hsegment

theorem inert_name : ∀ c ∈ segment.name ++ STAR :: (decimal position ++ [STAR]), Inert c := by
  have hstar : Inert STAR := inert_of_bounds (by decide) (by decide) (by decide)
  intro c hc
  rcases List.mem_append.mp hc with hc | hc
  · exact (inert_of_attribute ((h.token segment hsegment).2 c hc)).1
  · rcases List.mem_cons.mp hc with rfl | hc
    · exact hstar
    · rcases List.mem_append.mp hc with hc | hc
      · exact inert_of_digit (isDigit_of_mem_decimal hc)
      · rw [List.mem_singleton.mp hc]
        exact hstar

theorem value_characters : ∀ c ∈ encoded.valueAt position segment, isSpace c = false ∧ c ≠ QUOTE ∧
    c ≠ SEMICOLON := by
  have hkept : ∀ c, Inert c → isSpace c = false ∧ c ≠ QUOTE ∧ c ≠ SEMICOLON := fun c hc =>
    ⟨hc.1, hc.2.2.2.2.1, hc.2.2.2.2.2.1⟩
  have hpayload : ∀ c ∈ segment.payload, isSpace c = false ∧ c ≠ QUOTE ∧ c ≠ SEMICOLON := fun c hc =>
    hkept c (inert_payload (h.payload segment hsegment) c hc)
  have hlabel : ∀ c ∈ encoded.charset ++ encoded.language, isSpace c = false ∧ c ≠ QUOTE ∧
      c ≠ SEMICOLON := fun c hc => hkept c (inert_of_attribute (h.label c hc)).1
  intro c hc
  unfold valueAt at hc
  split_ifs at hc
  · rcases List.mem_append.mp hc with hc | hc
    · exact hlabel c (List.mem_append_left _ hc)
    · rcases List.mem_cons.mp hc with rfl | hc
      · decide
      · rcases List.mem_append.mp hc with hc | hc
        · exact hlabel c (List.mem_append_right _ hc)
        · rcases List.mem_cons.mp hc with rfl | hc
          · decide
          · exact hpayload c hc
  · exact hpayload c hc

theorem blank : ∀ {c : ℕ}, (c ∈ segment.lead → isSpace c = true) ∧ (c ∈ segment.trail → isSpace c = true) :=
  fun {c} => ⟨fun hc => h.blanks segment hsegment c (List.mem_append_left _ hc),
    fun hc => h.blanks segment hsegment c (List.mem_append_right _ hc)⟩

theorem whole_piece : Whole (encoded.pieceAt position segment) := by
  have hblank : ∀ c : ℕ, isSpace c = true → c ≠ QUOTE ∧ c ≠ SEMICOLON := by
    intro c hc
    constructor <;>
      · rintro rfl
        cases hc
  refine .plain fun c hc => ?_
  rcases List.mem_append.mp hc with hc | hc
  · exact hblank c ((h.blank hsegment).1 hc)
  · rcases List.mem_append.mp hc with hc | hc
    · have hinert := h.inert_name hsegment position c hc
      exact ⟨hinert.2.2.2.2.1, hinert.2.2.2.2.2.1⟩
    · rcases List.mem_cons.mp hc with rfl | hc
      · decide
      · rcases List.mem_append.mp hc with hc | hc
        · exact (h.value_characters hsegment position c hc).2
        · exact hblank c ((h.blank hsegment).2 hc)

/-- Where the name of a written segment ends. -/
theorem equals_apart : ∀ c ∈ segment.lead ++ (segment.name ++ STAR :: (decimal position ++ [STAR])),
    decide (c ≠ EQUALS_SIGN) = true := by
  intro c hc
  refine decide_eq_true ?_
  rcases List.mem_append.mp hc with hc | hc
  · rintro rfl
    cases (h.blank hsegment).1 hc
  · exact (h.inert_name hsegment position c hc).2.2.2.2.2.2

omit h hsegment in
theorem pieceAt_eq : encoded.pieceAt position segment =
    segment.lead ++ (segment.name ++ STAR :: (decimal position ++ [STAR])) ++
      EQUALS_SIGN :: (encoded.valueAt position segment ++ segment.trail) :=
  (List.append_assoc _ _ _).symm

theorem parameterName_piece (hlower : AsciiLower tables) :
    parameterName tables (encoded.pieceAt position segment) =
      name ++ STAR :: (decimal position ++ [STAR]) := by
  have hinert := h.inert_name hsegment position
  have hends : ∀ c ∈ segment.name ++ STAR :: (decimal position ++ [STAR]), isSpace c = false :=
    fun c hc => (hinert c hc).1
  have htrimmed : trimmed (segment.lead ++ (segment.name ++ STAR :: (decimal position ++ [STAR]))) =
      segment.name ++ STAR :: (decimal position ++ [STAR]) := by
    have hpadded : trimmed (segment.lead ++ ((segment.name ++ STAR :: (decimal position ++ [STAR])) ++ [])) =
        _ := trimmed_padded (fun c hc => (h.blank hsegment).1 hc) nofun
      (fun c hc => hends c (List.mem_of_mem_head? hc)) fun c hc => hends c (List.mem_of_mem_getLast? hc)
    rwa [List.append_nil] at hpadded
  unfold parameterName
  rw [pieceAt_eq, List.takeWhile_append_of_pos (h.equals_apart hsegment position),
    List.takeWhile_cons, if_neg (by decide), List.append_nil, htrimmed,
    hlower _ fun c hc => (hinert c hc).2.2.1, List.map_append, List.map_cons, List.map_append,
    map_asciiLower_digits fun _ => isDigit_of_mem_decimal, (h.token segment hsegment).1]
  rfl

theorem parameterValue_piece :
    parameterValue (encoded.pieceAt position segment) = encoded.valueAt position segment := by
  have hvalue := h.value_characters hsegment position
  have htrimmed : trimmed ([] ++ (encoded.valueAt position segment ++ segment.trail)) =
      encoded.valueAt position segment :=
    trimmed_padded nofun (fun c hc => (h.blank hsegment).2 hc)
      (fun c hc => (hvalue c (List.mem_of_mem_head? hc)).1)
      fun c hc => (hvalue c (List.mem_of_mem_getLast? hc)).1
  unfold parameterValue
  rw [pieceAt_eq, List.dropWhile_append_of_pos (h.equals_apart hsegment position),
    List.dropWhile_cons, if_neg (by decide), List.tail_cons]
  rw [List.nil_append] at htrimmed
  rw [htrimmed]
  unfold unquoted
  refine if_neg fun hquote => ?_
  exact (hvalue QUOTE (List.mem_of_mem_head? hquote)).2.1 rfl

theorem segmentAt_piece (hlower : AsciiLower tables) {number : ℕ} (hnumber : number < 1000) :
    segmentAt tables name position (encoded.pieceAt number segment) =
      if number = position then some ⟨encoded.valueAt number segment, true⟩ else none := by
  have hequals : EQUALS_SIGN ∈ encoded.pieceAt number segment := by
    rw [pieceAt_eq]
    exact List.mem_append_right _ List.mem_cons_self
  unfold segmentAt
  rw [if_neg (fun hnot => hnot hequals), h.parameterName_piece hsegment number hlower,
    numbered_eq (h.numberedName hnumber), numberOfDigits_decimal]
  dsimp only
  rw [h.parameterValue_piece hsegment]
  by_cases heq : number = position
  · rw [if_pos ⟨rfl, heq⟩, if_pos heq]
  · rw [if_neg fun hboth => heq hboth.2, if_neg heq]

end NumberedText.Legal

theorem findSome?_eq {α β : Type} {f : α → Option β} {value : β} {items : List α}
    (hsome : ∃ item ∈ items, f item = some value) (honly : ∀ item ∈ items, ∀ w, f item = some w → w = value) :
    items.findSome? f = some value := by
  cases hfound : items.findSome? f with
  | none =>
    obtain ⟨item, hitem, hvalue⟩ := hsome
    rw [List.findSome?_eq_none_iff.mp hfound item hitem] at hvalue
    cases hvalue
  | some w =>
    obtain ⟨item, hitem, hw⟩ := List.exists_of_findSome?_eq_some hfound
    rw [honly item hitem w hw]

/-- A parameter beside the segments is not one of theirs. -/
def Beside (tables : TextTables) (name piece : List ℕ) : Prop :=
  ∀ position, segmentAt tables name position piece = none

section Together

variable {charsets : Charsets} {tables : TextTables} {name text head : List ℕ} {encoded : NumberedText}
  {pieces others : List (List ℕ)}

/-- The segment of the writing at a position, as it is read. -/
def NumberedText.readAt (encoded : NumberedText) (position : ℕ) : Option Segment :=
  encoded.segments[position]?.map fun segment => ⟨encoded.valueAt position segment, true⟩

theorem findSome?_segmentAt (hlower : AsciiLower tables) (h : encoded.Legal charsets name text)
    (hsize : encoded.segments.length ≤ 1000) (hothers : ∀ piece ∈ others, Beside tables name piece)
    (hpieces : pieces.Perm (encoded.pieces ++ others)) (position : ℕ) :
    pieces.findSome? (segmentAt tables name position) = encoded.readAt position := by
  have hread : ∀ piece ∈ pieces, ∀ segment, segmentAt tables name position piece = some segment →
      encoded.readAt position = some segment := by
    intro piece hpiece segment hsegment
    rcases List.mem_append.mp (hpieces.mem_iff.mp hpiece) with hpiece | hpiece
    · obtain ⟨number, hnumber, rfl⟩ := List.mem_mapIdx.mp hpiece
      rw [h.segmentAt_piece (List.getElem_mem hnumber) position hlower (by omega)] at hsegment
      split_ifs at hsegment with heq
      subst heq
      unfold NumberedText.readAt
      rw [List.getElem?_eq_getElem hnumber, Option.map_some, hsegment]
    · rw [hothers piece hpiece position] at hsegment
      cases hsegment
  cases hat' : encoded.readAt position with
  | none =>
    refine List.findSome?_eq_none_iff.mpr fun piece hpiece => ?_
    cases hsegment : segmentAt tables name position piece with
    | none => rfl
    | some segment =>
      have hsome := hread piece hpiece segment hsegment
      rw [hat'] at hsome
      cases hsome
  | some segment =>
    refine findSome?_eq ?_ fun piece hpiece other hother => ?_
    · obtain ⟨written, hwritten, rfl⟩ := Option.map_eq_some_iff.mp hat'
      obtain ⟨hposition, rfl⟩ := List.getElem?_eq_some_iff.mp hwritten
      refine ⟨encoded.pieceAt position encoded.segments[position], ?_, ?_⟩
      · exact hpieces.mem_iff.mpr
          (List.mem_append_left _ (List.mem_mapIdx.mpr ⟨position, hposition, rfl⟩))
      · rw [h.segmentAt_piece (List.getElem_mem hposition) position hlower (by omega), if_pos rfl]
    · have hsome := hread piece hpiece other hother
      rw [hat'] at hsome
      exact (Option.some.inj hsome).symm

theorem NumberedText.Legal.extendedParts_first (h : encoded.Legal charsets name text) {segment : Extended}
    (hsegment : segment ∈ encoded.segments) :
    extendedParts (encoded.valueAt 0 segment) = some (encoded.charset, segment.payload) := by
  have hapart : ∀ c ∈ encoded.charset ++ encoded.language, c ≠ APOSTROPHE := fun c hc =>
    (inert_of_attribute (h.label c hc)).1.2.2.2.1
  have hcharset : APOSTROPHE ∉ encoded.charset := fun hc => hapart _ (List.mem_append_left _ hc) rfl
  have hlanguage : APOSTROPHE ∉ encoded.language := fun hc => hapart _ (List.mem_append_right _ hc) rfl
  have hpayload : APOSTROPHE ∉ segment.payload := fun hc =>
    (inert_payload (h.payload segment hsegment) _ hc).2.2.2.1 rfl
  unfold extendedParts NumberedText.valueAt
  rw [if_pos rfl, split_append hcharset, split_append hlanguage, split_none hpayload]
  show (if [segment.payload] = [] then none else some _) = _
  rw [if_neg (List.cons_ne_nil _ _)]
  simp [List.intercalate]

theorem joinFrom_behind (h : encoded.Legal charsets name text) {segments : List (ℕ × Segment)}
    (hsegments : ∀ position, getKey position segments = encoded.readAt position) (charset : List ℕ) :
    ∀ (room position : ℕ) (bytes : Bytes), 0 < position → encoded.segments.length ≤ position + room →
      charsets.joinFrom segments room position charset bytes =
        charsets.decodeBytes (bytes ++ (encoded.segments.drop position).flatMap (·.bytes)) charset
  | 0, position, bytes, _, hroom => by
    have hdrop : encoded.segments.drop position = [] := List.drop_of_length_le hroom
    rw [hdrop, List.flatMap_nil, List.append_nil]
    rfl
  | room + 1, position, bytes, hpos, hroom => by
    have hat' := hsegments position
    unfold NumberedText.readAt at hat'
    unfold joinFrom
    rw [hat']
    by_cases hposition : position < encoded.segments.length
    · have hmem := List.getElem_mem hposition
      have hparts : (if true = true ∧ position = 0 then
          extendedParts (encoded.valueAt position encoded.segments[position]) else none) = none :=
        if_neg fun hc => (Nat.ne_of_gt hpos) hc.2
      rw [List.getElem?_eq_getElem hposition, Option.map_some]
      dsimp only
      rw [hparts]
      dsimp only [Option.map_none, Option.getD_none]
      rw [if_pos rfl, if_pos rfl, joinFrom_behind h hsegments charset room (position + 1) _ (by omega) (by omega),
        List.drop_eq_getElem_cons hposition, List.flatMap_cons, List.append_assoc]
      unfold NumberedText.valueAt
      rw [if_neg (Nat.ne_of_gt hpos), percentBytes_eq (h.payload _ hmem)]
    · rw [List.getElem?_eq_none (by omega), List.drop_of_length_le (by omega), List.flatMap_nil,
        List.append_nil]
      rfl

theorem length_le_segments {segments : List (ℕ × Segment)}
    (hsegments : ∀ position, getKey position segments = encoded.readAt position) :
    encoded.segments.length ≤ segments.length := by
  have hsubset : List.range encoded.segments.length ⊆ segments.map (·.1) := by
    intro position hposition
    have hfound := hsegments position
    unfold NumberedText.readAt getKey at hfound
    rw [List.getElem?_eq_getElem (List.mem_range.mp hposition), Option.map_some, Option.map_eq_some_iff]
      at hfound
    obtain ⟨entry, hentry, -⟩ := hfound
    have hkey := List.find?_some hentry
    rw [decide_eq_true_eq] at hkey
    rw [← hkey]
    exact List.mem_map_of_mem (List.mem_of_find?_eq_some hentry)
  have hle := (List.subperm_of_subset List.nodup_range hsubset).length_le
  rwa [List.length_range, List.length_map] at hle

theorem joinSegments_legal (h : encoded.Legal charsets name text) {segments : List (ℕ × Segment)}
    (hsegments : ∀ position, getKey position segments = encoded.readAt position) :
    charsets.joinSegments segments = text := by
  obtain ⟨first, rest, hcons⟩ := List.exists_cons_of_ne_nil h.segments
  have hfirst : first ∈ encoded.segments := by
    rw [hcons]
    exact List.mem_cons_self
  have hread : getKey 0 segments = some ⟨encoded.valueAt 0 first, true⟩ := by
    rw [hsegments]
    unfold NumberedText.readAt
    rw [hcons]
    rfl
  obtain ⟨room, hroom⟩ : ∃ room, segments.length = room + 1 := by
    cases segments with
    | nil => cases hread
    | cons entry segments => exact ⟨segments.length, rfl⟩
  have hlength := length_le_segments hsegments
  unfold joinSegments
  rw [hroom]
  unfold joinFrom
  rw [hread]
  dsimp only
  have hparts : (if true = true ∧ 0 = 0 then extendedParts (encoded.valueAt 0 first) else none) =
      some (encoded.charset, first.payload) := by
    rw [if_pos ⟨rfl, rfl⟩, h.extendedParts_first hfirst]
  rw [hparts]
  dsimp only [Option.map_some, Option.getD_some]
  rw [if_pos rfl, joinFrom_behind h hsegments _ room 1 _ (by decide) (by omega),
    percentBytes_eq (h.payload first hfirst), List.nil_append]
  have hbytes : first.bytes ++ (encoded.segments.drop 1).flatMap (·.bytes) = encoded.bytes := by
    unfold NumberedText.bytes
    rw [hcons]
    rfl
  have hcharset : (if encoded.charset = [] then UTF_8 else encoded.charset) ≠ [] := by
    split_ifs with hnil
    · decide
    · exact hnil
  rw [hbytes]
  refine decodeBytes_eq hcharset (fun c hc => ?_) h.text
  split_ifs at hc
  · revert c
    decide
  · have hinert := (inert_of_attribute (h.label c (List.mem_append_left _ hc))).1
    exact ⟨hinert.1, hinert.2.2.2.2.1, hinert.2.2.2.1⟩

/-- **A parameter in numbered segments**, in any order and among others, has the text that was written. -/
theorem getKey_parseParameters (hlower : AsciiLower tables) (h : encoded.Legal charsets name text)
    (hsize : encoded.segments.length ≤ 1000) (hhead : Plain head)
    (hwhole : ∀ piece ∈ others, Whole piece) (hothers : ∀ piece ∈ others, Beside tables name piece)
    (hpieces : pieces.Perm (encoded.pieces ++ others)) :
    getKey name (charsets.parseParameters tables (head ++ pieces.flatMap fun piece => SEMICOLON :: piece)) =
      some text := by
  have hsplit : ∀ piece ∈ pieces, Whole piece := by
    intro piece hpiece
    rcases List.mem_append.mp (hpieces.mem_iff.mp hpiece) with hpiece | hpiece
    · obtain ⟨number, hnumber, rfl⟩ := List.mem_mapIdx.mp hpiece
      exact h.whole_piece (List.getElem_mem hnumber) number
    · exact hwhole piece hpiece
  have hread : ∀ position, (pieces.foldl (charsets.readParameter tables) ⟨[], []⟩).segmentAt name position =
      encoded.readAt position := by
    intro position
    rw [segmentAt_foldl, findSome?_segmentAt hlower h hsize hothers hpieces]
    rfl
  unfold parseParameters
  rw [splitParameters_eq hhead hsplit, List.tail_cons]
  have hnodup : ((pieces.foldl (charsets.readParameter tables) ⟨[], []⟩).continued.map (·.1)).Nodup := by
    have hnil : ((⟨[], []⟩ : Parameters).continued.map (·.1)).Nodup := List.nodup_nil
    exact nodup_continued hnil pieces
  generalize pieces.foldl (charsets.readParameter tables) ⟨[], []⟩ = read at hread hnodup
  obtain ⟨first, rest, hcons⟩ := List.exists_cons_of_ne_nil h.segments
  have hfirst : encoded.readAt 0 = some ⟨encoded.valueAt 0 first, true⟩ := by
    unfold NumberedText.readAt
    rw [hcons]
    rfl
  obtain ⟨segments, hsegments⟩ : ∃ segments, getKey name read.continued = some segments := by
    cases hget : getKey name read.continued with
    | none =>
      have hnone := hread 0
      unfold Parameters.segmentAt at hnone
      rw [hget, hfirst] at hnone
      cases hnone
    | some segments => exact ⟨segments, rfl⟩
  have hat' : ∀ position, getKey position segments = encoded.readAt position := by
    intro position
    have hposition := hread position
    unfold Parameters.segmentAt at hposition
    rwa [hsegments] at hposition
  dsimp only
  rw [getKey_joined (by rw [hat', hfirst]; rfl) hnodup ((mem_iff_getKey hnodup).mpr hsegments),
    joinSegments_legal h hat']

end Together

/-! ### Decoding -/

/-- A parameter whose name is not the name, a star and a digit. -/
def Unnumbered (tables : TextTables) (name piece : List ℕ) : Prop :=
  ∀ digit rest, isDigit digit = true → parameterName tables piece ≠ name ++ STAR :: digit :: rest

theorem Unnumbered.beside {tables : TextTables} {name piece : List ℕ} (h : Unnumbered tables name piece) :
    Beside tables name piece := by
  intro position
  unfold segmentAt
  by_cases hequals : EQUALS_SIGN ∉ piece
  · exact if_pos hequals
  · rw [if_neg hequals]
    cases hnumbered : numbered (parameterName tables piece) with
    | none => rfl
    | some found =>
      obtain ⟨base, position', star⟩ := found
      refine if_neg ?_
      rintro ⟨rfl, -⟩
      obtain ⟨digits, hname, -⟩ := numbered_some hnumbered
      obtain ⟨digit, digits', rfl⟩ := List.exists_cons_of_ne_nil hname.some_digits
      exact h digit _ (hname.digits digit List.mem_cons_self) hname.written

/-- **Decoding** undoes a legal encoding: a parameter in numbered segments, a quoted-printable body,
adjacent encoded words. -/
theorem decoding_undoes (charsets : Charsets) (tables : TextTables) (hlower : AsciiLower tables) :
    (∀ (name text head : List ℕ) (encoded : NumberedText) (pieces others : List (List ℕ)),
      encoded.Legal charsets name text → encoded.segments.length ≤ 1000 → Plain head →
      (∀ piece ∈ others, Whole piece ∧ Unnumbered tables name piece) →
      pieces.Perm (encoded.pieces ++ others) →
      getKey name (charsets.parseParameters tables
        (head ++ pieces.flatMap fun piece => SEMICOLON :: piece)) = some text) ∧
    (∀ (charset text : List ℕ) (bytes encoded : Bytes), charset ≠ [] →
      (∀ c ∈ charset, isSpace c = false ∧ c ≠ 0x22 ∧ c ≠ 0x27) →
      charsets.decode charset bytes = some text → QuotedPrintable encoded bytes →
      charsets.decodeBytes (decodeQuotedPrintable encoded) charset = text) ∧
    (∀ (word : EncodedWord) (words : List (List ℕ × EncodedWord)), word.Legal charsets →
      (∀ behind ∈ words, (∀ c ∈ behind.1, isSpace c = true) ∧ behind.2.Legal charsets) →
      charsets.decodeEncodedWords (word.written ++ following words) =
        word.text ++ words.flatMap fun behind => behind.2.text) := by
  refine ⟨?_, ?_, ?_⟩
  · intro name text head encoded pieces others hlegal hsize hhead hothers hpieces
    exact getKey_parseParameters hlower hlegal hsize hhead (fun piece hpiece => (hothers piece hpiece).1)
      (fun piece hpiece => (hothers piece hpiece).2.beside) hpieces
  · intro charset text bytes encoded hnamed htoken hdecode hencoded
    exact decodeBytes_quotedPrintable hnamed htoken hdecode hencoded
  · intro word words hword hwords
    exact decodeEncodedWords_eq hword hwords

/-- UTF-8, as far as characters of two bytes. -/
def twoByteText : Bytes → List ℕ
  | a :: b :: rest =>
    if 0xC0 ≤ a.toNat then ((a.toNat - 0xC0) * 0x40 + (b.toNat - 0x80)) :: twoByteText rest
    else a.toNat :: twoByteText (b :: rest)
  | rest => latin1Text rest

def twoByteCharsets : Charsets where
  decode label bytes := if label = UTF_8 then some (twoByteText bytes) else none

def lowerTables : TextTables where
  toLowerCase text := text.map asciiLower
  defaultIgnorable _ := false

/-- Segments of a parameter `f` in UTF-8, with the octets they stand for. -/
def segmentsOf (payloads : List (List ℕ × Bytes)) : NumberedText where
  charset := UTF_8
  language := []
  segments := payloads.map fun payload => ⟨[0x66], [], payload.1, [], payload.2⟩

theorem segmentsOf_legal {payloads : List (List ℕ × Bytes)} {text : List ℕ} (hsome : payloads ≠ [])
    (hpayloads : ∀ payload ∈ payloads, PercentEncoded payload.1 payload.2)
    (htext : twoByteText (payloads.flatMap (·.2)) = text) :
    (segmentsOf payloads).Legal twoByteCharsets [0x66] text where
  segments := by simpa [segmentsOf] using hsome
  named := List.cons_ne_nil _ _
  token := by
    intro segment hsegment
    obtain ⟨payload, -, rfl⟩ := List.mem_map.mp hsegment
    exact ⟨rfl, List.forall_mem_singleton.mpr rfl⟩
  blanks := by
    intro segment hsegment
    obtain ⟨payload, -, rfl⟩ := List.mem_map.mp hsegment
    exact nofun
  label := by
    show ∀ c ∈ UTF_8 ++ [], isAttributeCharacter c = true
    decide
  payload := by
    intro segment hsegment
    obtain ⟨payload, hpayload, rfl⟩ := List.mem_map.mp hsegment
    exact hpayloads payload hpayload
  text := by
    have hbytes : (segmentsOf payloads).bytes = payloads.flatMap (·.2) := List.flatMap_map _ _ _
    rw [hbytes, ← htext]
    rfl

/-- `=?utf-8?q?h=c3=A5?=`, and the same letters in base64. -/
def quotedWord : EncodedWord where
  charset := UTF_8
  encoding := 0x71
  payload := [0x68, 0x3D, 0x63, 0x33, 0x3D, 0x41, 0x35]
  text := [0x68, 0xE5]

def base64Word : EncodedWord where
  charset := UTF_8
  encoding := 0x42
  payload := encodeBase64 [0x68, 0xC3, 0xA5]
  text := [0x68, 0xE5]

theorem legal_words : quotedWord.Legal twoByteCharsets ∧ base64Word.Legal twoByteCharsets := by
  refine ⟨⟨List.cons_ne_nil _ _, by decide, [0x68, 0xC3, 0xA5], by decide, .inr ⟨.inr rfl, ?_⟩⟩,
    ⟨List.cons_ne_nil _ _, by decide, [0x68, 0xC3, 0xA5], by decide, .inl ⟨.inl rfl, rfl⟩⟩⟩
  exact @QPayload.literal 0x68 _ _ (by decide) (by decide) (by decide) (by decide) (by decide)
    (.escaped ⟨rfl, rfl⟩ (.escaped ⟨rfl, rfl⟩ .nil))

/-- A letter of two octets, with a cut between them: in a parameter between two segments, in a body at
a soft line break, in either case of the digits; and in two words with a folded line between them. -/
theorem decoded_across_cut : getKey [0x66] (twoByteCharsets.parseParameters lowerTables
    ([0x61] ++ (segmentsOf [([PERCENT, 0x43, 0x33], [0xC3]), ([PERCENT, 0x61, 0x35], [0xA5])]).pieces.flatMap
      fun piece => SEMICOLON :: piece)) = some [0xE5] ∧
    twoByteCharsets.decodeBytes (decodeQuotedPrintable [0x68, EQUALS, 0x43, 0x33, EQUALS, 0x0D, 0x0A,
      EQUALS, 0x61, 0x35]) UTF_8 = [0x68, 0xE5] ∧
    twoByteCharsets.decodeEncodedWords (quotedWord.written ++ following [([0x0D, 0x0A, 0x20], base64Word)]) =
      [0x68, 0xE5, 0x68, 0xE5] := by
  obtain ⟨hparameter, hbody, hwords⟩ := decoding_undoes twoByteCharsets lowerTables fun _ _ => rfl
  have hlegal : (segmentsOf [([PERCENT, 0x43, 0x33], [0xC3]), ([PERCENT, 0x61, 0x35], [0xA5])]).Legal
      twoByteCharsets [0x66] [0xE5] := by
    refine segmentsOf_legal (List.cons_ne_nil _ _) ?_ rfl
    refine List.forall_mem_cons.mpr ⟨?_, List.forall_mem_singleton.mpr ?_⟩
    · exact .escaped ⟨rfl, rfl⟩ .nil
    · exact .escaped ⟨rfl, rfl⟩ .nil
  refine ⟨hparameter [0x66] [0xE5] [0x61] _ _ [] hlegal ?_ ?_ nofun ?_, ?_, ?_⟩
  · show 2 ≤ 1000
    decide
  · exact List.forall_mem_singleton.mpr (by decide)
  · rw [List.append_nil]
  · refine hbody UTF_8 [0x68, 0xE5] [0x68, 0xC3, 0xA5] _ (List.cons_ne_nil _ _) (by decide) (by decide) ?_
    exact .literal (by decide) (.escaped ⟨rfl, rfl⟩ (.softCRLF (.escaped ⟨rfl, rfl⟩ .nil)))
  · exact hwords quotedWord _ legal_words.1 (List.forall_mem_singleton.mpr ⟨by decide, legal_words.2⟩)

/-- Empty segments, and one behind them that has the text. -/
def manySegments (n : ℕ) : NumberedText := segmentsOf (List.replicate n ([], []) ++ [([0x78], [0x78])])

theorem segments_lost {n : ℕ} (hn : n = 1000) : (manySegments n).Legal twoByteCharsets [0x66] [0x78] ∧
    getKey [0x66] (twoByteCharsets.parseParameters lowerTables
      ([0x61] ++ (manySegments n).pieces.flatMap fun piece => SEMICOLON :: piece)) = some [] := by
  have hempty : ∀ payload ∈ List.replicate n (([], []) : List ℕ × Bytes),
      PercentEncoded payload.1 payload.2 := by
    intro payload hpayload
    rw [List.eq_of_mem_replicate hpayload]
    exact .nil
  have hlast : PercentEncoded [0x78] [0x78] := .literal rfl .nil
  have hnone : (List.replicate n (([], []) : List ℕ × Bytes)).flatMap (·.2) = [] :=
    List.flatMap_eq_nil_iff.mpr fun payload hpayload => by rw [List.eq_of_mem_replicate hpayload]
  have hlegal : (manySegments n).Legal twoByteCharsets [0x66] [0x78] := by
    refine segmentsOf_legal (by simp) (fun payload hpayload => ?_) ?_
    · rcases List.mem_append.mp hpayload with hpayload | hpayload
      · exact hempty payload hpayload
      · rw [List.mem_singleton.mp hpayload]
        exact hlast
    · rw [List.flatMap_append, hnone]
      rfl
  refine ⟨hlegal, ?_⟩
  -- the last segment stands beside the others
  have hkept : (segmentsOf (List.replicate n ([], []))).Legal twoByteCharsets [0x66] [] :=
    segmentsOf_legal (fun hnil => by
      have hlength := congrArg List.length hnil
      rw [List.length_replicate, List.length_nil] at hlength
      omega) hempty (by rw [hnone]; rfl)
  have hlength : (segmentsOf (List.replicate n ([], []))).segments.length = n := by
    simp [segmentsOf]
  have hpieces : (manySegments n).pieces = (segmentsOf (List.replicate n ([], []))).pieces ++
      [(manySegments n).pieceAt n ⟨[0x66], [], [0x78], [], [0x78]⟩] := by
    have hsegments : (manySegments n).segments = (segmentsOf (List.replicate n ([], []))).segments ++
        [⟨[0x66], [], [0x78], [], [0x78]⟩] := List.map_append
    unfold NumberedText.pieces
    rw [hsegments, List.mapIdx_append, hlength, List.mapIdx_singleton, Nat.zero_add]
    rfl
  have hmem : (⟨[0x66], [], [0x78], [], [0x78]⟩ : Extended) ∈ (manySegments n).segments :=
    List.mem_map.mpr ⟨([0x78], [0x78]), List.mem_append_right _ List.mem_cons_self, rfl⟩
  have hlower : AsciiLower lowerTables := fun _ _ => rfl
  have hdecimal : (decimal n).length = 4 := by
    rw [hn]
    simp [decimal]
  have hbeside : Beside lowerTables [0x66]
      ((manySegments n).pieceAt n ⟨[0x66], [], [0x78], [], [0x78]⟩) := by
    intro position
    unfold segmentAt
    rw [hlegal.parameterName_piece hmem n hlower]
    by_cases hequals : EQUALS_SIGN ∉ (manySegments n).pieceAt n ⟨[0x66], [], [0x78], [], [0x78]⟩
    · exact if_pos hequals
    · rw [if_neg hequals]
      cases hnumbered : numbered ([0x66] ++ STAR :: (decimal n ++ [STAR])) with
      | none => rfl
      | some found =>
        obtain ⟨base, position', star⟩ := found
        refine if_neg ?_
        rintro ⟨rfl, -⟩
        obtain ⟨digits, hname, -⟩ := numbered_some hnumbered
        have hwritten := congrArg List.length hname.written
        have hthree := hname.three_digits
        cases star <;>
          · simp [starred] at hwritten
            omega
  have hhead : Plain [0x61] := List.forall_mem_singleton.mpr (by decide)
  exact getKey_parseParameters hlower hkept (Nat.le_of_eq (hlength.trans hn)) hhead
    (List.forall_mem_singleton.mpr (hlegal.whole_piece hmem n)) (List.forall_mem_singleton.mpr hbeside)
    (.of_eq hpieces)

/-- **A segment with a number of four digits** is not read as one. -/
theorem many_segments_lost : (manySegments 1000).Legal twoByteCharsets [0x66] [0x78] ∧
    getKey [0x66] (twoByteCharsets.parseParameters lowerTables
      ([0x61] ++ (manySegments 1000).pieces.flatMap fun piece => SEMICOLON :: piece)) ≠ some [0x78] := by
  obtain ⟨hlegal, hlost⟩ := segments_lost rfl
  refine ⟨hlegal, ?_⟩
  rw [hlost]
  exact fun heq => absurd (Option.some.inj heq) (by decide)

end OpenBrf.Mime
