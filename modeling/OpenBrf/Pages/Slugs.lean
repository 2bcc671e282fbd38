import Mathlib.Data.List.Chain
import Mathlib.Data.List.DropRight
import OpenBrf.Pages.PageWrite

/-!
# Pages.Slugs — a page's address from its title (`page-slug.ts`, `pages.service.ts`)

Lower case, decomposition and what is a mark are told by the platform's tables, which leave the
characters of an address alone.
-/

namespace OpenBrf.Pages

open Txn

/-- `[a-z0-9]` -/
def isSlugCharacter (c : Char) : Bool := ('a' ≤ c && c ≤ 'z') || ('0' ≤ c && c ≤ '9')

/-- A character of an address, or a hyphen of one. -/
def InSlug (c : Char) : Prop := isSlugCharacter c = true ∨ c = '-'

structure SlugTables where
  toLowerCase : String → String
  /-- `normalize("NFD")` -/
  decompose : String → String
  /-- `\p{M}` -/
  isMark : Char → Bool
  lower_slug : ∀ text : String, (∀ c ∈ text.toList, InSlug c) → toLowerCase text = text
  decompose_slug : ∀ text : String, (∀ c ∈ text.toList, InSlug c) → decompose text = text
  mark_slug : ∀ c : Char, InSlug c → isMark c = false

instance : Inhabited SlugTables :=
  ⟨⟨id, id, fun _ => false, fun _ _ => rfl, fun _ _ => rfl, fun _ _ => rfl⟩⟩

def PAGE_SLUG_FALLBACK : String := "sida"

/-- `SPELLED_OUT`, of any character. -/
def spelledOut (c : Char) : List Char :=
  match c with
  | 'æ' => ['a', 'e']
  | 'ø' => ['o']
  | 'ß' => ['s', 's']
  | 'đ' => ['d']
  | 'ł' => ['l']
  | 'þ' => ['t', 'h']
  | 'ð' => ['d']
  | c => [c]

/-- `replace(/[^a-z0-9]+/g, "-")`, inside a run or not. -/
def hyphenated : (inRun : Bool) → List Char → List Char
  | _, [] => []
  | inRun, c :: rest =>
    if isSlugCharacter c then c :: hyphenated false rest
    else if inRun then hyphenated true rest
    else '-' :: hyphenated true rest

def isHyphen (c : Char) : Bool := c = '-'

/-- A text without the hyphens it ends in. -/
def withoutTrail (text : List Char) : List Char := text.rdropWhile isHyphen

def slugFromTitle (tables : SlugTables) (title : String) : String :=
  let spelled := (tables.toLowerCase title).toList.flatMap spelledOut
  let letters := (tables.decompose (String.ofList spelled)).toList.filter fun c => !tables.isMark c
  let slug := withoutTrail ((hyphenated false letters).dropWhile isHyphen)
  let cut := withoutTrail (slug.take PAGE_SLUG_MAX_LENGTH)
  if cut = [] then PAGE_SLUG_FALLBACK else String.ofList cut

def RESERVED_SLUGS : List String :=
  ["app", "api", "health", "fonts", "setup", "nyheter", "news", "maklarinfo", "broker", "kalender",
    "calendar"]

/-- `/^[a-z0-9][a-z0-9-]{0,79}$/` -/
def isSlugShaped (slug : String) : Bool :=
  match slug.toList with
  | [] => false
  | c :: rest => isSlugCharacter c && rest.length ≤ 79 && rest.all fun d => isSlugCharacter d || isHyphen d

def isUsableSlug (slug : String) : Bool := isSlugShaped slug && slug ∉ RESERVED_SLUGS

/-- The rules with the addresses of the source. -/
def PageRules.withSlugs {β : Type} (rules : PageRules β) (tables : SlugTables) : PageRules β :=
  { rules with
    slugFromTitle := Pages.slugFromTitle tables
    isUsableSlug := Pages.isUsableSlug }

/-! ### Addresses -/

/-- `[a-z0-9]+(-[a-z0-9]+)*` -/
inductive Slug : List Char → Prop where
  | last {c : Char} : isSlugCharacter c = true → Slug [c]
  | character {c : Char} {rest : List Char} : isSlugCharacter c = true → Slug rest → Slug (c :: rest)
  | hyphen {c : Char} {rest : List Char} : isSlugCharacter c = true → Slug rest → Slug (c :: '-' :: rest)

/-- Hyphens stand alone, and nothing else but the characters of an address. -/
def Runs (text : List Char) : Prop :=
  (∀ c ∈ text, InSlug c) ∧ text.IsChain fun a b => ¬ (a = '-' ∧ b = '-')

theorem not_hyphen_of_character {c : Char} (h : isSlugCharacter c = true) : c ≠ '-' := by
  rintro rfl
  cases h

theorem Slug.ne_nil {text : List Char} (h : Slug text) : text ≠ [] := by
  cases h <;> exact List.cons_ne_nil _ _

theorem Slug.runs {text : List Char} (h : Slug text) :
    Runs text ∧ text.head? ≠ some '-' ∧ text.getLast? ≠ some '-' := by
  have hhead : ∀ {c : Char} {rest : List Char}, isSlugCharacter c = true → (c :: rest).head? ≠ some '-' :=
    fun hc heq => not_hyphen_of_character hc (Option.some.inj heq)
  induction h with
  | @last c hc =>
    refine ⟨⟨List.forall_mem_singleton.mpr (.inl hc), .singleton c⟩, hhead hc, ?_⟩
    exact fun heq => not_hyphen_of_character hc (Option.some.inj heq)
  | @character c rest hc hrest ih =>
    obtain ⟨⟨hin, hchain⟩, -, hlast⟩ := ih
    refine ⟨⟨List.forall_mem_cons.mpr ⟨.inl hc, hin⟩, ?_⟩, hhead hc, ?_⟩
    · refine List.isChain_cons.mpr ⟨fun d _ hboth => not_hyphen_of_character hc hboth.1, hchain⟩
    · rwa [List.getLast?_cons_of_ne_nil hrest.ne_nil]
  | @hyphen c rest hc hrest ih =>
    obtain ⟨⟨hin, hchain⟩, hfirst, hlast⟩ := ih
    refine ⟨⟨List.forall_mem_cons.mpr ⟨.inl hc, List.forall_mem_cons.mpr ⟨.inr rfl, hin⟩⟩, ?_⟩, hhead hc, ?_⟩
    · refine List.isChain_cons.mpr ⟨fun d _ hboth => not_hyphen_of_character hc hboth.1, ?_⟩
      refine List.isChain_cons.mpr ⟨fun d hd hboth => hfirst ?_, hchain⟩
      rw [hd, hboth.2]
    · rwa [List.getLast?_cons_of_ne_nil (List.cons_ne_nil _ _), List.getLast?_cons_of_ne_nil hrest.ne_nil]

/-- A text of runs that no hyphen begins or ends is an address. -/
theorem slug_of_runs : ∀ {text : List Char}, text ≠ [] → Runs text → text.head? ≠ some '-' →
    text.getLast? ≠ some '-' → Slug text
  | [c], _, hruns, hhead, _ => by
    refine .last ((hruns.1 c List.mem_cons_self).resolve_right ?_)
    rintro rfl
    exact hhead rfl
  | c :: d :: rest, _, hruns, hhead, hlast => by
    obtain ⟨hin, hchain⟩ := hruns
    have hc : isSlugCharacter c = true := by
      refine (hin c List.mem_cons_self).resolve_right ?_
      rintro rfl
      exact hhead rfl
    have hin' : ∀ e ∈ d :: rest, InSlug e := fun e he => hin e (List.mem_cons_of_mem _ he)
    have hchain' := (List.isChain_cons.mp hchain).2
    rw [List.getLast?_cons_of_ne_nil (List.cons_ne_nil _ _)] at hlast
    by_cases hd : d = '-'
    · subst hd
      have hrest : rest ≠ [] := by
        rintro rfl
        exact hlast rfl
      rw [List.getLast?_cons_of_ne_nil hrest] at hlast
      obtain ⟨hnext, hchain''⟩ := List.isChain_cons.mp hchain'
      refine .hyphen hc (slug_of_runs hrest ⟨fun e he => hin' e (List.mem_cons_of_mem _ he), hchain''⟩ ?_ hlast)
      exact fun heq => hnext '-' heq ⟨rfl, rfl⟩
    · refine .character hc (slug_of_runs (List.cons_ne_nil _ _) ⟨hin', hchain'⟩ ?_ hlast)
      exact fun heq => hd (Option.some.inj heq)

/-! ### Runs -/

theorem Runs.ofPart {text part : List Char} (h : Runs text) (hpart : part <:+: text) : Runs part :=
  ⟨fun c hc => h.1 c (hpart.mem hc), List.IsChain.infix h.2 hpart⟩

theorem withoutTrail_start (text : List Char) : withoutTrail text <+: text := List.rdropWhile_prefix _ _

theorem getLast?_withoutTrail (text : List Char) : (withoutTrail text).getLast? ≠ some '-' := by
  intro hlast
  have hne : withoutTrail text ≠ [] := by
    intro hnil
    rw [hnil] at hlast
    cases hlast
  have hnot := List.rdropWhile_last_not isHyphen text hne
  rw [List.getLast?_eq_some_getLast hne] at hlast
  refine hnot (decide_eq_true ?_)
  exact Option.some.inj hlast

theorem withoutTrail_eq_self {text : List Char} (h : text.getLast? ≠ some '-') : withoutTrail text = text := by
  refine List.rdropWhile_eq_self_iff.mpr fun hne hhyphen => h ?_
  rw [List.getLast?_eq_some_getLast hne]
  exact congrArg some (of_decide_eq_true hhyphen)

/-- Of runs, one hyphen at most is taken. -/
theorem withoutTrail_of_runs {text : List Char} (h : Runs text) :
    text = withoutTrail text ∨ text = withoutTrail text ++ ['-'] := by
  by_cases hlast : text.getLast? = some '-'
  · right
    obtain ⟨init, hinit⟩ : ∃ init, text = init ++ ['-'] := by
      rcases List.eq_nil_or_concat text with rfl | ⟨init, last, rfl⟩
      · cases hlast
      · rw [List.concat_eq_append, List.getLast?_concat] at hlast
        exact ⟨init, by rw [List.concat_eq_append, Option.some.inj hlast]⟩
    subst hinit
    have hbefore : init.getLast? ≠ some '-' := by
      intro hend
      obtain ⟨init', last, rfl⟩ := (List.eq_nil_or_concat init).resolve_left (by rintro rfl; cases hend)
      rw [List.concat_eq_append, List.getLast?_concat] at hend
      obtain rfl := Option.some.inj hend
      have hchain := List.IsChain.infix h.2 ⟨init', [], (by simp : init' ++ ['-', '-'] ++ [] = _)⟩
      exact (List.isChain_cons.mp hchain).1 '-' rfl ⟨rfl, rfl⟩
    have htrail : withoutTrail (init ++ ['-']) = withoutTrail init := List.rdropWhile_concat_pos _ _ _ rfl
    rw [htrail, withoutTrail_eq_self hbefore]
  · left
    exact (withoutTrail_eq_self hlast).symm

theorem runs_hyphenated : ∀ (text : List Char) (inRun : Bool), Runs (hyphenated inRun text) ∧
    (inRun = true → (hyphenated inRun text).head? ≠ some '-')
  | [], inRun => ⟨⟨nofun, .nil⟩, fun _ => nofun⟩
  | c :: text, inRun => by
    unfold hyphenated
    by_cases hc : isSlugCharacter c = true
    · rw [if_pos hc]
      obtain ⟨⟨hin, hchain⟩, -⟩ := runs_hyphenated text false
      refine ⟨⟨List.forall_mem_cons.mpr ⟨.inl hc, hin⟩, ?_⟩, fun _ heq => ?_⟩
      · exact List.isChain_cons.mpr ⟨fun d _ hboth => not_hyphen_of_character hc hboth.1, hchain⟩
      · exact not_hyphen_of_character hc (Option.some.inj heq)
    · rw [if_neg hc]
      obtain ⟨⟨hin, hchain⟩, hhead⟩ := runs_hyphenated text true
      cases inRun with
      | true => exact ⟨⟨hin, hchain⟩, hhead⟩
      | false =>
        rw [if_neg Bool.false_ne_true]
        refine ⟨⟨List.forall_mem_cons.mpr ⟨.inr rfl, hin⟩, ?_⟩, nofun⟩
        exact List.isChain_cons.mpr ⟨fun d hd hboth => hhead rfl (hd.trans (congrArg some hboth.2)), hchain⟩

theorem hyphenated_character {c : Char} (hc : isSlugCharacter c = true) (inRun : Bool) (rest : List Char) :
    hyphenated inRun (c :: rest) = c :: hyphenated false rest := by
  rw [hyphenated, if_pos hc]

theorem hyphenated_slug {text : List Char} (h : Slug text) (inRun : Bool) : hyphenated inRun text = text := by
  induction h generalizing inRun with
  | last hc =>
    rw [hyphenated_character hc]
    rfl
  | character hc _ ih => rw [hyphenated_character hc, ih]
  | hyphen hc _ ih =>
    rw [hyphenated_character hc, hyphenated, if_neg (by decide), if_neg Bool.false_ne_true, ih]

theorem withoutMarks_slug (tables : SlugTables) {text : List Char} (h : ∀ c ∈ text, InSlug c) :
    text.filter (fun c => !tables.isMark c) = text := by
  refine List.filter_eq_self.mpr fun c hc => ?_
  rw [tables.mark_slug c (h c hc)]
  rfl

theorem spelledOut_slug {text : List Char} (h : ∀ c ∈ text, InSlug c) : text.flatMap spelledOut = text := by
  have hself : ∀ c, InSlug c → spelledOut c = [c] := by
    intro c hc
    unfold spelledOut
    split
    all_goals first
      | rfl
      | exact absurd hc (by unfold InSlug isSlugCharacter; decide)
  induction text with
  | nil => rfl
  | cons c text ih =>
    rw [List.flatMap_cons, hself c (h c List.mem_cons_self),
      ih fun d hd => h d (List.mem_cons_of_mem _ hd), List.singleton_append]

/-! ### The address of a title -/

/-- An address cut to a length, without the hyphen the cut leaves. -/
theorem slug_cut {text : List Char} (h : Slug text) {length : ℕ} (hlength : 0 < length) :
    Slug (withoutTrail (text.take length)) := by
  obtain ⟨hruns, hhead, -⟩ := h.runs
  have htake : Runs (text.take length) := hruns.ofPart (List.take_prefix _ _).isInfix
  obtain ⟨c, text, rfl⟩ := List.exists_cons_of_ne_nil h.ne_nil
  obtain ⟨length, rfl⟩ := Nat.exists_eq_succ_of_ne_zero (Nat.ne_of_gt hlength)
  have hfirst : ∀ {rest : List Char}, (c :: rest).head? ≠ some '-' := hhead
  rw [List.take_succ_cons] at htake ⊢
  have hpart := withoutTrail_start (c :: text.take length)
  have hne : withoutTrail (c :: text.take length) ≠ [] := by
    intro hnil
    rcases withoutTrail_of_runs htake with heq | heq
    · rw [hnil] at heq
      cases heq
    · rw [hnil] at heq
      obtain ⟨rfl, -⟩ := List.cons.inj heq
      exact hhead rfl
  refine slug_of_runs hne (htake.ofPart hpart.isInfix) ?_ (getLast?_withoutTrail _)
  obtain ⟨d, rest, hcons⟩ := List.exists_cons_of_ne_nil hne
  rw [hcons] at hpart ⊢
  obtain ⟨rfl, -⟩ := List.cons_prefix_cons.mp hpart
  exact hfirst

theorem slug_fallback : Slug PAGE_SLUG_FALLBACK.toList :=
  .character rfl (.character rfl (.character rfl (.last rfl)))

theorem slugFromTitle_spec (tables : SlugTables) (title : String) :
    Slug (slugFromTitle tables title).toList ∧
      (slugFromTitle tables title).toList.length ≤ PAGE_SLUG_MAX_LENGTH := by
  unfold slugFromTitle
  dsimp only
  generalize (tables.decompose (String.ofList ((tables.toLowerCase title).toList.flatMap spelledOut))).toList.filter
    (fun c => !tables.isMark c) = letters
  have hruns := (runs_hyphenated letters false).1
  generalize hyphenated false letters = text at hruns
  by_cases hcut : withoutTrail ((withoutTrail (text.dropWhile isHyphen)).take PAGE_SLUG_MAX_LENGTH) = []
  · rw [if_pos hcut]
    exact ⟨slug_fallback, by decide⟩
  · rw [if_neg hcut, String.toList_ofList]
    have hne : withoutTrail (text.dropWhile isHyphen) ≠ [] := by
      intro hnil
      rw [hnil] at hcut
      exact hcut rfl
    have hslug : Slug (withoutTrail (text.dropWhile isHyphen)) := by
      have hpart := withoutTrail_start (text.dropWhile isHyphen)
      refine slug_of_runs hne
        (hruns.ofPart (hpart.isInfix.trans (List.dropWhile_suffix _).isInfix)) ?_ (getLast?_withoutTrail _)
      obtain ⟨d, rest, hcons⟩ := List.exists_cons_of_ne_nil hne
      rw [hcons] at hpart ⊢
      obtain ⟨after, hafter⟩ := hpart
      have hnot := List.head?_dropWhile_not isHyphen text
      rw [← hafter] at hnot
      intro heq
      rw [Option.some.inj heq] at hnot
      cases hnot
    refine ⟨slug_cut hslug (by decide), ?_⟩
    exact (withoutTrail_start _).length_le.trans (List.length_take_le _ _)

theorem slugFromTitle_slug (tables : SlugTables) {slug : String} (h : Slug slug.toList)
    (hlength : slug.toList.length ≤ PAGE_SLUG_MAX_LENGTH) : slugFromTitle tables slug = slug := by
  obtain ⟨⟨hin, -⟩, hhead, hlast⟩ := h.runs
  have hdrop : slug.toList.dropWhile isHyphen = slug.toList := by
    obtain ⟨c, rest, hcons⟩ := List.exists_cons_of_ne_nil h.ne_nil
    rw [hcons] at hhead ⊢
    refine List.dropWhile_cons_of_neg fun hc => hhead ?_
    rw [of_decide_eq_true hc]
    rfl
  unfold slugFromTitle
  dsimp only
  rw [tables.lower_slug slug hin, spelledOut_slug hin, String.ofList_toList, tables.decompose_slug slug hin,
    withoutMarks_slug tables hin, hyphenated_slug h false, hdrop, withoutTrail_eq_self hlast,
    List.take_of_length_le hlength, withoutTrail_eq_self hlast, if_neg h.ne_nil, String.ofList_toList]

/-! ### Numbered addresses -/

def suffixOf (n : ℕ) : List Char := '-' :: Nat.toDigits 10 n

/-- How much of an address is kept in front of a number. -/
def roomFor (n : ℕ) : ℕ := PAGE_SLUG_MAX_LENGTH - (suffixOf n).length

theorem toList_numberedSlug {n : ℕ} (hn : 1 < n) (slug : String) : (numberedSlug slug n).toList =
    withoutTrail (slug.toList.take (roomFor n)) ++ suffixOf n := by
  have hsuffix : ("-" ++ toString n).toList = suffixOf n := by
    rw [String.toList_append, Nat.toString_eq_repr, Nat.toList_repr]
    rfl
  have hlength : ("-" ++ toString n).length = (suffixOf n).length := by
    rw [← hsuffix, String.length_toList]
  unfold numberedSlug
  rw [if_neg (by omega)]
  dsimp only
  rw [String.toList_append, String.toList_ofList, hsuffix, hlength]
  rfl

theorem numberedSlug_one {n : ℕ} (hn : n ≤ 1) (slug : String) : numberedSlug slug n = slug := by
  unfold numberedSlug
  exact if_pos hn

theorem digit_of_suffix {c : Char} {n : ℕ} (h : c ∈ Nat.toDigits 10 n) : isSlugCharacter c = true := by
  have hdigit := Nat.isDigit_of_mem_toDigits (by decide) (by decide) h
  unfold Char.isDigit at hdigit
  unfold isSlugCharacter
  rw [Bool.or_eq_true]
  right
  simpa [Char.le_def] using hdigit

theorem length_suffixOf {n : ℕ} (hn : n ≤ SLUG_NUMBERS) : (suffixOf n).length ≤ 5 := by
  have hlt : n < 10 ^ 4 := by
    unfold SLUG_NUMBERS at hn
    omega
  have hdigits := (Nat.length_toDigits_le_iff (by decide) (by decide)).mpr hlt
  exact Nat.succ_le_succ hdigits

/-- Words of an address behind a number. -/
theorem Slug.append {text digits : List Char} (h : Slug text) (hne : digits ≠ [])
    (hdigits : ∀ c ∈ digits, isSlugCharacter c = true) : Slug (text ++ '-' :: digits) := by
  have hslug : Slug digits := by
    induction digits with
    | nil => exact absurd rfl hne
    | cons c digits ih =>
      obtain ⟨hc, hrest⟩ := List.forall_mem_cons.mp hdigits
      cases digits with
      | nil => exact .last hc
      | cons d digits => exact .character hc (ih (List.cons_ne_nil _ _) hrest)
  induction h with
  | last hc => exact .hyphen hc hslug
  | character hc _ ih => exact .character hc ih
  | hyphen hc _ ih => exact .hyphen hc ih

theorem numberedSlug_spec {slug : String} (h : Slug slug.toList)
    (hlength : slug.toList.length ≤ PAGE_SLUG_MAX_LENGTH) {n : ℕ} (hn : n ≤ SLUG_NUMBERS) :
    Slug (numberedSlug slug n).toList ∧ (numberedSlug slug n).toList.length ≤ PAGE_SLUG_MAX_LENGTH := by
  rcases Nat.lt_or_ge 1 n with hn1 | hn1
  · have hsuffix := length_suffixOf hn
    have hroom : 0 < roomFor n := by
      unfold roomFor PAGE_SLUG_MAX_LENGTH
      omega
    rw [toList_numberedSlug hn1]
    refine ⟨(slug_cut h hroom).append Nat.toDigits_ne_nil fun c => digit_of_suffix, ?_⟩
    have hcut := (withoutTrail_start (slug.toList.take (roomFor n))).length_le.trans (List.length_take_le _ _)
    unfold roomFor PAGE_SLUG_MAX_LENGTH at *
    rw [List.length_append]
    omega
  · rw [numberedSlug_one hn1]
    exact ⟨h, hlength⟩

/-- What `freeSlugFor` reads other pages by. -/
def stemOf (slug : String) : List Char := slug.toList.take (PAGE_SLUG_MAX_LENGTH - "-1000".length)

/-- **Every candidate** starts with what other pages are read by: where a cut leaves a hyphen, the
number brings it back. -/
theorem stem_prefix {slug : String} (h : Slug slug.toList) {n : ℕ} (hn : n ≤ SLUG_NUMBERS) :
    stemOf slug <+: (numberedSlug slug n).toList := by
  rcases Nat.lt_or_ge 1 n with hn1 | hn1
  · have hroom : PAGE_SLUG_MAX_LENGTH - "-1000".length ≤ roomFor n := by
      have hsuffix := length_suffixOf hn
      have hfive : "-1000".length = 5 := by decide
      unfold roomFor PAGE_SLUG_MAX_LENGTH
      omega
    have hkept : stemOf slug <+: slug.toList.take (roomFor n) := List.take_prefix_take_left hroom
    have htake : Runs (slug.toList.take (roomFor n)) := h.runs.1.ofPart (List.take_prefix _ _).isInfix
    rw [toList_numberedSlug hn1]
    rcases withoutTrail_of_runs htake with heq | heq
    · rw [← heq]
      exact hkept.trans (List.prefix_append _ _)
    · have hback : withoutTrail (slug.toList.take (roomFor n)) ++ suffixOf n =
          slug.toList.take (roomFor n) ++ Nat.toDigits 10 n := by
        conv_rhs => rw [heq]
        unfold suffixOf
        rw [List.append_assoc, List.singleton_append]
      rw [hback]
      exact hkept.trans (List.prefix_append _ _)
  · rw [numberedSlug_one hn1]
    exact List.take_prefix _ _

theorem numberedSlug_inj {slug : String} {n m : ℕ} (hn : 1 < n) (hm : 1 < m)
    (h : numberedSlug slug n = numberedSlug slug m) : n = m := by
  have hlists := congrArg String.toList h
  rw [toList_numberedSlug hn, toList_numberedSlug hm] at hlists
  have hnone : ∀ k, '-' ∉ Nat.toDigits 10 k := fun k hmem => by
    have hdigit := digit_of_suffix hmem
    cases hdigit
  -- the last hyphen is in front of the number
  have hdigits : Nat.toDigits 10 n = Nat.toDigits 10 m := by
    unfold suffixOf at hlists
    rcases List.append_eq_append_iff.mp hlists with ⟨between, -, hbetween⟩ | ⟨between, -, hbetween⟩
    · cases between with
      | nil => exact (List.cons.inj hbetween).2
      | cons d between =>
        obtain ⟨rfl, htail⟩ := List.cons.inj hbetween
        exact absurd (htail ▸ List.mem_append_right _ List.mem_cons_self) (hnone n)
    · cases between with
      | nil => exact (List.cons.inj hbetween).2.symm
      | cons d between =>
        obtain ⟨rfl, htail⟩ := List.cons.inj hbetween
        exact absurd (htail ▸ List.mem_append_right _ List.mem_cons_self) (hnone m)
  have hvalue : ∀ k, Nat.ofDigitChars 10 (Nat.toDigits 10 k) 0 = k := fun k => by simp
  rw [← hvalue n, hdigits, hvalue]

/-! ### The free address -/

variable {β : Type}

/-- What is answered of the addresses a title gives: one that is usable and no other page's, or a
refusal where there is none. -/
structure Answers (base : String) (pages : List (Page β)) (exceptPageId : Option String)
    (answer : Except PageFailure String) : Prop where
  found : ∀ slug, answer = .ok slug → isUsableSlug slug = true ∧
    (∃ n, 1 ≤ n ∧ n ≤ SLUG_NUMBERS ∧ slug = numberedSlug base n) ∧
    ∀ page ∈ pages, some page.id ≠ exceptPageId → page.slug ≠ slug
  refused : ∀ e, answer = .error e →
    e = pageError "Every address the title gives is already a page." .slugTaken ∧
    ∀ n, 1 ≤ n → n ≤ SLUG_NUMBERS → isUsableSlug (numberedSlug base n) = false ∨
      ∃ page ∈ pages, some page.id ≠ exceptPageId ∧ page.slug = numberedSlug base n

section Candidates

variable {free : String → Bool} {base : String} {count : ℕ}

theorem numbered_of_find? {slug : String}
    (h : ((List.range count).map fun n => numberedSlug base (n + 1)).find? free = some slug) :
    free slug = true ∧ ∃ n, 1 ≤ n ∧ n ≤ count ∧ slug = numberedSlug base n := by
  obtain ⟨n, hn, rfl⟩ := List.mem_map.mp (List.mem_of_find?_eq_some h)
  have hlt := List.mem_range.mp hn
  exact ⟨List.find?_some h, n + 1, by omega, by omega, rfl⟩

theorem not_free_of_find? (h : ((List.range count).map fun n => numberedSlug base (n + 1)).find? free = none)
    {n : ℕ} (hn : 1 ≤ n) (hle : n ≤ count) : ¬ free (numberedSlug base n) = true :=
  List.find?_eq_none.mp h (numberedSlug base n)
    (List.mem_map.mpr ⟨n - 1, List.mem_range.mpr (by omega), by rw [Nat.sub_add_cancel hn]⟩)

end Candidates

/-- **Other pages** are read by what every candidate starts with. -/
theorem answers_freeSlugFor (rules : PageRules β) (tables : SlugTables) (title : String)
    (exceptPageId : Option String) (w : World (PageStore β) String) :
    Answers (slugFromTitle tables title) w.working.pages exceptPageId
      (exec (freeSlugFor (rules.withSlugs tables) title exceptPageId) w).1 := by
  have hslug := (slugFromTitle_spec tables title).1
  obtain ⟨count, hcount⟩ : ∃ count, SLUG_NUMBERS = count := ⟨_, rfl⟩
  unfold freeSlugFor
  rw [hcount]
  dsimp only [PageRules.withSlugs]
  rw [exec_bind, exec_snapshot]
  dsimp only
  generalize slugFromTitle tables title = base at hslug ⊢
  -- a page in the way of a candidate is one that was read
  have hread : ∀ n, n ≤ SLUG_NUMBERS → ∀ page ∈ w.working.pages, some page.id ≠ exceptPageId →
      page.slug = numberedSlug base n → numberedSlug base n ∈ (w.working.pages.filter fun page =>
        page.slug.startsWith (String.ofList (stemOf base)) ∧ some page.id ≠ exceptPageId).map (·.slug) := by
    intro n hn page hpage hother hat'
    refine List.mem_map.mpr ⟨page, List.mem_filter.mpr ⟨hpage, decide_eq_true ⟨?_, hother⟩⟩, hat'⟩
    rw [String.startsWith_string_iff, String.toList_ofList, hat']
    exact stem_prefix hslug hn
  unfold stemOf at hread
  split
  · rename_i hfound
    constructor
    · exact fun slug heq => (nomatch (heq : Except.error _ = Except.ok _))
    · intro e heq
      refine ⟨(Except.error.inj heq).symm, fun n hn hle => ?_⟩
      have hheld := not_free_of_find? hfound hn (hcount ▸ hle)
      by_cases husable : isUsableSlug (numberedSlug base n) = true
      · right
        have hmem := not_not.mp fun hnot => hheld (decide_eq_true ⟨husable, hnot⟩)
        obtain ⟨page, hpage, hat'⟩ := List.mem_map.mp hmem
        obtain ⟨hpage, hcond⟩ := List.mem_filter.mp hpage
        exact ⟨page, hpage, (of_decide_eq_true hcond).2, hat'⟩
      · left
        exact Bool.eq_false_iff.mpr husable
  · rename_i slug hfound
    obtain ⟨hfree, n, hn, hle, rfl⟩ := numbered_of_find? hfound
    obtain ⟨husable, hfree⟩ := of_decide_eq_true hfree
    constructor
    · intro slug heq
      obtain rfl : numberedSlug base n = slug := Except.ok.inj heq
      refine ⟨husable, ⟨n, hn, hcount ▸ hle, rfl⟩, fun page hpage hother hat' => hfree ?_⟩
      exact hread n (hcount ▸ hle) page hpage hother hat'
    · exact fun e heq => (nomatch (heq : Except.ok _ = Except.error _))

/-- **The address of a title**: its shape, the numbered ones and what is answered of them. -/
theorem slugs_of_title (rules : PageRules β) (tables : SlugTables) (title : String)
    (exceptPageId : Option String) (w : World (PageStore β) String) :
    (Slug (slugFromTitle tables title).toList ∧
      1 ≤ (slugFromTitle tables title).toList.length ∧
      (slugFromTitle tables title).toList.length ≤ PAGE_SLUG_MAX_LENGTH ∧
      slugFromTitle tables (slugFromTitle tables title) = slugFromTitle tables title) ∧
    (∀ n, 1 ≤ n → n ≤ SLUG_NUMBERS → Slug (numberedSlug (slugFromTitle tables title) n).toList ∧
      (numberedSlug (slugFromTitle tables title) n).toList.length ≤ PAGE_SLUG_MAX_LENGTH ∧
      stemOf (slugFromTitle tables title) <+: (numberedSlug (slugFromTitle tables title) n).toList) ∧
    (∀ n m, 2 ≤ n → 2 ≤ m →
      numberedSlug (slugFromTitle tables title) n = numberedSlug (slugFromTitle tables title) m → n = m) ∧
    Answers (slugFromTitle tables title) w.working.pages exceptPageId
      (exec (freeSlugFor (rules.withSlugs tables) title exceptPageId) w).1 := by
  have hslug := (slugFromTitle_spec tables title).1
  have hlength := (slugFromTitle_spec tables title).2
  refine ⟨⟨hslug, List.length_pos_of_ne_nil hslug.ne_nil, hlength, slugFromTitle_slug tables hslug hlength⟩,
    ?_, ?_, answers_freeSlugFor rules tables title exceptPageId w⟩
  · intro n _ hn
    obtain ⟨hshape, hle⟩ := numberedSlug_spec hslug hlength hn
    exact ⟨hshape, hle, stem_prefix hslug hn⟩
  · intro n m hn hm heq
    exact numberedSlug_inj hn hm heq

end OpenBrf.Pages
