import Mathlib.Algebra.Ring.Nat
import Mathlib.Data.List.Nodup

/-!
# Lang — strings and maps of the language

A `Map` is the list of its entries, in the order their keys were set.
-/

namespace OpenBrf.Lang

/-- White space and line terminators, as `String.prototype.trim` strips them. -/
def isWhiteSpace (c : Char) : Bool :=
  c.toNat ∈ [0x9, 0xA, 0xB, 0xC, 0xD, 0x20, 0xA0, 0x1680, 0x2028, 0x2029, 0x202F, 0x205F, 0x3000,
    0xFEFF] || (0x2000 ≤ c.toNat && c.toNat ≤ 0x200A)

/-- `String.prototype.trim`. -/
def trim (s : String) : String :=
  String.ofList (((s.toList.dropWhile isWhiteSpace).reverse.dropWhile isWhiteSpace).reverse)

/-- How many UTF-16 code units a code point takes. -/
def unitsOf (c : ℕ) : ℕ := if c < 0x10000 then 1 else 2

/-- `String.prototype.length` of a text, by its code points. -/
def unitLength (text : List ℕ) : ℕ := (text.map unitsOf).sum

def lengthOf (s : String) : ℕ := unitLength (s.toList.map Char.toNat)

/-- The longest beginning of at most so many code units that cuts no character in two. -/
def takeUnits : ℕ → List Char → List Char
  | _, [] => []
  | n, c :: cs => if unitsOf c.toNat ≤ n then c :: takeUnits (n - unitsOf c.toNat) cs else []

/-- `Number` of a run of digits. -/
def numberOf (digits : List Char) : ℕ :=
  digits.foldl (fun n c => 10 * n + (c.toNat - 48)) 0

/-! ### Numbers -/

def digit (n : ℕ) : Char := Char.ofNat (48 + n % 10)

/-- The last digits of a number, `String(n).padStart(k, "0")` where it has no more of them. -/
def padStart : ℕ → ℕ → List Char
  | 0, _ => []
  | k + 1, n => padStart k (n / 10) ++ [digit n]

@[simp] theorem length_padStart : ∀ k n : ℕ, (padStart k n).length = k
  | 0, _ => rfl
  | k + 1, n => by
    unfold padStart
    rw [List.length_append, length_padStart k, List.length_singleton]

theorem digit_inj {n m : ℕ} (h : digit n = digit m) : n % 10 = m % 10 := by
  have hvalid : ∀ i : ℕ, i < 10 → (Char.ofNat (48 + i)).toNat = 48 + i := by decide
  have hn := hvalid (n % 10) (Nat.mod_lt _ (by decide))
  have hm := hvalid (m % 10) (Nat.mod_lt _ (by decide))
  have heq := congrArg Char.toNat h
  unfold digit at heq
  omega

/-- Numbers of so many digits are told apart by them. -/
theorem padStart_inj : ∀ {k n m : ℕ}, n < 10 ^ k → m < 10 ^ k → padStart k n = padStart k m → n = m
  | 0, n, m, hn, hm, _ => by
    rw [Nat.pow_zero] at hn hm
    omega
  | k + 1, n, m, hn, hm, h => by
    unfold padStart at h
    obtain ⟨hinit, hlast⟩ := List.append_inj' h rfl
    have hdigit := digit_inj (List.singleton_inj.mp hlast)
    rw [Nat.pow_succ] at hn hm
    have hdiv : n / 10 = m / 10 := padStart_inj (by omega) (by omega) hinit
    omega

/-- The number of two digits. -/
theorem numberOf_pair {a b : Char} (ha : a.isDigit = true) (hb : b.isDigit = true) :
    numberOf [a, b] = 10 * (a.toNat - 48) + (b.toNat - 48) ∧ numberOf [a, b] ≤ 99 := by
  have hdigit : ∀ c : Char, c.isDigit = true → c.toNat ≤ 57 := by
    intro c hc
    unfold Char.isDigit at hc
    simp only [Bool.and_eq_true, decide_eq_true_eq] at hc
    exact hc.2
  have hle := hdigit a ha
  have hle' := hdigit b hb
  have heq : numberOf [a, b] = 10 * (10 * 0 + (a.toNat - 48)) + (b.toNat - 48) := rfl
  omega

/-! ### Maps -/

section Maps

variable {α β : Type} [DecidableEq α]

/-- `Map.prototype.set`: the key keeps its place. -/
def setKey (key : α) (value : β) : List (α × β) → List (α × β)
  | [] => [(key, value)]
  | entry :: entries =>
    if entry.1 = key then (key, value) :: entries else entry :: setKey key value entries

/-- `Map.prototype.delete`. -/
def deleteKey (key : α) (entries : List (α × β)) : List (α × β) :=
  entries.filter fun entry => entry.1 ≠ key

/-- `Map.prototype.get`. -/
def getKey (key : α) (entries : List (α × β)) : Option β :=
  (entries.find? fun entry => entry.1 = key).map (·.2)

/-- A value pushed onto the list a key has. -/
def pushKey (key : α) (value : β) (entries : List (α × List β)) : List (α × List β) :=
  setKey key ((getKey key entries).getD [] ++ [value]) entries

theorem setKey_of_absent {key : α} {value : β} :
    ∀ {entries : List (α × β)}, key ∉ entries.map (·.1) →
      setKey key value entries = entries ++ [(key, value)]
  | [], _ => rfl
  | entry :: entries, h => by
    rw [List.map_cons, List.mem_cons, not_or] at h
    unfold setKey
    rw [if_neg (Ne.symm h.1), setKey_of_absent h.2, List.cons_append]

/-- An entry that is found stands beside those it is deleted from. -/
theorem perm_deleteKey {key : α} {entry : α × β} :
    ∀ {entries : List (α × β)}, (entries.map (·.1)).Nodup →
      entries.find? (fun e => e.1 = key) = some entry →
      entries.Perm (entry :: deleteKey key entries)
  | [], _, h => by cases h
  | first :: entries, hnodup, h => by
    rw [List.map_cons, List.nodup_cons] at hnodup
    unfold deleteKey
    by_cases hkey : first.1 = key
    · rw [List.find?_cons_of_pos (by simpa using hkey)] at h
      obtain rfl := Option.some.inj h
      rw [List.filter_cons_of_neg (by simpa using hkey)]
      have hrest : entries.filter (fun e => e.1 ≠ key) = entries := by
        refine List.filter_eq_self.mpr fun e he => ?_
        rw [decide_eq_true_eq]
        rintro heq
        exact hnodup.1 (hkey ▸ heq ▸ List.mem_map_of_mem he)
      rw [hrest]
    · rw [List.find?_cons_of_neg (by simpa using hkey)] at h
      rw [List.filter_cons_of_pos (by simpa using hkey)]
      exact ((perm_deleteKey hnodup.2 h).cons first).trans (.swap entry first _)

theorem getKey_setKey (key other : α) (value : β) : ∀ entries : List (α × β),
    getKey other (setKey key value entries) =
      if other = key then some value else getKey other entries
  | [] => by
    unfold getKey setKey
    by_cases h : other = key
    · rw [if_pos h, List.find?_cons_of_pos (by simpa using h.symm)]
      rfl
    · rw [if_neg h, List.find?_cons_of_neg (by simpa using Ne.symm h)]
  | entry :: entries => by
    unfold setKey
    by_cases hkey : entry.1 = key
    · rw [if_pos hkey]
      unfold getKey
      by_cases h : other = key
      · rw [if_pos h, List.find?_cons_of_pos (by simpa using h.symm)]
        rfl
      · rw [if_neg h, List.find?_cons_of_neg (by simpa using Ne.symm h),
          List.find?_cons_of_neg (by simpa [hkey] using Ne.symm h)]
    · rw [if_neg hkey]
      have ih := getKey_setKey key other value entries
      unfold getKey at ih ⊢
      by_cases h : entry.1 = other
      · rw [List.find?_cons_of_pos (by simpa using h), List.find?_cons_of_pos (by simpa using h),
          if_neg fun heq => hkey (h.trans heq)]
      · rw [List.find?_cons_of_neg (by simpa using h), List.find?_cons_of_neg (by simpa using h)]
        exact ih

theorem mem_keys_setKey {key other : α} {value : β} : ∀ {entries : List (α × β)},
    other ∈ (setKey key value entries).map (·.1) ↔ other = key ∨ other ∈ entries.map (·.1)
  | [] => by
    unfold setKey
    rw [List.map_singleton, List.mem_singleton, List.map_nil, List.mem_nil_iff, or_false]
  | entry :: entries => by
    have ih : other ∈ (setKey key value entries).map (·.1) ↔ _ := mem_keys_setKey
    unfold setKey
    split_ifs with hkey
    · rw [List.map_cons, List.mem_cons, List.map_cons, List.mem_cons, hkey, ← or_assoc, or_self]
    · rw [List.map_cons, List.mem_cons, List.map_cons, List.mem_cons, ih, or_left_comm]

theorem nodup_keys_setKey {key : α} {value : β} : ∀ {entries : List (α × β)},
    (entries.map (·.1)).Nodup → ((setKey key value entries).map (·.1)).Nodup
  | [], _ => List.nodup_singleton _
  | entry :: entries, h => by
    rw [List.map_cons, List.nodup_cons] at h
    unfold setKey
    split_ifs with hkey
    · rw [List.map_cons, List.nodup_cons]
      exact ⟨hkey ▸ h.1, h.2⟩
    · rw [List.map_cons, List.nodup_cons]
      refine ⟨fun hmem => ?_, nodup_keys_setKey h.2⟩
      exact (mem_keys_setKey.mp hmem).elim hkey h.1

theorem mem_iff_getKey {key : α} {value : β} : ∀ {entries : List (α × β)},
    (entries.map (·.1)).Nodup → ((key, value) ∈ entries ↔ getKey key entries = some value)
  | [], _ => by
    unfold getKey
    simp
  | entry :: entries, h => by
    rw [List.map_cons, List.nodup_cons] at h
    have ih : (key, value) ∈ entries ↔ getKey key entries = some value := mem_iff_getKey h.2
    unfold getKey at ih ⊢
    rw [List.mem_cons]
    by_cases hkey : entry.1 = key
    · rw [List.find?_cons_of_pos (by simpa using hkey), Option.map_some, Option.some.injEq]
      constructor
      · rintro (rfl | hmem)
        · rfl
        · exact absurd (hkey ▸ List.mem_map_of_mem hmem) h.1
      · rintro rfl
        exact .inl (by rw [← hkey])
    · rw [List.find?_cons_of_neg (by simpa using hkey), ← ih]
      constructor
      · rintro (rfl | hmem)
        · exact absurd rfl hkey
        · exact hmem
      · exact .inr

/-- What a key has once pairs are pushed. -/
theorem getKey_foldl_pushKey (key : α) : ∀ (pairs : List (α × β)) (entries : List (α × List β)),
    (getKey key (pairs.foldl (fun entries pair => pushKey pair.1 pair.2 entries) entries)).getD [] =
      (getKey key entries).getD [] ++ (pairs.filter fun pair => pair.1 = key).map (·.2)
  | [], entries => by simp
  | pair :: pairs, entries => by
    rw [List.foldl_cons, getKey_foldl_pushKey key pairs]
    unfold pushKey
    rw [getKey_setKey]
    by_cases h : pair.1 = key
    · rw [if_pos h.symm, List.filter_cons_of_pos (by simpa using h), h, Option.getD_some,
        List.append_assoc]
      rfl
    · rw [if_neg (Ne.symm h), List.filter_cons_of_neg (by simpa using h)]

end Maps

/-! ### Sets -/

section Sets

variable {α : Type} [DecidableEq α]

/-- `Set.prototype.add`. -/
def addTo (value : α) (values : List α) : List α :=
  if value ∈ values then values else values ++ [value]

/-- The values of one collection added to a set, in order. -/
def addAll (added values : List α) : List α :=
  added.foldl (fun values value => addTo value values) values

@[simp] theorem mem_addTo {value other : α} {values : List α} :
    other ∈ addTo value values ↔ other = value ∨ other ∈ values := by
  unfold addTo
  split_ifs with h
  · constructor
    · exact .inr
    · rintro (rfl | hmem)
      · exact h
      · exact hmem
  · rw [List.mem_append, List.mem_singleton, or_comm]

@[simp] theorem mem_addAll {other : α} : ∀ {added values : List α},
    other ∈ addAll added values ↔ other ∈ added ∨ other ∈ values
  | [], values => by simp [addAll]
  | value :: added, values => by
    have ih : other ∈ addAll added (addTo value values) ↔ _ := mem_addAll
    rw [mem_addTo] at ih
    rw [List.mem_cons, or_assoc, or_left_comm]
    exact ih

theorem nodup_addTo {value : α} {values : List α} (h : values.Nodup) : (addTo value values).Nodup := by
  unfold addTo
  split_ifs with hmem
  · exact h
  · exact List.nodup_append.mpr ⟨h, List.nodup_singleton _, by
      rintro a ha b hb rfl
      exact hmem (List.mem_singleton.mp hb ▸ ha)⟩

theorem nodup_addAll : ∀ {added values : List α}, values.Nodup → (addAll added values).Nodup
  | [], _, h => h
  | value :: added, values, h => by
    show (addAll added (addTo value values)).Nodup
    exact nodup_addAll (nodup_addTo h)

end Sets

end OpenBrf.Lang
