import Mathlib.Algebra.Order.Group.Int
import OpenBrf.Async.Process

/-!
# Async.Rights — a program logic for rights that outlive a statement

A process may take a right nobody has taken before it: a row it is the one to claim, a token it
is the one to draw.  From then on everybody else leaves what the right covers as it is, though no
lock is held.  `Safe` follows one program, the rights it has taken and the last moment it saw the
store.  When every program that may be started is safe, every configuration reached satisfies the
invariant, whatever the interleaving.
-/

namespace Async

variable {σ ρ ι ε α β : Type}

/-- The clock and the store. -/
abbrev Moment (σ : Type) := Int × σ

/-- What the statements of a system keep. -/
structure Discipline (σ ρ : Type) where
  /-- Holds at every moment. -/
  inv : Int → σ → Prop
  /-- Nobody has taken the right. -/
  free : ρ → σ → Prop
  /-- What every statement keeps. -/
  always : Moment σ → Moment σ → Prop
  /-- What every statement keeps but those of the process that has the right. -/
  keeps : ρ → Moment σ → Moment σ → Prop
  /-- Holds of every statement. -/
  allowed : Moment σ → Moment σ → Prop
  inv_tick : ∀ {t t' s}, t ≤ t' → inv t s → inv t' s
  always_tick : ∀ {t t' s}, t ≤ t' → always (t, s) (t', s)
  keeps_tick : ∀ {r t t' s}, t ≤ t' → keeps r (t, s) (t', s)
  allowed_refl : ∀ m, allowed m m
  always_trans : ∀ {m₁ m₂ m₃}, m₁.1 ≤ m₂.1 → m₂.1 ≤ m₃.1 → always m₁ m₂ → always m₂ m₃ →
    always m₁ m₃
  keeps_trans : ∀ {r m₁ m₂ m₃}, m₁.1 ≤ m₂.1 → m₂.1 ≤ m₃.1 → keeps r m₁ m₂ → keeps r m₂ m₃ →
    keeps r m₁ m₃
  /-- A right that was taken is never free again. -/
  free_of_always : ∀ {r m m'}, always m m' → free r m'.2 → free r m.2

namespace Discipline

variable (D : Discipline σ ρ)

/-- What a process with rights `h` may rely on between two moments. -/
structure Rely (h : ρ → Prop) (m m' : Moment σ) : Prop where
  le : m.1 ≤ m'.1
  always : D.always m m'
  keeps : ∀ r, h r → D.keeps r m m'

/-- What a statement owes: `h` are the rights before it, `h'` those after it. -/
structure Commits (h h' : ρ → Prop) (m m' : Moment σ) : Prop where
  inv : D.inv m'.1 m'.2
  always : D.always m m'
  keeps : ∀ r, ¬ h' r → D.keeps r m m'
  allowed : D.allowed m m'
  taken : ∀ r, h' r → h r ∨ D.free r m.2 ∧ ¬ D.free r m'.2

variable {D}

theorem Rely.refl (h : ρ → Prop) (m : Moment σ) : D.Rely h m m :=
  ⟨le_rfl, D.always_tick le_rfl, fun _ _ => D.keeps_tick le_rfl⟩

theorem Rely.trans {h : ρ → Prop} {m₁ m₂ m₃ : Moment σ} (h₁ : D.Rely h m₁ m₂)
    (h₂ : D.Rely h m₂ m₃) : D.Rely h m₁ m₃ :=
  ⟨le_trans h₁.le h₂.le, D.always_trans h₁.le h₂.le h₁.always h₂.always,
    fun r hr => D.keeps_trans h₁.le h₂.le (h₁.keeps r hr) (h₂.keeps r hr)⟩

theorem Rely.tick (h : ρ → Prop) {t t' : Int} (ht : t ≤ t') (s : σ) : D.Rely h (t, s) (t', s) :=
  ⟨ht, D.always_tick ht, fun _ _ => D.keeps_tick ht⟩

/-- A statement that leaves the store as it is. -/
theorem Commits.refl {h : ρ → Prop} {m : Moment σ} (hinv : D.inv m.1 m.2) : D.Commits h h m m :=
  ⟨hinv, D.always_tick le_rfl, fun _ _ => D.keeps_tick le_rfl, D.allowed_refl m, fun _ => .inl⟩

end Discipline

/-! ### Safe programs -/

section Safe

variable (D : Discipline σ ρ)

/-- A program with the rights `h` that last saw the store at `m`: every statement keeps what it
owes, and `Q` holds where it ends. -/
def Safe : Prog σ ι ε α → (Except ε α → (ρ → Prop) → Moment σ → Prop) → (ρ → Prop) →
    Moment σ → Prop
  | .ret a, Q, h, m => Q (.ok a) h m
  | .throw e, Q, h, m => Q (.error e) h m
  | .step may next k, Q, h, m => ∀ t s i, D.Rely h m (t, s) → D.inv t s → may t s i →
      ∃ h', D.Commits h h' (t, s) (t, next t s i) ∧ Safe (k t s i) Q h' (t, next t s i)

/-- A program that is safe whenever it is started. -/
def SafeCall (p : Prog σ ι ε Unit) : Prop :=
  ∀ t s, D.inv t s → Safe D p (fun _ _ _ => True) (fun _ => False) (t, s)

variable {D} {h : ρ → Prop} {m : Moment σ}

theorem Safe.mono {Q R : Except ε α → (ρ → Prop) → Moment σ → Prop}
    (hQR : ∀ a h m, Q a h m → R a h m) :
    ∀ {p : Prog σ ι ε α} {h : ρ → Prop} {m : Moment σ}, Safe D p Q h m → Safe D p R h m
  | .ret _, _, _, hp => hQR _ _ _ hp
  | .throw _, _, _, hp => hQR _ _ _ hp
  | .step _ _ _, _, _, hp => by
    intro t s i hrely hinv hmay
    obtain ⟨h', hc, hk⟩ := hp t s i hrely hinv hmay
    exact ⟨h', hc, Safe.mono hQR hk⟩

/-- The clock does not go back. -/
theorem Safe.since {Q : Except ε α → (ρ → Prop) → Moment σ → Prop} {t₀ : Int} :
    ∀ {p : Prog σ ι ε α} {h : ρ → Prop} {m : Moment σ}, Safe D p Q h m → t₀ ≤ m.1 →
      Safe D p (fun a h m' => t₀ ≤ m'.1 ∧ Q a h m') h m
  | .ret _, _, _, hp, ht => ⟨ht, hp⟩
  | .throw _, _, _, hp, ht => ⟨ht, hp⟩
  | .step _ _ _, _, _, hp, ht => by
    intro t s i hrely hinv hmay
    obtain ⟨h', hc, hk⟩ := hp t s i hrely hinv hmay
    exact ⟨h', hc, Safe.since hk (le_trans ht hrely.le)⟩

/-- **Sequencing.**  A failure skips the rest. -/
theorem safe_bind {g : α → Prog σ ι ε β} {Q : Except ε β → (ρ → Prop) → Moment σ → Prop} :
    ∀ {p : Prog σ ι ε α} {h : ρ → Prop} {m : Moment σ},
      Safe D p (fun a h m => match a with
        | .ok a => Safe D (g a) Q h m
        | .error e => Q (.error e) h m) h m → Safe D (p >>= g) Q h m
  | .ret _, _, _, hp => hp
  | .throw _, _, _, hp => hp
  | .step _ _ _, _, _, hp => by
    intro t s i hrely hinv hmay
    obtain ⟨h', hc, hk⟩ := hp t s i hrely hinv hmay
    exact ⟨h', hc, safe_bind hk⟩

/-- A failure kept as a value is where the program ends. -/
theorem safe_catching {Q : Except ε (Except ε α) → (ρ → Prop) → Moment σ → Prop} :
    ∀ {p : Prog σ ι ε α} {h : ρ → Prop} {m : Moment σ},
      Safe D p (fun a h m => Q (.ok a) h m) h m → Safe D p.catching Q h m
  | .ret _, _, _, hp => hp
  | .throw _, _, _, hp => hp
  | .step _ _ _, _, _, hp => by
    intro t s i hrely hinv hmay
    obtain ⟨h', hc, hk⟩ := hp t s i hrely hinv hmay
    exact ⟨h', hc, safe_catching hk⟩

theorem safe_pure {a : α} {Q : Except ε α → (ρ → Prop) → Moment σ → Prop} :
    Safe D (pure a : Prog σ ι ε α) Q h m ↔ Q (.ok a) h m := Iff.rfl

theorem safe_fail {e : ε} {Q : Except ε α → (ρ → Prop) → Moment σ → Prop} :
    Safe D (fail e : Prog σ ι ε α) Q h m ↔ Q (.error e) h m := Iff.rfl

theorem safe_atomic {f : Int → σ → β × σ} {Q : Except ε β → (ρ → Prop) → Moment σ → Prop}
    (hf : ∀ t s, D.Rely h m (t, s) → D.inv t s →
      ∃ h', D.Commits h h' (t, s) (t, (f t s).2) ∧ Q (.ok (f t s).1) h' (t, (f t s).2)) :
    Safe D (atomic f : Prog σ ι ε β) Q h m :=
  fun t s _ hrely hinv _ => hf t s hrely hinv

theorem safe_update {f : σ → σ} {Q : Except ε Unit → (ρ → Prop) → Moment σ → Prop}
    (hf : ∀ t s, D.Rely h m (t, s) → D.inv t s →
      ∃ h', D.Commits h h' (t, s) (t, f s) ∧ Q (.ok ()) h' (t, f s)) :
    Safe D (update f : Prog σ ι ε Unit) Q h m :=
  fun t s _ hrely hinv _ => hf t s hrely hinv

theorem safe_clock {Q : Except ε Int → (ρ → Prop) → Moment σ → Prop}
    (hf : ∀ t s, D.Rely h m (t, s) → Q (.ok t) h (t, s)) : Safe D (clock : Prog σ ι ε Int) Q h m :=
  safe_atomic fun t s hrely hinv => ⟨h, .refl hinv, hf t s hrely⟩

/-- A statement that fails before it commits, or whose answer is lost. -/
theorem safe_transacted {enabled : Int → Prop} {delivery : ι → Delivery} {e : ε}
    {f : Int → σ → β × σ} {Q : Except ε β → (ρ → Prop) → Moment σ → Prop}
    (hrefused : ∀ t s, D.Rely h m (t, s) → D.inv t s → Q (.error e) h (t, s))
    (hf : ∀ t s, D.Rely h m (t, s) → D.inv t s → enabled t →
      ∃ h', D.Commits h h' (t, s) (t, (f t s).2) ∧ Q (.ok (f t s).1) h' (t, (f t s).2) ∧
        Q (.error e) h' (t, (f t s).2)) :
    Safe D (transacted enabled delivery e f) Q h m := by
  intro t s i hrely hinv henabled
  dsimp only
  by_cases hfail : delivery i = .refused
  · refine ⟨h, ?_, ?_⟩
    · rw [if_pos hfail]
      exact .refl hinv
    · rw [if_pos hfail, if_neg (by rw [hfail]; nofun)]
      exact hrefused t s hrely hinv
  · obtain ⟨h', hcommits, hok, herror⟩ := hf t s hrely hinv henabled
    refine ⟨h', ?_, ?_⟩
    · rw [if_neg hfail]
      exact hcommits
    · rw [if_neg hfail]
      split_ifs
      · exact hok
      · exact herror

/-! A statement and what follows it. -/

variable {Q : Except ε β → (ρ → Prop) → Moment σ → Prop}

theorem safe_atomic_bind {f : Int → σ → α × σ} {g : α → Prog σ ι ε β}
    (hf : ∀ t s, D.Rely h m (t, s) → D.inv t s → ∃ h', D.Commits h h' (t, s) (t, (f t s).2) ∧
      Safe D (g (f t s).1) Q h' (t, (f t s).2)) :
    Safe D (atomic f >>= g) Q h m :=
  fun t s _ hrely hinv _ => hf t s hrely hinv

theorem safe_ask_bind {may : Int → σ → ι → Prop} {f : Int → σ → ι → σ} {g : ι → Prog σ ι ε β}
    (hf : ∀ t s i, D.Rely h m (t, s) → D.inv t s → may t s i →
      ∃ h', D.Commits h h' (t, s) (t, f t s i) ∧ Safe D (g i) Q h' (t, f t s i)) :
    Safe D (ask may f >>= g) Q h m :=
  hf

theorem safe_look_bind {g : σ → Prog σ ι ε β}
    (hf : ∀ t s, D.Rely h m (t, s) → D.inv t s → Safe D (g s) Q h (t, s)) :
    Safe D (look >>= g) Q h m :=
  fun t s _ hrely hinv _ => ⟨h, .refl hinv, hf t s hrely hinv⟩

theorem safe_update_bind {f : σ → σ} {g : Unit → Prog σ ι ε β}
    (hf : ∀ t s, D.Rely h m (t, s) → D.inv t s →
      ∃ h', D.Commits h h' (t, s) (t, f s) ∧ Safe D (g ()) Q h' (t, f s)) :
    Safe D (update f >>= g) Q h m :=
  fun t s _ hrely hinv _ => hf t s hrely hinv

end Safe

/-! ### Soundness -/

section Sound

variable {D : Discipline σ ρ} {calls : Prog σ ι ε Unit → Prop}

/-- The configurations of a safe system: the invariant holds, no two processes have taken one
right, none of which is free, and every process is safe. -/
structure Valid (D : Discipline σ ρ) (c : Config σ ι ε) (rights : ℕ → ρ → Prop) : Prop where
  inv : D.inv c.clock c.store
  apart : ∀ i j r, rights i r → rights j r → i = j
  taken : ∀ i r, rights i r → ¬ D.free r c.store
  safe : ∀ i, ∀ p ∈ c.processes i, ∃ m, D.Rely (rights i) m (c.clock, c.store) ∧
    Safe D p (fun _ _ _ => True) (rights i) m

theorem valid_quiet {s : σ} {t : Int} (hinv : D.inv t s) :
    Valid D (Config.quiet s t : Config σ ι ε) fun _ _ => False := by
  refine ⟨hinv, ?_, ?_, ?_⟩
  · intro i j r hi
    cases hi
  · intro i r hi
    cases hi
  · intro i p hp
    cases hp

/-- The rights once process `i` has `h`. -/
def grant (rights : ℕ → ρ → Prop) (i : ℕ) (h : ρ → Prop) : ℕ → ρ → Prop :=
  Function.update rights i h

@[simp] theorem grant_self (rights : ℕ → ρ → Prop) (i : ℕ) (h : ρ → Prop) :
    grant rights i h i = h := Function.update_self ..

theorem grant_of_ne (rights : ℕ → ρ → Prop) {i j : ℕ} (hj : j ≠ i) (h : ρ → Prop) :
    grant rights i h j = rights j := Function.update_of_ne hj ..

/-- A process with no right left is started, stopped or gone. -/
theorem Valid.set_empty {c : Config σ ι ε} {rights : ℕ → ρ → Prop} (hv : Valid D c rights)
    {i : ℕ} {q : Option (Prog σ ι ε Unit)}
    (hq : ∀ p ∈ q, Safe D p (fun _ _ _ => True) (fun _ => False) (c.clock, c.store)) :
    Valid D (c.set i q) (grant rights i fun _ => False) := by
  have hsub : ∀ j r, grant rights i (fun _ => False) j r → j ≠ i ∧ rights j r := by
    intro j r hr
    by_cases hj : j = i
    · subst hj
      rw [grant_self] at hr
      cases hr
    · rw [grant_of_ne _ hj] at hr
      exact ⟨hj, hr⟩
  refine ⟨hv.inv, ?_, ?_, ?_⟩
  · exact fun j k r hj hk => hv.apart j k r (hsub j r hj).2 (hsub k r hk).2
  · exact fun j r hj => hv.taken j r (hsub j r hj).2
  · intro j p hp
    by_cases hj : j = i
    · subst hj
      rw [Config.set_self] at hp
      rw [grant_self]
      exact ⟨_, .refl _ _, hq p hp⟩
    · rw [Config.set_of_ne _ hj] at hp
      rw [grant_of_ne _ hj]
      exact hv.safe j p hp

/-- **One statement.**  A statement that keeps what it owes leaves every other process safe. -/
theorem Valid.commit {c : Config σ ι ε} {rights : ℕ → ρ → Prop} (hv : Valid D c rights) {i : ℕ}
    {h' : ρ → Prop} {s' : σ} {p : Prog σ ι ε Unit}
    (hc : D.Commits (rights i) h' (c.clock, c.store) (c.clock, s'))
    (hp : Safe D p (fun _ _ _ => True) h' (c.clock, s')) :
    Valid D ({ c with store := s' }.set i (some p)) (grant rights i h') := by
  -- a right the process has now is nobody else's: it had it, or it was free
  have hothers : ∀ j, j ≠ i → ∀ r, rights j r → ¬ h' r := by
    intro j hj r hr hr'
    rcases hc.taken r hr' with hi | ⟨hfree, _⟩
    · exact hj (hv.apart j i r hr hi)
    · exact hv.taken j r hr hfree
  refine ⟨hc.inv, ?_, ?_, ?_⟩
  · intro j k r hj hk
    by_cases hji : j = i
    · subst hji
      rw [grant_self] at hj
      by_contra hne
      rw [grant_of_ne _ (Ne.symm hne)] at hk
      exact hothers k (Ne.symm hne) r hk hj
    · rw [grant_of_ne _ hji] at hj
      by_cases hki : k = i
      · subst hki
        rw [grant_self] at hk
        exact absurd hk (hothers j hji r hj)
      · rw [grant_of_ne _ hki] at hk
        exact hv.apart j k r hj hk
  · intro j r hj hfree
    by_cases hji : j = i
    · subst hji
      rw [grant_self] at hj
      rcases hc.taken r hj with hi | ⟨_, hnot⟩
      · exact hv.taken j r hi (D.free_of_always hc.always hfree)
      · exact hnot hfree
    · rw [grant_of_ne _ hji] at hj
      exact hv.taken j r hj (D.free_of_always hc.always hfree)
  · intro j q hq
    by_cases hji : j = i
    · subst hji
      rw [Config.set_self] at hq
      obtain rfl := Option.some.inj hq
      rw [grant_self]
      exact ⟨_, .refl _ _, hp⟩
    · rw [Config.set_of_ne _ hji] at hq
      rw [grant_of_ne _ hji]
      obtain ⟨m, hrely, hsafe⟩ := hv.safe j q hq
      exact ⟨m, hrely.trans ⟨le_rfl, hc.always, fun r hr => hc.keeps r (hothers j hji r hr)⟩, hsafe⟩

/-- What a step makes of the clock and the store. -/
def Allowed (D : Discipline σ ρ) (c c' : Config σ ι ε) : Prop :=
  c'.store = c.store ∨ D.allowed (c.clock, c.store) (c'.clock, c'.store)

/-- **One step.**  A step of a safe system leads from valid configurations to valid ones. -/
theorem Valid.step (hcalls : ∀ p, calls p → SafeCall D p) {c c' : Config σ ι ε}
    {rights : ℕ → ρ → Prop} (hv : Valid D c rights) (hstep : Step calls c c') :
    (∃ rights', Valid D c' rights') ∧ Allowed D c c' := by
  cases hstep with
  | tick ht =>
    refine ⟨⟨rights, D.inv_tick ht hv.inv, hv.apart, hv.taken, fun i p hp => ?_⟩, .inl rfl⟩
    obtain ⟨m, hrely, hsafe⟩ := hv.safe i p hp
    exact ⟨m, hrely.trans (.tick _ ht _), hsafe⟩
  | spawn _ hp =>
    refine ⟨⟨_, hv.set_empty fun q hq => ?_⟩, .inl rfl⟩
    obtain rfl := Option.some.inj hq
    exact hcalls _ hp _ _ hv.inv
  | stop => exact ⟨⟨_, hv.set_empty fun q hq => by cases hq⟩, .inl rfl⟩
  | step x hp hmay =>
    obtain ⟨m, hrely, hsafe⟩ := hv.safe _ _ hp
    obtain ⟨h', hc, hk⟩ := hsafe _ _ x hrely hv.inv hmay
    exact ⟨⟨_, hv.commit hc hk⟩, .inr hc.allowed⟩

/-- **Every run.**  What a system of safe calls reaches is valid. -/
theorem Valid.reaches (hcalls : ∀ p, calls p → SafeCall D p) {c c' : Config σ ι ε}
    {rights : ℕ → ρ → Prop} (hv : Valid D c rights) (hrun : Reaches calls c c') :
    ∃ rights', Valid D c' rights' := by
  induction hrun with
  | refl => exact ⟨rights, hv⟩
  | tail _ hstep ih =>
    obtain ⟨rights', hv'⟩ := ih
    exact (hv'.step hcalls hstep).1

/-- The invariant holds of every store a system of safe calls reaches. -/
theorem inv_of_reaches (hcalls : ∀ p, calls p → SafeCall D p) {s : σ} {t : Int}
    (hinv : D.inv t s) {c : Config σ ι ε} (hrun : Reaches calls (.quiet s t) c) :
    D.inv c.clock c.store := by
  obtain ⟨rights, hv⟩ := (valid_quiet hinv).reaches hcalls hrun
  exact hv.inv

/-- Every step of a run of safe calls is allowed. -/
theorem allowed_of_reaches (hcalls : ∀ p, calls p → SafeCall D p) {s : σ} {t : Int}
    (hinv : D.inv t s) {c c' : Config σ ι ε} (hrun : Reaches calls (.quiet s t) c)
    (hstep : Step calls c c') : Allowed D c c' := by
  obtain ⟨rights, hv⟩ := (valid_quiet hinv).reaches hcalls hrun
  exact (hv.step hcalls hstep).2

end Sound

end Async
