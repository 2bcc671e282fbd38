import Mathlib.Algebra.Order.Group.Int
import OpenBrf.Txn.Config

/-!
# Txn.Safe — a program logic for interleaved transactions

A discipline says what every commit keeps: an invariant of the store, and facts that stand while
somebody holds the locks that guard them.  `Safe` follows one program and what it knows of the
store: what it saw, as far as the locks it held when it saw it keep it.  When every call of a
system is safe, every configuration it reaches satisfies the invariant, whatever the interleaving.
-/

namespace Txn

variable {σ L κ ι ε α β : Type}

/-- What commits keep. -/
structure Discipline (σ L κ : Type) where
  /-- Holds of every committed store, at the time on the clock. -/
  inv : Int → σ → Prop
  /-- The locks that guard a fact, and how each has to be held: it stands while somebody holds all
  of them so, and one that has none stands always. -/
  guards : κ → L → Mode → Prop
  /-- What a fact says of a store and a later one. -/
  keeps : κ → σ → σ → Prop
  /-- Holds of every commit, at the time on the clock, of what its transaction read. -/
  allowed : List (Sight σ L) → Int → σ → σ → Prop
  inv_mono : ∀ {t t' s}, t ≤ t' → inv t s → inv t' s
  keeps_refl : ∀ k s, keeps k s s
  keeps_trans : ∀ {k s₁ s₂ s₃}, keeps k s₁ s₂ → keeps k s₂ s₃ → keeps k s₁ s₃

namespace Discipline

variable (D : Discipline σ L κ)

/-- The locks held guard a fact. -/
def Guarded (held : List (L × Mode)) (k : κ) : Prop :=
  ∀ l m, D.guards k l m → ∃ m', (l, m') ∈ held ∧ (m = .exclusive → m' = .exclusive)

/-- The locks held leave it to others to guard a fact. -/
def Unguarded (held : List (L × Mode)) (k : κ) : Prop :=
  ∀ l m, D.guards k l m → ∀ m', (l, m') ∈ held → m = .shared ∧ m' = .shared

/-- What a process that holds locks may rely on between two stores. -/
def Rely (held : List (L × Mode)) (s s' : σ) : Prop := ∀ k, D.Guarded held k → D.keeps k s s'

/-- What a commit owes: a fact stands unless the locks held keep others from guarding it. -/
structure Commits (held : List (L × Mode)) (reads : List (Sight σ L)) (t : Int) (s s' : σ) :
    Prop where
  inv : D.inv t s'
  allowed : D.allowed reads t s s'
  keeps : ∀ k, D.Unguarded held k → D.keeps k s s'

variable {D}

theorem Rely.refl (held : List (L × Mode)) (s : σ) : D.Rely held s s :=
  fun k _ => D.keeps_refl k s

theorem Rely.trans {held : List (L × Mode)} {s₁ s₂ s₃ : σ} (h : D.Rely held s₁ s₂)
    (h' : D.Rely held s₂ s₃) : D.Rely held s₁ s₃ :=
  fun k hk => D.keeps_trans (h k hk) (h' k hk)

theorem Rely.mono {held held' : List (L × Mode)} {s s' : σ} (hsub : ∀ x ∈ held, x ∈ held')
    (h : D.Rely held' s s') : D.Rely held s s' := by
  intro k hk
  refine h k fun l m hl => ?_
  obtain ⟨m', hm, hle⟩ := hk l m hl
  exact ⟨m', hsub _ hm, hle⟩

/-- What one process guards, another leaves it to it to guard. -/
theorem Guarded.unguarded {held held' : List (L × Mode)} {k : κ} (h : D.Guarded held k)
    (hapart : ∀ l m m', (l, m) ∈ held' → (l, m') ∈ held → m = .shared ∧ m' = .shared) :
    D.Unguarded held' k := by
  intro l m hl m' hm'
  obtain ⟨m'', hm'', hle⟩ := h l m hl
  obtain ⟨rfl, rfl⟩ := hapart l m' m'' hm' hm''
  cases m with
  | shared => exact ⟨rfl, rfl⟩
  | exclusive => cases hle rfl

end Discipline

/-! ### What a program knows -/

/-- Where a program stands: its locks, what it knows of the clock and the committed store, its
writes not yet committed, what it last read the clock as, and what it has read. -/
structure Ctx (σ L : Type) where
  held : List (L × Mode)
  knows : Int → σ → Prop
  pending : σ → σ
  lastNow : Option Int
  reads : List (Sight σ L)

namespace Ctx

variable (D : Discipline σ L κ)

/-- Before the first statement. -/
def start : Ctx σ L := ⟨[], fun _ _ => True, id, none, []⟩

/-- What was seen stands as far as the locks held keep it. -/
def observe (c : Ctx σ L) (t : Int) (s : σ) : Ctx σ L :=
  { c with knows := fun t' s' => c.knows t' s' ∧ t ≤ t' ∧ D.Rely c.held s s' }

/-- A read of the store. -/
def see (c : Ctx σ L) (t : Int) (s : σ) : Ctx σ L :=
  { c.observe D t s with reads := ⟨c.held, s⟩ :: c.reads }

def acquire (c : Ctx σ L) (l : L) (m : Mode) : Ctx σ L := { c with held := (l, m) :: c.held }

def readAt (c : Ctx σ L) (t : Int) : Ctx σ L := { c with lastNow := some t }

def write (c : Ctx σ L) (f : σ → σ) : Ctx σ L := { c with pending := f ∘ c.pending }

/-- After a commit the locks are gone, and what was committed stands as far as facts that need
none keep it. -/
def commit (c : Ctx σ L) : Ctx σ L where
  held := []
  knows t' s' := ∃ t s, D.inv t s ∧ c.knows t s ∧ t ≤ t' ∧ D.Rely [] (c.pending s) s'
  pending := id
  lastNow := none
  reads := []

/-- What is known stands under everybody else's commits. -/
def Stable (c : Ctx σ L) : Prop :=
  ∀ t t' s s', t ≤ t' → D.Rely c.held s s' → c.knows t s → c.knows t' s'

variable {D} {c : Ctx σ L}

theorem stable_start : (start : Ctx σ L).Stable D := fun _ _ _ _ _ _ _ => trivial

theorem Stable.observe (h : c.Stable D) (t : Int) (s : σ) : (c.observe D t s).Stable D :=
  fun _ _ _ _ ht hr hk => ⟨h _ _ _ _ ht hr hk.1, le_trans hk.2.1 ht, hk.2.2.trans hr⟩

theorem Stable.acquire (h : c.Stable D) (l : L) (m : Mode) : (c.acquire l m).Stable D :=
  fun _ _ _ _ ht hr => h _ _ _ _ ht (hr.mono fun _ hx => List.mem_cons_of_mem _ hx)

/-- A program that went on: it holds what it held, knows what it knew, and has read what it had. -/
structure Since (c c' : Ctx σ L) : Prop where
  held : ∀ x ∈ c.held, x ∈ c'.held
  knows : ∀ t s, c'.knows t s → c.knows t s
  reads : ∀ r ∈ c.reads, r ∈ c'.reads

/-- A program that went on, and wrote nothing and did not read the clock. -/
structure Later (c c' : Ctx σ L) : Prop extends Since c c' where
  pending : c'.pending = c.pending
  lastNow : c'.lastNow = c.lastNow

variable {c' c'' : Ctx σ L}

theorem Since.refl (c : Ctx σ L) : c.Since c := ⟨fun _ hx => hx, fun _ _ hk => hk, fun _ hr => hr⟩

theorem Since.trans (h : c.Since c') (h' : c'.Since c'') : c.Since c'' :=
  ⟨fun x hx => h'.held x (h.held x hx), fun t s hk => h.knows t s (h'.knows t s hk),
    fun r hr => h'.reads r (h.reads r hr)⟩

theorem Since.observe (h : c.Since c') (t : Int) (s : σ) : c.Since (c'.observe D t s) :=
  ⟨h.held, fun t' s' hk => h.knows t' s' hk.1, h.reads⟩

theorem Since.see (h : c.Since c') (t : Int) (s : σ) : c.Since (c'.see D t s) :=
  ⟨h.held, fun t' s' hk => h.knows t' s' hk.1, fun r hr => List.mem_cons_of_mem _ (h.reads r hr)⟩

theorem Since.acquire (h : c.Since c') (l : L) (m : Mode) : c.Since (c'.acquire l m) :=
  ⟨fun x hx => List.mem_cons_of_mem _ (h.held x hx), h.knows, h.reads⟩

theorem Since.write (h : c.Since c') (f : σ → σ) : c.Since (c'.write f) :=
  ⟨h.held, h.knows, h.reads⟩

theorem Later.refl (c : Ctx σ L) : c.Later c := ⟨.refl c, rfl, rfl⟩

theorem Later.trans (h : c.Later c') (h' : c'.Later c'') : c.Later c'' :=
  ⟨h.toSince.trans h'.toSince, h'.pending.trans h.pending, h'.lastNow.trans h.lastNow⟩

theorem Later.observe (h : c.Later c') (t : Int) (s : σ) : c.Later (c'.observe D t s) :=
  ⟨h.toSince.observe t s, h.pending, h.lastNow⟩

theorem Later.see (h : c.Later c') (t : Int) (s : σ) : c.Later (c'.see D t s) :=
  ⟨h.toSince.see t s, h.pending, h.lastNow⟩

theorem Later.acquire (h : c.Later c') (l : L) (m : Mode) : c.Later (c'.acquire l m) :=
  ⟨h.toSince.acquire l m, h.pending, h.lastNow⟩

/-- The first write of a transaction. -/
theorem pending_write (h : c.pending = id) (f : σ → σ) (s : σ) : (c.write f).pending s = f s := by
  show f (c.pending s) = f s
  rw [h]
  rfl

theorem stable_commit : (c.commit D).Stable D := by
  rintro t t' s s' ht hr ⟨t₀, s₀, hinv, hk, hle, hg⟩
  exact ⟨t₀, s₀, hinv, hk, le_trans hle ht, hg.trans hr⟩

end Ctx

/-! ### Safe programs -/

section Safe

variable (D : Discipline σ L κ) (prompt : L → Prop)

/-- A program all of whose commits are in order, whatever it reads as long as it agrees with what
it knows; `Q` holds of what it returns and where it then stands. -/
def Safe : Prog σ L ι ε α → (α → Ctx σ L → Prop) → Ctx σ L → Prop
  | .ret a, Q, c => Q a c
  | .throw _, _, _ => True
  | .lock l m k, Q, c => ∀ t s, D.inv t s → c.knows t s → (prompt l → ∀ u ∈ c.lastNow, u = t) →
      Safe k Q ((c.acquire l m).observe D t s)
  | .read k, Q, c => ∀ t s, D.inv t s → c.knows t s →
      Safe (k (c.pending s)) Q (c.see D t s)
  | .now k, Q, c => ∀ t s, D.inv t s → c.knows t s →
      Safe (k t) Q ((c.observe D t s).readAt t)
  | .draw k, Q, c => ∀ i, Safe (k i) Q c
  | .write f k, Q, c => Safe k Q (c.write f)
  | .commit k, Q, c =>
      (∀ t s, D.inv t s → c.knows t s → D.Commits c.held c.reads t s (c.pending s)) ∧
        Safe k Q (c.commit D)

/-- A call that is safe whatever there is before it. -/
def SafeCall (p : Prog σ L ι ε Unit) : Prop := Safe D prompt p (fun _ _ => True) Ctx.start

variable {D prompt}

theorem Safe.mono {Q R : α → Ctx σ L → Prop} (hQR : ∀ a c, Q a c → R a c) :
    ∀ {p : Prog σ L ι ε α} {c : Ctx σ L}, Safe D prompt p Q c → Safe D prompt p R c
  | .ret a, c, h => hQR a c h
  | .throw _, _, _ => trivial
  | .lock _ _ _, _, h => fun t s hi hk hp => Safe.mono hQR (h t s hi hk hp)
  | .read _, _, h => fun t s hi hk => Safe.mono hQR (h t s hi hk)
  | .now _, _, h => fun t s hi hk => Safe.mono hQR (h t s hi hk)
  | .draw _, _, h => fun i => Safe.mono hQR (h i)
  | .write f k, c, h => Safe.mono (p := k) (c := c.write f) hQR h
  | .commit _, _, h => ⟨h.1, Safe.mono hQR h.2⟩

/-- **Sequencing.** -/
theorem safe_bind {g : α → Prog σ L ι ε β} {Q : β → Ctx σ L → Prop} :
    ∀ {p : Prog σ L ι ε α} {c : Ctx σ L},
      Safe D prompt (p >>= g) Q c ↔ Safe D prompt p (fun a c' => Safe D prompt (g a) Q c') c
  | .ret _, _ => Iff.rfl
  | .throw _, _ => Iff.rfl
  | .lock _ _ k, _ => forall_congr' fun _ => forall_congr' fun _ => forall_congr' fun _ =>
      forall_congr' fun _ => forall_congr' fun _ => safe_bind (p := k)
  | .read k, c => forall_congr' fun _ => forall_congr' fun s => forall_congr' fun _ =>
      forall_congr' fun _ => safe_bind (p := k (c.pending s))
  | .now k, _ => forall_congr' fun t => forall_congr' fun _ => forall_congr' fun _ =>
      forall_congr' fun _ => safe_bind (p := k t)
  | .draw k, _ => forall_congr' fun i => safe_bind (p := k i)
  | .write f k, c => safe_bind (p := k) (c := c.write f)
  | .commit k, c => and_congr_right fun _ => safe_bind (p := k) (c := c.commit D)

variable {c : Ctx σ L}

theorem safe_pure {a : α} {Q : α → Ctx σ L → Prop} :
    Safe D prompt (pure a : Prog σ L ι ε α) Q c ↔ Q a c := Iff.rfl

theorem safe_fail {e : ε} {Q : α → Ctx σ L → Prop} :
    Safe D prompt (fail e : Prog σ L ι ε α) Q c := trivial

theorem safe_acquire {l : L} {m : Mode} {Q : Unit → Ctx σ L → Prop} :
    Safe D prompt (acquire l m : Prog σ L ι ε Unit) Q c ↔ ∀ t s, D.inv t s → c.knows t s →
      (prompt l → ∀ u ∈ c.lastNow, u = t) → Q () ((c.acquire l m).observe D t s) := Iff.rfl

theorem safe_snapshot {Q : σ → Ctx σ L → Prop} :
    Safe D prompt (snapshot : Prog σ L ι ε σ) Q c ↔ ∀ t s, D.inv t s → c.knows t s →
      Q (c.pending s) (c.see D t s) := Iff.rfl

theorem safe_readClock {Q : Int → Ctx σ L → Prop} :
    Safe D prompt (readClock : Prog σ L ι ε Int) Q c ↔ ∀ t s, D.inv t s → c.knows t s →
      Q t ((c.observe D t s).readAt t) := Iff.rfl

theorem safe_fresh {Q : ι → Ctx σ L → Prop} :
    Safe D prompt (fresh : Prog σ L ι ε ι) Q c ↔ ∀ i, Q i c := Iff.rfl

theorem safe_update {f : σ → σ} {Q : Unit → Ctx σ L → Prop} :
    Safe D prompt (update f : Prog σ L ι ε Unit) Q c ↔ Q () (c.write f) := Iff.rfl

theorem safe_refuseIf {b : Prop} {_ : Decidable b} {e : ε} {Q : Unit → Ctx σ L → Prop} :
    Safe D prompt (refuseIf b e : Prog σ L ι ε Unit) Q c ↔ (¬ b → Q () c) := by
  unfold refuseIf
  split_ifs with hb
  · exact ⟨fun _ h => absurd hb h, fun _ => trivial⟩
  · exact ⟨fun h _ => h, fun h => h hb⟩

theorem safe_onlyIf {b : Prop} {_ : Decidable b} {p : Prog σ L ι ε Unit}
    {Q : Unit → Ctx σ L → Prop} (h : b → Safe D prompt p Q c) (hnot : ¬ b → Q () c) :
    Safe D prompt (onlyIf b p) Q c := by
  unfold onlyIf
  split_ifs with hb
  · exact h hb
  · exact hnot hb

/-- A transaction ends with what it owes. -/
theorem safe_transaction {p : Prog σ L ι ε α} {Q : α → Ctx σ L → Prop} :
    Safe D prompt (transaction p) Q c ↔ Safe D prompt p (fun a c' =>
      (∀ t s, D.inv t s → c'.knows t s → D.Commits c'.held c'.reads t s (c'.pending s)) ∧
        Q a (c'.commit D)) c := by
  unfold transaction
  rw [safe_bind]
  rfl

/-- A conditional update: where it writes, the row is locked and matched after that. -/
theorem safe_updateRow {key : L} {matched : σ → Bool} {f : σ → σ} {Q : Bool → Ctx σ L → Prop}
    (hmissed : ∀ c', c.Later c' → Q false c')
    (hwritten : ∀ c' t s, c.Later c' → (key, .exclusive) ∈ c'.held → D.inv t s →
      matched (c.pending s) = true →
      (∀ t' s', c'.knows t' s' → D.Rely ((key, .exclusive) :: c.held) s s') →
      Q true (c'.write f)) :
    Safe D prompt (updateRow key matched f : Prog σ L ι ε Bool) Q c := by
  unfold updateRow
  rw [safe_bind, safe_snapshot]
  intro t₀ s₀ _ _
  have hseen := (Ctx.Later.refl c).see (D := D) t₀ s₀
  split_ifs
  · rw [safe_bind, safe_acquire]
    intro t₁ s₁ _ _ _
    have hlocked := (hseen.acquire key .exclusive).observe (D := D) t₁ s₁
    rw [safe_bind, safe_snapshot]
    intro t₂ s₂ hinv _
    have hmatched := hlocked.see (D := D) t₂ s₂
    split_ifs with hm
    · rw [safe_bind, safe_update, safe_pure]
      refine hwritten _ t₂ s₂ hmatched ?_ hinv hm fun t' s' hk => hk.2.2
      exact List.mem_cons_self
    · rw [safe_pure]
      exact hmissed _ hmatched
  · rw [safe_pure]
    exact hmissed _ hseen

/-- Locks taken one after the other. -/
theorem safe_acquireAll {key : α → L} {m : Mode} {Q : Unit → Ctx σ L → Prop} :
    ∀ {l : List α} {c : Ctx σ L},
      (∀ c', c.Later c' → (∀ a ∈ l, (key a, m) ∈ c'.held) → Q () c') →
      Safe D prompt (l.forM fun a => acquire (key a) m : Prog σ L ι ε Unit) Q c
  | [], c, h => h c (.refl c) fun a ha => by cases ha
  | a :: l, c, h => by
    show Safe D prompt (acquire (key a) m >>= fun _ => l.forM fun a => acquire (key a) m) Q c
    rw [safe_bind, safe_acquire]
    intro t s _ _ _
    apply safe_acquireAll
    intro c' hlater hheld
    refine h c' ((((Ctx.Later.refl c).acquire (key a) m).observe t s).trans hlater) fun b hb => ?_
    rcases List.mem_cons.mp hb with rfl | hb
    · exact hlater.held _ List.mem_cons_self
    · exact hheld b hb

/-- A loop that keeps what holds where the program stands. -/
theorem safe_forM {f : α → Prog σ L ι ε Unit} {Q : Ctx σ L → Prop} :
    ∀ {l : List α} {c : Ctx σ L}, Q c → (∀ a ∈ l, ∀ c, Q c → Safe D prompt (f a) (fun _ => Q) c) →
      Safe D prompt (l.forM f) (fun _ => Q) c
  | [], _, hQ, _ => hQ
  | a :: l, c, hQ, hf => by
    show Safe D prompt (f a >>= fun _ => l.forM f) (fun _ => Q) c
    rw [safe_bind]
    exact (hf a (by simp) c hQ).mono fun _ c' hQ' =>
      safe_forM hQ' fun a' ha' => hf a' (List.mem_cons_of_mem a ha')

end Safe

/-! ### Soundness -/

section Sound

variable {D : Discipline σ L κ} {sys : System σ L ι ε}

/-- A process that is safe where it stands. -/
def SafeProcess (D : Discipline σ L κ) (sys : System σ L ι ε) (t : Int) (s : σ)
    (q : Process σ L ι ε) : Prop :=
  ∃ knows : Int → σ → Prop, knows t s ∧
    Ctx.Stable D ⟨q.held, knows, q.pending, q.lastNow, q.reads⟩ ∧
      Safe D sys.prompt q.prog (fun _ _ => True) ⟨q.held, knows, q.pending, q.lastNow, q.reads⟩

/-- The configurations of a safe system: the invariant holds, no lock is held against another,
and every process is safe. -/
structure Valid (D : Discipline σ L κ) (sys : System σ L ι ε) (c : Config σ L ι ε) : Prop where
  inv : D.inv c.clock c.store
  apart : ∀ i j, j ≠ i → ∀ q ∈ c.processes i, ∀ r ∈ c.processes j, ∀ l m m',
    (l, m) ∈ q.held → (l, m') ∈ r.held → m = .shared ∧ m' = .shared
  safe : ∀ i, ∀ q ∈ c.processes i, SafeProcess D sys c.clock c.store q

theorem valid_quiet {s : σ} {t : Int} (h : D.inv t s) :
    Valid D sys (Config.quiet s t : Config σ L ι ε) := by
  refine ⟨h, ?_, ?_⟩
  · intro i j _ q hq
    cases hq
  · intro i q hq
    cases hq

/-- A process that stands still is safe while others commit what it may rely on. -/
theorem SafeProcess.rely {t t' : Int} {s s' : σ} {q : Process σ L ι ε}
    (h : SafeProcess D sys t s q) (ht : t ≤ t') (hr : D.Rely q.held s s') :
    SafeProcess D sys t' s' q := by
  obtain ⟨knows, hk, hst, hsafe⟩ := h
  exact ⟨knows, hst t t' s s' ht hr hk, hst, hsafe⟩

/-- One process moves and the store stands. -/
theorem Valid.set {c : Config σ L ι ε} (h : Valid D sys c) {i : ℕ} {q : Process σ L ι ε}
    (hq : SafeProcess D sys c.clock c.store q)
    (hheld : ∀ j, j ≠ i → ∀ r ∈ c.processes j, ∀ l m m', (l, m) ∈ q.held → (l, m') ∈ r.held →
      m = .shared ∧ m' = .shared) : Valid D sys (c.set i (some q)) := by
  have hself : (c.set i (some q)).processes i = some q := c.set_self i _
  have hother : ∀ j, j ≠ i → (c.set i (some q)).processes j = c.processes j := fun j hj =>
    c.set_of_ne hj _
  refine ⟨h.inv, ?_, ?_⟩
  · intro j k hne p hp r hr l m m' hl hl'
    by_cases hj : j = i
    · subst hj
      rw [hself] at hp
      obtain rfl := Option.some.inj hp
      rw [hother k hne] at hr
      exact hheld k hne r hr l m m' hl hl'
    · rw [hother j hj] at hp
      by_cases hk : k = i
      · subst hk
        rw [hself] at hr
        obtain rfl := Option.some.inj hr
        exact (hheld j hj p hp l m' m hl' hl).symm
      · rw [hother k hk] at hr
        exact h.apart j k hne p hp r hr l m m' hl hl'
  · intro j p hp
    by_cases hj : j = i
    · subst hj
      rw [hself] at hp
      obtain rfl := Option.some.inj hp
      exact hq
    · rw [hother j hj] at hp
      exact h.safe j p hp

theorem Valid.unset {c : Config σ L ι ε} (h : Valid D sys c) (i : ℕ) :
    Valid D sys (c.set i none) := by
  have hsome : ∀ j, ∀ p ∈ (c.set i none).processes j, p ∈ c.processes j := by
    intro j p hp
    by_cases hj : j = i
    · subst hj
      rw [c.set_self] at hp
      cases hp
    · rwa [c.set_of_ne hj] at hp
  exact ⟨h.inv, fun j k hne p hp r hr => h.apart j k hne p (hsome j p hp) r (hsome k r hr),
    fun j p hp => h.safe j p (hsome j p hp)⟩

/-- A commit in order leaves every other process safe. -/
theorem Valid.commit {c : Config σ L ι ε} (h : Valid D sys c) {i : ℕ} {s' : σ}
    {q : Process σ L ι ε} (hq : q ∈ c.processes i)
    (hc : D.Commits q.held q.reads c.clock c.store s') :
    Valid D sys ({ c with store := s' }.set i none) := by
  have hrely : ∀ j, j ≠ i → ∀ r ∈ c.processes j, D.Rely r.held c.store s' := by
    intro j hj r hr k hk
    exact hc.keeps k (hk.unguarded (h.apart i j hj q hq r hr))
  have hsome : ∀ j, ∀ p ∈ ({ c with store := s' }.set i none).processes j,
      j ≠ i ∧ p ∈ c.processes j := by
    intro j p hp
    by_cases hj : j = i
    · subst hj
      rw [Config.set_self] at hp
      cases hp
    · rw [Config.set_of_ne _ hj] at hp
      exact ⟨hj, hp⟩
  refine ⟨hc.inv, ?_, ?_⟩
  · exact fun j k hne p hp r hr => h.apart j k hne p (hsome j p hp).2 r (hsome k r hr).2
  · intro j p hp
    obtain ⟨hj, hp⟩ := hsome j p hp
    exact (h.safe j p hp).rely le_rfl (hrely j hj p hp)

/-- A step that changes the store is a commit of one process, allowed after what it has read. -/
def Allowed (D : Discipline σ L κ) (c c' : Config σ L ι ε) : Prop :=
  c'.store = c.store ∨
    ∃ i, ∃ q ∈ c.processes i, D.allowed q.reads c.clock c.store c'.store

/-- **One step.**  A step of a safe system leads from valid configurations to valid ones, and
what it commits is allowed. -/
theorem Valid.step (hcalls : ∀ p, sys.calls p → SafeCall D sys.prompt p) {c c' : Config σ L ι ε}
    (h : Valid D sys c) (hstep : Step sys c c') : Valid D sys c' ∧ Allowed D c c' := by
  cases hstep with
  | tick ht =>
    refine ⟨⟨D.inv_mono ht h.inv, h.apart, fun i q hq => ?_⟩, .inl rfl⟩
    exact (h.safe i q hq).rely ht (.refl _ _)
  | spawn hnone hp =>
    refine ⟨h.set ⟨_, trivial, Ctx.stable_start, hcalls _ hp⟩ ?_, .inl rfl⟩
    intro j _ r _ l m m' hl
    cases hl
  | stop => exact ⟨h.unset _, .inl rfl⟩
  | lock hq hprog hgrants hprompt =>
    rename_i i q l m k
    obtain ⟨knows, hk, hst, hsafe⟩ := h.safe i _ hq
    rw [hprog] at hsafe
    refine ⟨h.set ⟨_, ?_, ?_, hsafe c.clock c.store h.inv hk hprompt⟩ ?_, .inl rfl⟩
    · exact ⟨hk, le_rfl, .refl _ _⟩
    · exact Ctx.Stable.observe (Ctx.Stable.acquire hst l m) c.clock c.store
    · intro j hj r hr l' m₁ m₂ hl₁ hl₂
      rcases List.mem_cons.mp hl₁ with heq | hl₁
      · obtain ⟨rfl, rfl⟩ := Prod.mk.inj heq
        exact hgrants j hj r hr m₂ hl₂
      · exact h.apart i j hj _ hq r hr l' m₁ m₂ hl₁ hl₂
  | read hq hprog =>
    rename_i i q k
    obtain ⟨knows, hk, hst, hsafe⟩ := h.safe i _ hq
    rw [hprog] at hsafe
    refine ⟨h.set ⟨_, ?_, ?_, hsafe c.clock c.store h.inv hk⟩ ?_, .inl rfl⟩
    · exact ⟨hk, le_rfl, .refl _ _⟩
    · exact Ctx.Stable.observe hst c.clock c.store
    · exact fun j hj r hr => h.apart i j hj _ hq r hr
  | now hq hprog =>
    rename_i i q k
    obtain ⟨knows, hk, hst, hsafe⟩ := h.safe i _ hq
    rw [hprog] at hsafe
    refine ⟨h.set ⟨_, ?_, ?_, hsafe c.clock c.store h.inv hk⟩ ?_, .inl rfl⟩
    · exact ⟨hk, le_rfl, .refl _ _⟩
    · exact Ctx.Stable.observe hst c.clock c.store
    · exact fun j hj r hr => h.apart i j hj _ hq r hr
  | draw v hq hprog =>
    rename_i i q k
    obtain ⟨knows, hk, hst, hsafe⟩ := h.safe i _ hq
    rw [hprog] at hsafe
    exact ⟨h.set ⟨knows, hk, hst, hsafe v⟩ fun j hj r hr => h.apart i j hj _ hq r hr, .inl rfl⟩
  | write hq hprog =>
    rename_i i q f k
    obtain ⟨knows, hk, hst, hsafe⟩ := h.safe i _ hq
    rw [hprog] at hsafe
    exact ⟨h.set ⟨knows, hk, hst, hsafe⟩ fun j hj r hr => h.apart i j hj _ hq r hr, .inl rfl⟩
  | commit hq hprog =>
    rename_i i q k
    obtain ⟨knows, hk, hst, hsafe⟩ := h.safe i _ hq
    rw [hprog] at hsafe
    obtain ⟨hcommits, hsafe⟩ := hsafe
    have hc := hcommits c.clock c.store h.inv hk
    have hrest := h.commit hq hc
    have hset : ({ c with store := q.pending c.store }.set i (some (Process.start k)) :
        Config σ L ι ε) = ({ c with store := q.pending c.store }.set i none).set i
          (some (Process.start k)) := by
      rw [Config.set_set]
    refine ⟨?_, .inr ⟨i, q, hq, hc.allowed⟩⟩
    rw [hset]
    refine hrest.set ⟨_, ?_, Ctx.stable_commit, hsafe⟩ ?_
    · exact ⟨c.clock, c.store, h.inv, hk, le_rfl, .refl _ _⟩
    · intro j _ r _ l m m' hl
      cases hl

/-- **Every run.**  What a system of safe calls reaches is valid. -/
theorem Valid.reaches (hcalls : ∀ p, sys.calls p → SafeCall D sys.prompt p)
    {c c' : Config σ L ι ε} (h : Valid D sys c) (hrun : Reaches sys c c') : Valid D sys c' := by
  induction hrun with
  | refl => exact h
  | tail _ hstep ih => exact (ih.step hcalls hstep).1

/-- The invariant holds of every store a system of safe calls reaches. -/
theorem inv_of_reaches (hcalls : ∀ p, sys.calls p → SafeCall D sys.prompt p) {s : σ} {t : Int}
    (h : D.inv t s) {c : Config σ L ι ε} (hrun : Reaches sys (.quiet s t) c) :
    D.inv c.clock c.store :=
  ((valid_quiet h).reaches hcalls hrun).inv

/-- Every commit of a run of safe calls is allowed. -/
theorem allowed_of_reaches (hcalls : ∀ p, sys.calls p → SafeCall D sys.prompt p) {s : σ}
    {t : Int} (h : D.inv t s) {c c' : Config σ L ι ε} (hrun : Reaches sys (.quiet s t) c)
    (hstep : Step sys c c') : Allowed D c c' :=
  (((valid_quiet h).reaches hcalls hrun).step hcalls hstep).2

end Sound

end Txn
