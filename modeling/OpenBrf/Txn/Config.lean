import Mathlib.Logic.Relation
import OpenBrf.Txn.Program

/-!
# Txn.Config — transactions beside each other

Processes run programs over one committed store.  A read sees the store as it is committed when
the statement runs, with the reader's own writes over it; a write is the writer's own until it
commits; a lock is held to the end of the transaction.  A process may stop at any point, and what
it has not committed is lost.
-/

namespace Txn

variable {σ L ι ε : Type}

/-- A read of the store: the locks held then, and what was committed. -/
structure Sight (σ L : Type) where
  held : List (L × Mode)
  store : σ

/-- A running program: what is left of it, its writes not yet committed, the locks it holds, what
it last read the clock as and what it has read in this transaction. -/
structure Process (σ L ι ε : Type) where
  prog : Prog σ L ι ε Unit
  pending : σ → σ
  held : List (L × Mode)
  lastNow : Option Int
  reads : List (Sight σ L)

/-- A program before its first statement. -/
def Process.start (p : Prog σ L ι ε Unit) : Process σ L ι ε := ⟨p, id, [], none, []⟩

/-- The committed store, the clock, and the processes there are. -/
structure Config (σ L ι ε : Type) where
  store : σ
  clock : Int
  processes : ℕ → Option (Process σ L ι ε)

namespace Config

/-- Nobody is running. -/
def quiet (s : σ) (t : Int) : Config σ L ι ε := ⟨s, t, fun _ => none⟩

def set (c : Config σ L ι ε) (i : ℕ) (q : Option (Process σ L ι ε)) : Config σ L ι ε :=
  { c with processes := Function.update c.processes i q }

@[simp] theorem set_self (c : Config σ L ι ε) (i : ℕ) (q : Option (Process σ L ι ε)) :
    (c.set i q).processes i = q := Function.update_self ..

theorem set_of_ne (c : Config σ L ι ε) {i j : ℕ} (h : j ≠ i) (q : Option (Process σ L ι ε)) :
    (c.set i q).processes j = c.processes j := Function.update_of_ne h ..

@[simp] theorem set_set (c : Config σ L ι ε) (i : ℕ) (q q' : Option (Process σ L ι ε)) :
    (c.set i q).set i q' = c.set i q' := by
  unfold set
  rw [Function.update_idem]

/-- Nobody but `i` holds the lock in a way that excludes `m`. -/
def Grants (c : Config σ L ι ε) (i : ℕ) (l : L) (m : Mode) : Prop :=
  ∀ j, j ≠ i → ∀ r ∈ c.processes j, ∀ m', (l, m') ∈ r.held → m = .shared ∧ m' = .shared

end Config

/-- The programs that may be called, and the locks a process waits for no time on: the clock
stands where the process read it when it is granted one. -/
structure System (σ L ι ε : Type) where
  calls : Prog σ L ι ε Unit → Prop
  prompt : L → Prop

/-- One step of one process, or of the clock. -/
inductive Step (sys : System σ L ι ε) : Config σ L ι ε → Config σ L ι ε → Prop
  | tick {c : Config σ L ι ε} {t : Int} : c.clock ≤ t → Step sys c { c with clock := t }
  | spawn {c : Config σ L ι ε} {i : ℕ} {p : Prog σ L ι ε Unit} : c.processes i = none →
      sys.calls p → Step sys c (c.set i (some (.start p)))
  /-- It returned, failed or crashed. -/
  | stop {c : Config σ L ι ε} {i : ℕ} : Step sys c (c.set i none)
  | lock {c : Config σ L ι ε} {i : ℕ} {q : Process σ L ι ε} {l : L} {m : Mode}
      {k : Prog σ L ι ε Unit} : c.processes i = some q → q.prog = .lock l m k → c.Grants i l m →
      (sys.prompt l → ∀ t ∈ q.lastNow, t = c.clock) →
      Step sys c (c.set i (some { q with prog := k, held := (l, m) :: q.held }))
  | read {c : Config σ L ι ε} {i : ℕ} {q : Process σ L ι ε} {k : σ → Prog σ L ι ε Unit} :
      c.processes i = some q → q.prog = .read k →
      Step sys c (c.set i (some { q with
        prog := k (q.pending c.store), reads := ⟨q.held, c.store⟩ :: q.reads }))
  | now {c : Config σ L ι ε} {i : ℕ} {q : Process σ L ι ε} {k : Int → Prog σ L ι ε Unit} :
      c.processes i = some q → q.prog = .now k →
      Step sys c (c.set i (some { q with prog := k c.clock, lastNow := some c.clock }))
  | draw {c : Config σ L ι ε} {i : ℕ} {q : Process σ L ι ε} {k : ι → Prog σ L ι ε Unit} (v : ι) :
      c.processes i = some q → q.prog = .draw k →
      Step sys c (c.set i (some { q with prog := k v }))
  | write {c : Config σ L ι ε} {i : ℕ} {q : Process σ L ι ε} {f : σ → σ}
      {k : Prog σ L ι ε Unit} : c.processes i = some q → q.prog = .write f k →
      Step sys c (c.set i (some { q with prog := k, pending := f ∘ q.pending }))
  | commit {c : Config σ L ι ε} {i : ℕ} {q : Process σ L ι ε} {k : Prog σ L ι ε Unit} :
      c.processes i = some q → q.prog = .commit k →
      Step sys c ({ c with store := q.pending c.store }.set i (some (.start k)))

/-- The configurations a run from `c` reaches. -/
def Reaches (sys : System σ L ι ε) : Config σ L ι ε → Config σ L ι ε → Prop :=
  Relation.ReflTransGen (Step sys)

/-- The configurations a run from `c` reaches that commits nothing. -/
def Waits (sys : System σ L ι ε) : Config σ L ι ε → Config σ L ι ε → Prop :=
  Relation.ReflTransGen fun c c' => Step sys c c' ∧ c'.store = c.store

theorem Waits.reaches {sys : System σ L ι ε} {c c' : Config σ L ι ε} (h : Waits sys c c') :
    Reaches sys c c' := Relation.ReflTransGen.mono (fun _ _ hstep => hstep.1) _ _ h

/-! ### One process while those beside it stand still -/

/-- What a program run alone first commits. -/
def firstCommit {α : Type} : Prog σ L ι ε α → World σ ι → Option σ
  | .ret _, _ => none
  | .throw _, _ => none
  | .lock _ _ k, w => firstCommit k w
  | .read k, w => firstCommit (k w.working) w
  | .now k, w => firstCommit (k w.clock) w
  | .draw k, w => firstCommit (k (w.draws 0)) { w with draws := fun n => w.draws (n + 1) }
  | .write f k, w => firstCommit k { w with working := f w.working }
  | .commit _, w => some w.working

/-- A process gets to its first commit while those beside it stand still and hold no lock. -/
theorem reaches_firstCommit {sys : System σ L ι ε} {c : Config σ L ι ε} {i : ℕ} {s' : σ}
    (hothers : ∀ j, j ≠ i → ∀ r ∈ c.processes j, r.held = []) :
    ∀ (p : Prog σ L ι ε Unit) (draws : ℕ → ι) (q : Process σ L ι ε), q.prog = p →
      (∀ l, sys.prompt l → ∀ u ∈ q.lastNow, u = c.clock) →
      firstCommit p ⟨c.clock, draws, c.store, q.pending c.store⟩ = some s' →
      ∃ k q', q'.prog = .commit k ∧ q'.pending c.store = s' ∧
        Waits sys (c.set i (some q)) (c.set i (some q')) := by
  -- every statement but a commit is one step of the process
  have hset : ∀ q q' q'' : Process σ L ι ε,
      Step sys (c.set i (some q)) ((c.set i (some q)).set i (some q')) →
      Waits sys (c.set i (some q')) (c.set i (some q'')) →
      Waits sys (c.set i (some q)) (c.set i (some q'')) := by
    intro q q' q'' h hrun
    rw [Config.set_set] at h
    exact .head ⟨h, rfl⟩ hrun
  have hself : ∀ q : Process σ L ι ε, (c.set i (some q)).processes i = some q :=
    fun q => Config.set_self _ i _
  intro p
  induction p with
  | ret a => intro _ _ _ _ h; cases h
  | throw e => intro _ _ _ _ h; cases h
  | lock l m k ih =>
    intro draws q hq hlast h
    obtain ⟨k', q', hq', hs, hrun⟩ :=
      ih draws { q with prog := k, held := (l, m) :: q.held } rfl hlast h
    refine ⟨k', q', hq', hs, hset _ _ _ (.lock (hself _) hq ?_ (hlast l)) hrun⟩
    intro j hj r hr m' hheld
    rw [Config.set_of_ne _ hj] at hr
    rw [hothers j hj r hr] at hheld
    cases hheld
  | read k ih =>
    intro draws q hq hlast h
    obtain ⟨k', q', hq', hs, hrun⟩ := ih _ draws
      { q with prog := k (q.pending c.store), reads := ⟨q.held, c.store⟩ :: q.reads } rfl hlast h
    exact ⟨k', q', hq', hs, hset _ _ _ (.read (hself _) hq) hrun⟩
  | now k ih =>
    intro draws q hq _ h
    have hlast : ∀ l, sys.prompt l → ∀ u ∈ some c.clock, u = c.clock :=
      fun _ _ u hu => (Option.some.inj hu).symm
    obtain ⟨k', q', hq', hs, hrun⟩ := ih _ draws
      { q with prog := k c.clock, lastNow := some c.clock } rfl hlast h
    exact ⟨k', q', hq', hs, hset _ _ _ (.now (hself _) hq) hrun⟩
  | draw k ih =>
    intro draws q hq hlast h
    obtain ⟨k', q', hq', hs, hrun⟩ := ih _ (fun n => draws (n + 1))
      { q with prog := k (draws 0) } rfl hlast h
    exact ⟨k', q', hq', hs, hset _ _ _ (.draw _ (hself _) hq) hrun⟩
  | write f k ih =>
    intro draws q hq hlast h
    obtain ⟨k', q', hq', hs, hrun⟩ := ih draws { q with prog := k, pending := f ∘ q.pending } rfl
      hlast h
    exact ⟨k', q', hq', hs, hset _ _ _ (.write (hself _) hq) hrun⟩
  | commit k _ =>
    intro draws q hq _ h
    exact ⟨k, q, hq, Option.some.inj h, .refl⟩

/-- A process commits and stops while those beside it stand still and hold no lock. -/
theorem reaches_commit {sys : System σ L ι ε} {c : Config σ L ι ε} {i : ℕ} {s' : σ}
    (hothers : ∀ j, j ≠ i → ∀ r ∈ c.processes j, r.held = []) {q : Process σ L ι ε}
    (draws : ℕ → ι) (hlast : ∀ l, sys.prompt l → ∀ u ∈ q.lastNow, u = c.clock)
    (h : firstCommit q.prog ⟨c.clock, draws, c.store, q.pending c.store⟩ = some s') :
    ∃ c₁ c₂ : Config σ L ι ε, Waits sys (c.set i (some q)) c₁ ∧ Step sys c₁ c₂ ∧
      c₁.clock = c.clock ∧ c₁.store = c.store ∧ c₂.store = s' ∧
      Waits sys c₂ ({ c with store := s' }.set i none) := by
  obtain ⟨k, q', hq', hs, hrun⟩ := reaches_firstCommit hothers q.prog draws q rfl hlast h
  refine ⟨_, _, hrun, .commit (Config.set_self _ _ _) hq', rfl, rfl, hs, ?_⟩
  have hleft : (({ c.set i (some q') with store := q'.pending c.store } : Config σ L ι ε).set i
      (some (Process.start k))).set i none = { c with store := s' }.set i none := by
    subst hs
    simp [Config.set]
  rw [← hleft]
  exact .single ⟨.stop, rfl⟩

/-- A call made while those beside it stand still and hold no lock, whole. -/
theorem reaches_beside {sys : System σ L ι ε} {p : Prog σ L ι ε Unit} (hp : sys.calls p)
    {c : Config σ L ι ε} {i : ℕ} {s' : σ} (hfree : c.processes i = none)
    (hothers : ∀ j, j ≠ i → ∀ r ∈ c.processes j, r.held = []) (draws : ℕ → ι)
    (h : firstCommit p ⟨c.clock, draws, c.store, c.store⟩ = some s') :
    ∃ c₁ c₂ : Config σ L ι ε, Waits sys c c₁ ∧ Step sys c₁ c₂ ∧ c₁.clock = c.clock ∧
      c₁.store = c.store ∧ c₂.store = s' ∧ Waits sys c₂ { c with store := s' } := by
  obtain ⟨c₁, c₂, hrun, hstep, hclock, hstore, hs, hend⟩ := reaches_commit (q := .start p) hothers
    draws (fun _ _ u hu => by cases hu) h
  refine ⟨c₁, c₂, .head ⟨.spawn hfree hp, rfl⟩ hrun, hstep, hclock, hstore, hs, ?_⟩
  have hleft : ({ c with store := s' }.set i none : Config σ L ι ε) = { c with store := s' } := by
    unfold Config.set
    have hnone : c.processes = Function.update c.processes i none := by
      rw [← hfree, Function.update_eq_self]
    rw [← hnone]
  rwa [hleft] at hend

/-- A call made alone reaches a step that commits what it first commits. -/
theorem reaches_call {sys : System σ L ι ε} {p : Prog σ L ι ε Unit} (hp : sys.calls p) {s s' : σ}
    {t : Int} (draws : ℕ → ι) (h : firstCommit p ⟨t, draws, s, s⟩ = some s') :
    ∃ c c' : Config σ L ι ε, Reaches sys (.quiet s t) c ∧ Step sys c c' ∧ c.clock = t ∧
      c.store = s ∧ c'.store = s' ∧ Reaches sys c' (.quiet s' t) := by
  obtain ⟨c, c', hrun, hstep, hclock, hstore, hs, hend⟩ :=
    reaches_beside (i := 0) hp (c := .quiet s t) rfl (fun j _ r hr => by cases hr) draws h
  exact ⟨c, c', hrun.reaches, hstep, hclock, hstore, hs, hend.reaches⟩

/-- A call made alone, once it has committed. -/
theorem reaches_called {sys : System σ L ι ε} {p : Prog σ L ι ε Unit} (hp : sys.calls p) {s s' : σ}
    {t : Int} (draws : ℕ → ι) (h : firstCommit p ⟨t, draws, s, s⟩ = some s') :
    Reaches sys (.quiet s t) (.quiet s' t) := by
  obtain ⟨_, _, hrun, hstep, -, -, -, hend⟩ := reaches_call hp draws h
  exact (hrun.tail hstep).trans hend

end Txn
