import Mathlib.Logic.Function.Basic
import Mathlib.Tactic.Common

/-!
# Txn.Program — programs over a transactional store

A program locks keys, reads the store, reads the clock, draws fresh values, writes, and commits.
Writes are its own until it commits; a failure drops them.  `exec` runs a program alone; the
interleaved semantics is in `Txn.Config`.
-/

namespace Txn

/-- How a lock is held: several holders at once, or one alone. -/
inductive Mode where
  | shared
  | exclusive
  deriving DecidableEq, Repr

/-- A program over the store `σ`: it locks keys of `L`, draws values of `ι`, and returns an `α`
or fails with an `ε`. -/
inductive Prog (σ L ι ε α : Type) where
  | ret (a : α)
  | throw (e : ε)
  | lock (l : L) (m : Mode) (k : Prog σ L ι ε α)
  | read (k : σ → Prog σ L ι ε α)
  | now (k : Int → Prog σ L ι ε α)
  | draw (k : ι → Prog σ L ι ε α)
  | write (f : σ → σ) (k : Prog σ L ι ε α)
  | commit (k : Prog σ L ι ε α)

variable {σ L ι ε α β γ : Type}

namespace Prog

/-- Sequencing. -/
def bind : Prog σ L ι ε α → (α → Prog σ L ι ε β) → Prog σ L ι ε β
  | ret a, g => g a
  | throw e, _ => throw e
  | lock l m k, g => lock l m (k.bind g)
  | read k, g => read fun s => (k s).bind g
  | now k, g => now fun t => (k t).bind g
  | draw k, g => draw fun i => (k i).bind g
  | write f k, g => write f (k.bind g)
  | commit k, g => commit (k.bind g)

instance : Monad (Prog σ L ι ε) where
  pure := ret
  bind := bind

theorem bind_ret : ∀ p : Prog σ L ι ε α, p.bind ret = p
  | ret _ => rfl
  | throw _ => rfl
  | lock l m k => by simp only [bind, bind_ret k]
  | read k => by simp only [bind, fun s => bind_ret (k s)]
  | now k => by simp only [bind, fun t => bind_ret (k t)]
  | draw k => by simp only [bind, fun i => bind_ret (k i)]
  | write f k => by simp only [bind, bind_ret k]
  | commit k => by simp only [bind, bind_ret k]

theorem bind_bind (g : α → Prog σ L ι ε β) (h : β → Prog σ L ι ε γ) :
    ∀ p : Prog σ L ι ε α, (p.bind g).bind h = p.bind fun a => (g a).bind h
  | ret _ => rfl
  | throw _ => rfl
  | lock l m k => by simp only [bind, bind_bind g h k]
  | read k => by simp only [bind, fun s => bind_bind g h (k s)]
  | now k => by simp only [bind, fun t => bind_bind g h (k t)]
  | draw k => by simp only [bind, fun i => bind_bind g h (k i)]
  | write f k => by simp only [bind, bind_bind g h k]
  | commit k => by simp only [bind, bind_bind g h k]

instance : LawfulMonad (Prog σ L ι ε) :=
  LawfulMonad.mk' _ bind_ret (fun _ _ => rfl) (fun p g h => bind_bind g h p)

end Prog

/-! ### The statements of a program -/

/-- Waits for the lock on `l`, held to the end of the transaction. -/
def acquire (l : L) (m : Mode) : Prog σ L ι ε Unit := .lock l m (.ret ())

/-- The store as the transaction sees it. -/
def snapshot : Prog σ L ι ε σ := .read .ret

/-- The clock. -/
def readClock : Prog σ L ι ε Int := .now .ret

/-- A value drawn from outside the store, such as a generated identifier. -/
def fresh : Prog σ L ι ε ι := .draw .ret

/-- Writes, seen by others once the transaction commits. -/
def update (f : σ → σ) : Prog σ L ι ε Unit := .write f (.ret ())

/-- Fails, dropping every write since the last commit. -/
def fail (e : ε) : Prog σ L ι ε α := .throw e

/-- Fails when the condition holds. -/
def refuseIf (c : Prop) [Decidable c] (e : ε) : Prog σ L ι ε Unit := if c then fail e else pure ()

/-- Runs a program when the condition holds. -/
def onlyIf (c : Prop) [Decidable c] (p : Prog σ L ι ε Unit) : Prog σ L ι ε Unit :=
  if c then p else pure ()

/-- A conditional update of one row: a row that matches is locked, matched again as it then
stands, and written.  Says whether it was. -/
def updateRow (key : L) (matched : σ → Bool) (f : σ → σ) : Prog σ L ι ε Bool := do
  let s ← snapshot
  if matched s then
    acquire key .exclusive
    let s ← snapshot
    if matched s then
      update f
      return true
    else return false
  else return false

/-- Runs `body` and commits what it wrote. -/
def transaction (body : Prog σ L ι ε α) : Prog σ L ι ε α := body >>= fun a => .commit (.ret a)

/-! ### Running a program alone -/

/-- What a program run alone sees: the clock, the values still to be drawn, the store as
committed and the store with its own writes. -/
structure World (σ ι : Type) where
  clock : Int
  draws : ℕ → ι
  committed : σ
  working : σ

/-- Runs a program with nobody beside it. -/
def exec : Prog σ L ι ε α → World σ ι → Except ε α × World σ ι
  | .ret a, w => (.ok a, w)
  | .throw e, w => (.error e, { w with working := w.committed })
  | .lock _ _ k, w => exec k w
  | .read k, w => exec (k w.working) w
  | .now k, w => exec (k w.clock) w
  | .draw k, w => exec (k (w.draws 0)) { w with draws := fun n => w.draws (n + 1) }
  | .write f k, w => exec k { w with working := f w.working }
  | .commit k, w => exec k { w with committed := w.working }

/-- One call of a program on a store: its answer and the store it leaves. -/
def call (p : Prog σ L ι ε α) (t : Int) (draws : ℕ → ι) (s : σ) : Except ε α × σ :=
  ((exec p ⟨t, draws, s, s⟩).1, (exec p ⟨t, draws, s, s⟩).2.committed)

theorem exec_bind (g : α → Prog σ L ι ε β) :
    ∀ (p : Prog σ L ι ε α) (w : World σ ι),
      exec (p >>= g) w =
        match exec p w with
        | (.ok a, w') => exec (g a) w'
        | (.error e, w') => (.error e, w')
  | .ret _, _ => rfl
  | .throw _, _ => rfl
  | .lock _ _ k, w => exec_bind g k w
  | .read k, w => exec_bind g (k w.working) w
  | .now k, w => exec_bind g (k w.clock) w
  | .draw k, w => exec_bind g (k (w.draws 0)) _
  | .write _ k, _ => exec_bind g k _
  | .commit k, _ => exec_bind g k _

theorem exec_map (f : α → β) (p : Prog σ L ι ε α) (w : World σ ι) :
    exec (f <$> p) w =
      match exec p w with
      | (.ok a, w') => (.ok (f a), w')
      | (.error e, w') => (.error e, w') :=
  exec_bind (fun a => pure (f a)) p w

/-- A sequence succeeds when its parts do, one after the other. -/
theorem exec_bind_ok {p : Prog σ L ι ε α} {g : α → Prog σ L ι ε β} {w w' : World σ ι} {b : β} :
    exec (p >>= g) w = (.ok b, w') ↔
      ∃ a w₁, exec p w = (.ok a, w₁) ∧ exec (g a) w₁ = (.ok b, w') := by
  rw [exec_bind]
  constructor
  · intro h
    match hp : exec p w, h with
    | (.ok a, w₁), h => exact ⟨a, w₁, rfl, h⟩
    | (.error e, w₁), h => simp at h
  · rintro ⟨a, w₁, hp, hg⟩
    rw [hp]
    exact hg

section Statements

variable (w : World σ ι)

@[simp] theorem exec_pure (a : α) : exec (pure a : Prog σ L ι ε α) w = (.ok a, w) := rfl

@[simp] theorem exec_acquire (l : L) (m : Mode) :
    exec (acquire l m : Prog σ L ι ε Unit) w = (.ok (), w) := rfl

@[simp] theorem exec_snapshot : exec (snapshot : Prog σ L ι ε σ) w = (.ok w.working, w) := rfl

@[simp] theorem exec_readClock : exec (readClock : Prog σ L ι ε Int) w = (.ok w.clock, w) := rfl

@[simp] theorem exec_fresh :
    exec (fresh : Prog σ L ι ε ι) w =
      (.ok (w.draws 0), { w with draws := fun n => w.draws (n + 1) }) := rfl

@[simp] theorem exec_update (f : σ → σ) :
    exec (update f : Prog σ L ι ε Unit) w = (.ok (), { w with working := f w.working }) := rfl

@[simp] theorem exec_fail (e : ε) :
    exec (fail e : Prog σ L ι ε α) w = (.error e, { w with working := w.committed }) := rfl

theorem exec_refuseIf {c : Prop} [Decidable c] {e : ε} {u : Unit} {w' : World σ ι} :
    exec (refuseIf c e : Prog σ L ι ε Unit) w = (.ok u, w') ↔ ¬ c ∧ w' = w := by
  unfold refuseIf
  by_cases hc : c
  · simp [hc]
  · simp [hc, eq_comm]

@[simp] theorem exec_updateRow (key : L) (matched : σ → Bool) (f : σ → σ) :
    exec (updateRow key matched f : Prog σ L ι ε Bool) w =
      (.ok (matched w.working),
        if matched w.working then { w with working := f w.working } else w) := by
  unfold updateRow
  by_cases h : matched w.working <;> simp [exec_bind, exec_map, h]

end Statements

/-! ### The body of a transaction -/

/-- A program with no commit of its own whose writes are all in `P`, such as the body of a
transaction. -/
inductive Within (P : (σ → σ) → Prop) : Prog σ L ι ε α → Prop
  | ret (a : α) : Within P (.ret a)
  | throw (e : ε) : Within P (.throw e)
  | lock (l : L) (m : Mode) {k : Prog σ L ι ε α} : Within P k → Within P (.lock l m k)
  | read {k : σ → Prog σ L ι ε α} : (∀ s, Within P (k s)) → Within P (.read k)
  | now {k : Int → Prog σ L ι ε α} : (∀ t, Within P (k t)) → Within P (.now k)
  | draw {k : ι → Prog σ L ι ε α} : (∀ i, Within P (k i)) → Within P (.draw k)
  | write {f : σ → σ} {k : Prog σ L ι ε α} : P f → Within P k → Within P (.write f k)

namespace Within

variable {P Q : (σ → σ) → Prop}

theorem mono (hPQ : ∀ f, P f → Q f) {p : Prog σ L ι ε α} (hp : Within P p) : Within Q p := by
  induction hp with
  | ret a => exact .ret a
  | throw e => exact .throw e
  | lock l m _ ih => exact .lock l m ih
  | read _ ih => exact .read ih
  | now _ ih => exact .now ih
  | draw _ ih => exact .draw ih
  | write hf _ ih => exact .write (hPQ _ hf) ih

theorem bind {p : Prog σ L ι ε α} {g : α → Prog σ L ι ε β} (hp : Within P p)
    (hg : ∀ a, Within P (g a)) : Within P (p >>= g) := by
  induction hp with
  | ret a => exact hg a
  | throw e => exact .throw e
  | lock l m _ ih => exact .lock l m ih
  | read _ ih => exact .read ih
  | now _ ih => exact .now ih
  | draw _ ih => exact .draw ih
  | write hf _ ih => exact .write hf ih

theorem pure (a : α) : Within P (Pure.pure a : Prog σ L ι ε α) := .ret a

theorem acquire (l : L) (m : Mode) : Within P (Txn.acquire l m : Prog σ L ι ε Unit) :=
  .lock l m (.ret ())

theorem snapshot : Within P (Txn.snapshot : Prog σ L ι ε σ) := .read .ret

theorem readClock : Within P (Txn.readClock : Prog σ L ι ε Int) := .now .ret

theorem fresh : Within P (Txn.fresh : Prog σ L ι ε ι) := .draw .ret

theorem update {f : σ → σ} (hf : P f) : Within P (Txn.update f : Prog σ L ι ε Unit) :=
  .write hf (.ret ())

theorem fail (e : ε) : Within P (Txn.fail e : Prog σ L ι ε α) := .throw e

theorem refuseIf {c : Prop} {_ : Decidable c} {e : ε} :
    Within P (Txn.refuseIf c e : Prog σ L ι ε Unit) := by
  unfold Txn.refuseIf
  split_ifs
  · exact fail e
  · exact pure ()

theorem updateRow (key : L) (matched : σ → Bool) {f : σ → σ} (hf : P f) :
    Within P (Txn.updateRow key matched f : Prog σ L ι ε Bool) := by
  refine bind snapshot fun s => ?_
  split_ifs
  · refine bind (acquire _ _) fun _ => bind snapshot fun s => ?_
    split_ifs
    · exact bind (update hf) fun _ => pure _
    · exact pure _
  · exact pure _

theorem forM {f : α → Prog σ L ι ε Unit} (hf : ∀ a, Within P (f a)) :
    ∀ l : List α, Within P (l.forM f)
  | [] => pure ()
  | a :: l => bind (hf a) fun _ => forM hf l

theorem mapM {f : α → Prog σ L ι ε β} (hf : ∀ a, Within P (f a)) :
    ∀ l : List α, Within P (l.mapM f)
  | [] => by
    rw [List.mapM_nil]
    exact pure _
  | a :: l => by
    rw [List.mapM_cons]
    exact bind (hf a) fun _ => bind (mapM hf l) fun _ => pure _

/-- What was committed stands. -/
theorem committed {p : Prog σ L ι ε α} (hp : Within P p) (w : World σ ι) :
    (exec p w).2.committed = w.committed := by
  induction hp generalizing w with
  | ret _ => rfl
  | throw _ => rfl
  | lock _ _ _ ih => exact ih w
  | read _ ih => exact ih _ w
  | now _ ih => exact ih _ w
  | draw _ ih => exact ih _ _
  | write _ _ ih => exact ih _

/-- **Frame rule.**  What no write changes stands. -/
theorem frame {p : Prog σ L ι ε α} (hp : Within P p) {view : σ → β}
    (hview : ∀ f, P f → ∀ s, view (f s) = view s) {w w' : World σ ι} {a : α}
    (h : exec p w = (.ok a, w')) : view w'.working = view w.working := by
  induction hp generalizing w with
  | ret _ =>
    obtain ⟨-, rfl⟩ := Prod.mk.inj h
    rfl
  | throw _ => cases h
  | lock _ _ _ ih => exact ih h
  | read _ ih => exact ih _ h
  | now _ ih => exact ih _ h
  | draw _ ih => exact (ih _ h).trans rfl
  | write hf _ ih => exact (ih h).trans (hview _ hf _)

end Within

/-- A program that, when it fails, leaves what was committed before it. -/
def FailsClean (p : Prog σ L ι ε α) : Prop :=
  ∀ (w w' : World σ ι) (e : ε), exec p w = (.error e, w') → w'.committed = w.committed

namespace FailsClean

variable {P : (σ → σ) → Prop}

theorem of_within {p : Prog σ L ι ε α} (hp : Within P p) : FailsClean p := by
  intro w w' e h
  rw [← hp.committed w, h]

/-- Statements before the transaction write nothing that stays. -/
theorem bind {p : Prog σ L ι ε α} {g : α → Prog σ L ι ε β} (hp : Within P p)
    (hg : ∀ a, FailsClean (g a)) : FailsClean (p >>= g) := by
  intro w w' e h
  have hc := hp.committed w
  rw [exec_bind] at h
  match hrun : exec p w, h with
  | (.ok a, w₁), h =>
    rw [hrun] at hc
    exact (hg a w₁ w' e h).trans hc
  | (.error e', w₁), h =>
    rw [hrun] at hc
    rw [← (Prod.mk.inj h).2]
    exact hc

theorem transaction {body : Prog σ L ι ε α} (hbody : Within P body) :
    FailsClean (Txn.transaction body) := by
  intro w w' e h
  have hc := hbody.committed w
  unfold Txn.transaction at h
  rw [exec_bind] at h
  match hrun : exec body w, h with
  | (.ok a, w₁), h => cases h
  | (.error e', w₁), h =>
    rw [hrun] at hc
    rw [← (Prod.mk.inj h).2]
    exact hc

theorem map {p : Prog σ L ι ε α} (hp : FailsClean p) (f : α → β) : FailsClean (f <$> p) := by
  intro w w' e h
  rw [exec_map] at h
  match hrun : exec p w, h with
  | (.ok a, w₁), h => cases h
  | (.error e', w₁), h =>
    obtain ⟨heq, rfl⟩ := Prod.mk.inj h
    exact hp w w₁ e' hrun

/-- A call either leaves the store as it found it, or ran to its end. -/
theorem call {p : Prog σ L ι ε α} (hp : FailsClean p) {t : Int} {draws : ℕ → ι} {s s' : σ}
    {answer : Except ε α} (h : Txn.call p t draws s = (answer, s')) :
    s' = s ∨ ∃ a w', answer = .ok a ∧ exec p ⟨t, draws, s, s⟩ = (.ok a, w') ∧
      s' = w'.committed := by
  obtain ⟨rfl, rfl⟩ := Prod.mk.inj h
  match hrun : exec p ⟨t, draws, s, s⟩ with
  | (.ok a, w') => exact .inr ⟨a, w', rfl, rfl, rfl⟩
  | (.error e, w') => exact .inl (hp _ _ _ hrun)

end FailsClean

/-- A program that keeps a property of the store, whatever it answers. -/
def Keeps (I : σ → Prop) (p : Prog σ L ι ε α) : Prop :=
  ∀ w : World σ ι, I w.committed → I w.working →
    I (exec p w).2.committed ∧ I (exec p w).2.working

namespace Keeps

variable {I : σ → Prop}

theorem of_within {P : (σ → σ) → Prop} (hP : ∀ f, P f → ∀ s, I s → I (f s))
    {p : Prog σ L ι ε α} (hp : Within P p) : Keeps I p := by
  induction hp with
  | ret a => exact fun w hc hw => ⟨hc, hw⟩
  | throw e => exact fun w hc _ => ⟨hc, hc⟩
  | lock l m _ ih => exact fun w hc hw => ih w hc hw
  | read _ ih => exact fun w hc hw => ih _ w hc hw
  | now _ ih => exact fun w hc hw => ih _ w hc hw
  | draw _ ih => exact fun w hc hw => ih _ _ hc hw
  | write hf _ ih => exact fun w hc hw => ih _ hc (hP _ hf _ hw)

theorem bind {p : Prog σ L ι ε α} {g : α → Prog σ L ι ε β} (hp : Keeps I p)
    (hg : ∀ a, Keeps I (g a)) : Keeps I (p >>= g) := by
  intro w hc hw
  have h := hp w hc hw
  rw [exec_bind]
  match hrun : exec p w with
  | (.ok a, w₁) =>
    rw [hrun] at h
    exact hg a w₁ h.1 h.2
  | (.error e, w₁) =>
    rw [hrun] at h
    exact h

theorem readClock {g : Int → Prog σ L ι ε β} (hg : ∀ t, Keeps I (g t)) :
    Keeps I (Txn.readClock >>= g) :=
  fun w hc hw => hg w.clock w hc hw

theorem transaction {body : Prog σ L ι ε α} (hbody : Keeps I body) :
    Keeps I (Txn.transaction body) :=
  bind hbody fun _ _ _ hw => ⟨hw, hw⟩

theorem call {p : Prog σ L ι ε α} (hp : Keeps I p) {t : Int} {draws : ℕ → ι} {s s' : σ}
    {answer : Except ε α} (h : Txn.call p t draws s = (answer, s')) (hs : I s) : I s' := by
  obtain ⟨-, rfl⟩ := Prod.mk.inj h
  exact (hp _ hs hs).1

end Keeps

/-- The clock stands still while a program runs alone. -/
theorem exec_clock : ∀ (p : Prog σ L ι ε α) (w : World σ ι), (exec p w).2.clock = w.clock
  | .ret _, _ => rfl
  | .throw _, _ => rfl
  | .lock _ _ k, w => exec_clock k w
  | .read k, w => exec_clock (k w.working) w
  | .now k, w => exec_clock (k w.clock) w
  | .draw k, w => exec_clock (k (w.draws 0)) _
  | .write _ k, _ => exec_clock k _
  | .commit k, _ => exec_clock k _

theorem exec_clock_of {p : Prog σ L ι ε α} {w w' : World σ ι} {a : Except ε α}
    (h : exec p w = (a, w')) : w'.clock = w.clock := by
  rw [← exec_clock p w, h]

/-- A transaction that succeeds has run its body and committed what the body left. -/
theorem exec_transaction_ok {body : Prog σ L ι ε α} {w w' : World σ ι} {a : α} :
    exec (transaction body) w = (.ok a, w') ↔
      ∃ w₁, exec body w = (.ok a, w₁) ∧ w' = { w₁ with committed := w₁.working } := by
  unfold transaction
  rw [exec_bind_ok]
  constructor
  · rintro ⟨b, w₁, hb, h⟩
    obtain ⟨hab, rfl⟩ := Prod.mk.inj h
    obtain rfl := Except.ok.inj hab
    exact ⟨w₁, hb, rfl⟩
  · rintro ⟨w₁, hb, rfl⟩
    exact ⟨a, w₁, hb, rfl⟩

end Txn
