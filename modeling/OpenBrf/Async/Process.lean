import Mathlib.Logic.Relation
import Mathlib.Tactic.Common

/-!
# Async.Process — processes whose statements take effect one at a time

A statement of a program sees the clock, the store and what the world outside answers, changes
the store at once, and hands what it saw to the rest of the program.  Processes take their
statements in any order; one may stop for good between any two of its own.
-/

namespace Async

/-- A program over the store `σ`.  A statement is given one of the answers `ι` it may be given
where it runs. -/
inductive Prog (σ ι ε α : Type) where
  | ret (a : α)
  | throw (e : ε)
  | step (may : Int → σ → ι → Prop) (next : Int → σ → ι → σ) (k : Int → σ → ι → Prog σ ι ε α)

variable {σ ι ε α β γ : Type}

namespace Prog

/-- Sequencing. -/
def bind : Prog σ ι ε α → (α → Prog σ ι ε β) → Prog σ ι ε β
  | ret a, g => g a
  | throw e, _ => throw e
  | step may next k, g => step may next fun t s i => (k t s i).bind g

instance : Monad (Prog σ ι ε) where
  pure := ret
  bind := bind

/-- Runs a program to its end and keeps its failure as a value. -/
def catching : Prog σ ι ε α → Prog σ ι ε (Except ε α)
  | ret a => ret (.ok a)
  | throw e => ret (.error e)
  | step may next k => step may next fun t s i => (k t s i).catching

end Prog

/-! ### The statements of a program -/

/-- A statement on the store, at the time on the clock. -/
def atomic (f : Int → σ → β × σ) : Prog σ ι ε β :=
  .step (fun _ _ _ => True) (fun t s _ => (f t s).2) fun t s _ => .ret (f t s).1

/-- A statement the world outside answers. -/
def ask (may : Int → σ → ι → Prop) (f : Int → σ → ι → σ) : Prog σ ι ε ι :=
  .step may f fun _ _ i => .ret i

/-- Fails. -/
def fail (e : ε) : Prog σ ι ε α := .throw e

/-- The store as it is. -/
def look : Prog σ ι ε σ := atomic fun _ s => (s, s)

/-- Writes, whatever there is. -/
def update (f : σ → σ) : Prog σ ι ε Unit := atomic fun _ s => ((), f s)

/-- The time. -/
def clock : Prog σ ι ε Int := atomic fun t s => (t, s)

/-- What became of a statement: it may fail before it commits, or its answer may be lost. -/
inductive Delivery where
  | answered
  | lost
  | refused
  deriving DecidableEq

/-- A statement in a transaction of its own, run where `enabled`, that throws unless its answer
arrives. -/
def transacted (enabled : Int → Prop) (delivery : ι → Delivery) (e : ε) (f : Int → σ → β × σ) :
    Prog σ ι ε β :=
  .step (fun t _ _ => enabled t) (fun t s i => if delivery i = .refused then s else (f t s).2)
    fun t s i => if delivery i = .answered then .ret (f t s).1 else .throw e

/-! ### Processes beside each other -/

/-- The store, the clock, and what is left of each process. -/
structure Config (σ ι ε : Type) where
  store : σ
  clock : Int
  processes : ℕ → Option (Prog σ ι ε Unit)

namespace Config

/-- Nobody is running. -/
def quiet (s : σ) (t : Int) : Config σ ι ε := ⟨s, t, fun _ => none⟩

def set (c : Config σ ι ε) (i : ℕ) (p : Option (Prog σ ι ε Unit)) : Config σ ι ε :=
  { c with processes := Function.update c.processes i p }

@[simp] theorem set_self (c : Config σ ι ε) (i : ℕ) (p : Option (Prog σ ι ε Unit)) :
    (c.set i p).processes i = p := Function.update_self ..

theorem set_of_ne (c : Config σ ι ε) {i j : ℕ} (h : j ≠ i) (p : Option (Prog σ ι ε Unit)) :
    (c.set i p).processes j = c.processes j := Function.update_of_ne h ..

@[simp] theorem set_set (c : Config σ ι ε) (i : ℕ) (p p' : Option (Prog σ ι ε Unit)) :
    (c.set i p).set i p' = c.set i p' := by
  unfold set
  rw [Function.update_idem]

theorem quiet_set_none (s : σ) (t : Int) (i : ℕ) :
    (quiet s t : Config σ ι ε).set i none = quiet s t := by
  simp [set, quiet]

end Config

/-- One step of one process, or of the clock, where `calls` says which programs may be started. -/
inductive Step (calls : Prog σ ι ε Unit → Prop) : Config σ ι ε → Config σ ι ε → Prop
  | tick {c : Config σ ι ε} {t : Int} : c.clock ≤ t → Step calls c { c with clock := t }
  | spawn {c : Config σ ι ε} {i : ℕ} {p : Prog σ ι ε Unit} : c.processes i = none → calls p →
      Step calls c (c.set i (some p))
  /-- It returned, failed or crashed. -/
  | stop {c : Config σ ι ε} {i : ℕ} : Step calls c (c.set i none)
  | step {c : Config σ ι ε} {i : ℕ} {may : Int → σ → ι → Prop} {next : Int → σ → ι → σ}
      {k : Int → σ → ι → Prog σ ι ε Unit} (x : ι) :
      c.processes i = some (.step may next k) → may c.clock c.store x →
      Step calls c ({ c with store := next c.clock c.store x }.set i
        (some (k c.clock c.store x)))

/-- The configurations a run from `c` reaches. -/
def Reaches (calls : Prog σ ι ε Unit → Prop) : Config σ ι ε → Config σ ι ε → Prop :=
  Relation.ReflTransGen (Step calls)

/-! ### One process with nobody beside it -/

/-- Given these answers one after the other, with the clock standing, a program takes the store
from `s` to `s'`. -/
def Leads (t : Int) : Prog σ ι ε α → List ι → σ → σ → Prop
  | .step may next k, i :: is, s, s' => may t s i ∧ Leads t (k t s i) is (next t s i) s'
  | _, _, s, s' => s' = s

/-- A process alone stops. -/
theorem reaches_stop (calls : Prog σ ι ε Unit → Prop) (t : Int) (s : σ) (j : ℕ)
    (p : Prog σ ι ε Unit) :
    Reaches calls ((Config.quiet s t).set j (some p)) (Config.quiet s t) := by
  have hstop : Step calls ((Config.quiet s t).set j (some p))
      (((Config.quiet s t).set j (some p)).set j none) := .stop
  rw [Config.set_set, Config.quiet_set_none] at hstop
  exact .single hstop

/-- A process alone runs as far as there are answers, and stops. -/
theorem reaches_of_leads {calls : Prog σ ι ε Unit → Prop} {t : Int} {s' : σ} {j : ℕ} :
    ∀ {p : Prog σ ι ε Unit} {is : List ι} {s : σ}, Leads t p is s s' →
      Reaches calls ((Config.quiet s t).set j (some p)) (Config.quiet s' t)
  | .step may next k, i :: is, s, h => by
    have hstep : Step calls ((Config.quiet s t).set j (some (.step may next k)))
        (({ (Config.quiet s t).set j (some (.step may next k)) with
          store := next t s i } : Config σ ι ε).set j (some (k t s i))) :=
      .step i (Config.set_self _ _ _) h.1
    have hset : ({ (Config.quiet s t).set j (some (.step may next k)) with
        store := next t s i } : Config σ ι ε).set j (some (k t s i)) =
        (Config.quiet (next t s i) t).set j (some (k t s i)) := by
      simp [Config.set, Config.quiet]
    rw [hset] at hstep
    exact .head hstep (reaches_of_leads h.2)
  | .ret a, is, s, h => by
    obtain rfl : s' = s := by simpa [Leads] using h
    exact reaches_stop calls t s' j _
  | .throw e, is, s, h => by
    obtain rfl : s' = s := by simpa [Leads] using h
    exact reaches_stop calls t s' j _
  | .step may next k, [], s, h => by
    obtain rfl : s' = s := by simpa [Leads] using h
    exact reaches_stop calls t s' j _

/-- A call made alone. -/
theorem reaches_call {calls : Prog σ ι ε Unit → Prop} {p : Prog σ ι ε Unit} (hp : calls p)
    {t : Int} {is : List ι} {s s' : σ} (h : Leads t p is s s') :
    Reaches calls (.quiet s t) (.quiet s' t) := by
  have hspawn : Step calls (.quiet s t) ((Config.quiet s t).set 0 (some p)) := .spawn rfl hp
  exact .head hspawn (reaches_of_leads h)

end Async
