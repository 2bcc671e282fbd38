import OpenBrf.Txn.Safe

/-!
# Txn.Rows — locking reads and updates of many rows

`SELECT … FOR SHARE` or `FOR UPDATE` of one row, and `UPDATE … WHERE` or `DELETE … WHERE` of the
rows that match.  Each finds its rows, waits for their locks, and looks again at what it waited
for; a row that no longer matches is passed over.
-/

namespace Txn

variable {σ L κ ι ε α ν : Type}

/-- A locking read of one row, as it stands once nobody else holds it. -/
def readLocked (key : L) (m : Mode) (find : σ → Option α) : Prog σ L ι ε (Option α) := do
  let s ← snapshot
  if (find s).isSome then
    acquire key m
    let s ← snapshot
    return find s
  else return none

/-- Writes the rows that match, and says which they were. -/
def updateRows [DecidableEq ν] (key : ν → L) (matched : σ → List ν) (f : List ν → σ → σ) :
    Prog σ L ι ε (List ν) := do
  let s ← snapshot
  let found := matched s
  found.forM fun row => acquire (key row) .exclusive
  let s ← snapshot
  let rows := found.filter (· ∈ matched s)
  update (f rows)
  return rows

/-- Nothing is written. -/
abbrev Reading (p : Prog σ L ι ε α) : Prop := Within (fun _ : σ → σ => False) p

section Safe

variable {D : Discipline σ L κ} {prompt : L → Prop} {c : Ctx σ L}

/-- A program that writes nothing goes on with what it held, knew and had written. -/
theorem safe_reading {p : Prog σ L ι ε α} (hp : Reading p) {Q : α → Ctx σ L → Prop}
    (h : ∀ a c', c.Since c' → c'.pending = c.pending → Q a c') : Safe D prompt p Q c := by
  induction hp generalizing c with
  | ret a => exact h a c (.refl c) rfl
  | throw e => exact trivial
  | lock l m _ ih =>
    intro t s _ _ _
    refine ih fun a c' hsince hpending => h a c' (.trans ?_ hsince) hpending
    exact ((Ctx.Since.refl c).acquire l m).observe t s
  | read _ ih =>
    intro t s _ _
    refine ih _ fun a c' hsince hpending => h a c' (.trans ?_ hsince) hpending
    exact (Ctx.Since.refl c).see t s
  | now _ ih =>
    intro t s _ _
    refine ih _ fun a c' hsince hpending => h a c' (.trans ?_ hsince) hpending
    have hseen := (Ctx.Since.refl c).observe (D := D) t s
    exact ⟨hseen.held, hseen.knows, hseen.reads⟩
  | draw _ ih => exact fun i => ih i h
  | write hf _ _ => exact hf.elim

/-- A locking read: what it answers stands as far as its lock keeps it. -/
theorem safe_readLocked {key : L} {m : Mode} {find : σ → Option α}
    {Q : Option α → Ctx σ L → Prop} (hgone : ∀ c', c.Later c' → Q none c')
    (hread : ∀ c' t s a, c.Later c' → (key, m) ∈ c'.held → D.inv t s → c.knows t s →
      find (c.pending s) = some a →
      (∀ t' s', c'.knows t' s' → D.Rely ((key, m) :: c.held) s s') → Q (some a) c') :
    Safe D prompt (readLocked key m find : Prog σ L ι ε (Option α)) Q c := by
  unfold readLocked
  rw [safe_bind, safe_snapshot]
  intro t₀ s₀ _ _
  have hseen := (Ctx.Later.refl c).see (D := D) t₀ s₀
  split_ifs
  · rw [safe_bind, safe_acquire]
    intro t₁ s₁ _ _ _
    have hlocked := (hseen.acquire key m).observe (D := D) t₁ s₁
    rw [safe_bind, safe_snapshot]
    intro t₂ s₂ hinv hknows
    have hlater := hlocked.see (D := D) t₂ s₂
    rw [safe_pure]
    show Q (find (c.pending s₂)) _
    cases hfind : find (c.pending s₂) with
    | none => exact hgone _ hlater
    | some a =>
      refine hread _ t₂ s₂ a hlater List.mem_cons_self hinv (hlocked.knows t₂ s₂ hknows) hfind ?_
      exact fun t' s' hk => hk.2.2
  · rw [safe_pure]
    exact hgone _ hseen

/-- An update of rows: those it writes matched before the locks were taken and after, and what
was seen then stands as far as the locks keep it. -/
theorem safe_updateRows [DecidableEq ν] {key : ν → L} {matched : σ → List ν}
    {f : List ν → σ → σ} {Q : List ν → Ctx σ L → Prop}
    (h : ∀ c' t₁ s₁ t₂ s₂, c.Later c' →
      (∀ row ∈ matched (c.pending s₁), (key row, .exclusive) ∈ c'.held) →
      D.inv t₁ s₁ → c.knows t₁ s₁ → D.inv t₂ s₂ → c.knows t₂ s₂ → D.Rely c.held s₁ s₂ →
      (∀ t' s', c'.knows t' s' → D.Rely c'.held s₂ s') →
      Q ((matched (c.pending s₁)).filter (· ∈ matched (c.pending s₂)))
        (c'.write (f ((matched (c.pending s₁)).filter (· ∈ matched (c.pending s₂)))))) :
    Safe D prompt (updateRows key matched f : Prog σ L ι ε (List ν)) Q c := by
  unfold updateRows
  rw [safe_bind, safe_snapshot]
  intro t₁ s₁ hinv₁ hknows₁
  have hseen := (Ctx.Later.refl c).see (D := D) t₁ s₁
  rw [safe_bind]
  refine safe_acquireAll fun c₁ hlater₁ hheld => ?_
  have hlocked := hseen.trans hlater₁
  rw [safe_bind, safe_snapshot]
  intro t₂ s₂ hinv₂ hknows₂
  have hknows := hlater₁.knows t₂ s₂ hknows₂
  rw [safe_bind, safe_update, safe_pure, hlocked.pending]
  exact h _ t₁ s₁ t₂ s₂ (hlocked.see t₂ s₂) hheld hinv₁ hknows₁ hinv₂ hknows.1 hknows.2.2
    fun t' s' hk => hk.2.2

end Safe

end Txn
