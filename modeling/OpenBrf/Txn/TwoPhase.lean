import Mathlib.Order.Basic
import OpenBrf.Txn.Rows

/-!
# Txn.TwoPhase — locks taken before the rows are read, and held to the end

Where every call takes its locks in the rising order of one rank, no wait is circular.  Where every
call reads only rows it has locked and writes only rows it has locked alone, the calls of a run
that commit do, in the order they commit, what they would do one after another.
-/

namespace Txn

variable {σ L ι ε α β ρ : Type}

/-- What one query of the store answers. -/
def query (f : σ → β) : Prog σ L ι ε β := .read fun s => .ret (f s)

@[simp] theorem exec_query (f : σ → β) (w : World σ ι) :
    exec (query f : Prog σ L ι ε β) w = (.ok (f w.working), w) := rfl

@[simp] theorem exec_readLocked (key : L) (m : Mode) (find : σ → Option α) (w : World σ ι) :
    exec (readLocked key m find : Prog σ L ι ε (Option α)) w = (.ok (find w.working), w) := by
  unfold readLocked
  cases hfound : find w.working <;> simp [exec_bind, exec_map, hfound]

/-! ### What one step does to a process -/

/-- One statement of a process beside a store. -/
inductive Moves (s : σ) : Process σ L ι ε → Process σ L ι ε → Prop
  | lock {q : Process σ L ι ε} {l : L} {m : Mode} {k : Prog σ L ι ε Unit} : q.prog = .lock l m k →
      Moves s q { q with prog := k, held := (l, m) :: q.held }
  | read {q : Process σ L ι ε} {k : σ → Prog σ L ι ε Unit} : q.prog = .read k →
      Moves s q { q with prog := k (q.pending s), reads := ⟨q.held, s⟩ :: q.reads }
  | now {q : Process σ L ι ε} {k : Int → Prog σ L ι ε Unit} (t : Int) : q.prog = .now k →
      Moves s q { q with prog := k t, lastNow := some t }
  | draw {q : Process σ L ι ε} {k : ι → Prog σ L ι ε Unit} (v : ι) : q.prog = .draw k →
      Moves s q { q with prog := k v }
  | write {q : Process σ L ι ε} {f : σ → σ} {k : Prog σ L ι ε Unit} : q.prog = .write f k →
      Moves s q { q with prog := k, pending := f ∘ q.pending }
  | commit {q : Process σ L ι ε} {k : Prog σ L ι ε Unit} : q.prog = .commit k →
      Moves s q (.start k)

/-- A process after a step stood there before it, was called by it, or made one statement. -/
theorem moves_of_step {sys : System σ L ι ε} {c c' : Config σ L ι ε} (h : Step sys c c') {i : ℕ}
    {q' : Process σ L ι ε} (hq' : q' ∈ c'.processes i) :
    q' ∈ c.processes i ∨ (c.processes i = none ∧ ∃ p, sys.calls p ∧ q' = .start p) ∨
      ∃ q ∈ c.processes i, Moves c.store q q' := by
  -- a step sets one process, and those beside it stand
  have hset : ∀ (d : Config σ L ι ε) (j : ℕ) (o : Option (Process σ L ι ε)),
      q' ∈ (d.set j o).processes i → (i = j ∧ q' ∈ o) ∨ q' ∈ d.processes i := by
    intro d j o hmem
    by_cases hij : i = j
    · subst hij
      rw [Config.set_self] at hmem
      exact .inl ⟨rfl, hmem⟩
    · rw [Config.set_of_ne _ hij] at hmem
      exact .inr hmem
  cases h with
  | tick _ => exact .inl hq'
  | spawn hnone hp =>
    rcases hset _ _ _ hq' with ⟨rfl, hmem⟩ | hmem
    · exact .inr (.inl ⟨hnone, _, hp, (Option.some.inj hmem).symm⟩)
    · exact .inl hmem
  | stop =>
    rcases hset _ _ _ hq' with ⟨-, hmem⟩ | hmem
    · cases hmem
    · exact .inl hmem
  | lock hq hprog _ _ =>
    rcases hset _ _ _ hq' with ⟨rfl, hmem⟩ | hmem
    · exact .inr (.inr ⟨_, hq, Option.some.inj hmem ▸ .lock hprog⟩)
    · exact .inl hmem
  | read hq hprog =>
    rcases hset _ _ _ hq' with ⟨rfl, hmem⟩ | hmem
    · exact .inr (.inr ⟨_, hq, Option.some.inj hmem ▸ .read hprog⟩)
    · exact .inl hmem
  | now hq hprog =>
    rcases hset _ _ _ hq' with ⟨rfl, hmem⟩ | hmem
    · exact .inr (.inr ⟨_, hq, Option.some.inj hmem ▸ .now _ hprog⟩)
    · exact .inl hmem
  | draw v hq hprog =>
    rcases hset _ _ _ hq' with ⟨rfl, hmem⟩ | hmem
    · exact .inr (.inr ⟨_, hq, Option.some.inj hmem ▸ .draw v hprog⟩)
    · exact .inl hmem
  | write hq hprog =>
    rcases hset _ _ _ hq' with ⟨rfl, hmem⟩ | hmem
    · exact .inr (.inr ⟨_, hq, Option.some.inj hmem ▸ .write hprog⟩)
    · exact .inl hmem
  | commit hq hprog =>
    rcases hset _ _ _ hq' with ⟨rfl, hmem⟩ | hmem
    · exact .inr (.inr ⟨_, hq, Option.some.inj hmem ▸ .commit hprog⟩)
    · exact .inl hmem

/-! ### Rising programs -/

section Rising

variable [Preorder ρ] (rank : L → ρ)

/-- A program that takes each lock above all it holds; `Q` holds of what it returns and what it
then holds. -/
def Rises : Prog σ L ι ε α → (α → List (L × Mode) → Prop) → List (L × Mode) → Prop
  | .ret a, Q, held => Q a held
  | .throw _, _, _ => True
  | .lock l m k, Q, held => (∀ x ∈ held, rank x.1 < rank l) ∧ Rises k Q ((l, m) :: held)
  | .read k, Q, held => ∀ s, Rises (k s) Q held
  | .now k, Q, held => ∀ t, Rises (k t) Q held
  | .draw k, Q, held => ∀ v, Rises (k v) Q held
  | .write _ k, Q, held => Rises k Q held
  | .commit k, Q, _ => Rises k Q []

variable {rank}

theorem Rises.mono {Q R : α → List (L × Mode) → Prop} (hQR : ∀ a held, Q a held → R a held) :
    ∀ {p : Prog σ L ι ε α} {x : List (L × Mode)}, Rises rank p Q x → Rises rank p R x
  | .ret a, held, h => hQR a held h
  | .throw _, _, _ => trivial
  | .lock _ _ k, _, h => ⟨h.1, Rises.mono (p := k) hQR h.2⟩
  | .read k, _, h => fun s => Rises.mono (p := k s) hQR (h s)
  | .now k, _, h => fun t => Rises.mono (p := k t) hQR (h t)
  | .draw k, _, h => fun v => Rises.mono (p := k v) hQR (h v)
  | .write _ k, x, h => Rises.mono (p := k) (x := x) hQR h
  | .commit k, _, h => Rises.mono (p := k) (x := []) hQR h

theorem rises_bind {g : α → Prog σ L ι ε β} {Q : β → List (L × Mode) → Prop} :
    ∀ {p : Prog σ L ι ε α} {x : List (L × Mode)},
      Rises rank (p >>= g) Q x ↔ Rises rank p (fun a held => Rises rank (g a) Q held) x
  | .ret _, _ => Iff.rfl
  | .throw _, _ => Iff.rfl
  | .lock _ _ k, _ => and_congr_right fun _ => rises_bind (p := k)
  | .read k, _ => forall_congr' fun s => rises_bind (p := k s)
  | .now k, _ => forall_congr' fun t => rises_bind (p := k t)
  | .draw k, _ => forall_congr' fun v => rises_bind (p := k v)
  | .write _ k, x => rises_bind (p := k) (x := x)
  | .commit k, _ => rises_bind (p := k) (x := [])

theorem rises_pure {a : α} {Q : α → List (L × Mode) → Prop} {held : List (L × Mode)}
    (h : Q a held) : Rises rank (pure a : Prog σ L ι ε α) Q held := h

theorem rises_fail {e : ε} {Q : α → List (L × Mode) → Prop} {held : List (L × Mode)} :
    Rises rank (fail e : Prog σ L ι ε α) Q held := trivial

theorem rises_update {f : σ → σ} {Q : Unit → List (L × Mode) → Prop} {held : List (L × Mode)}
    (h : Q () held) : Rises rank (update f : Prog σ L ι ε Unit) Q held := h

theorem rises_query {f : σ → β} {Q : β → List (L × Mode) → Prop} {held : List (L × Mode)}
    (h : ∀ b, Q b held) : Rises rank (query f : Prog σ L ι ε β) Q held := fun s => h (f s)

theorem rises_readLocked {key : L} {m : Mode} {find : σ → Option α}
    {Q : Option α → List (L × Mode) → Prop} {held : List (L × Mode)}
    (habove : ∀ x ∈ held, rank x.1 < rank key) (hgone : Q none held)
    (hread : ∀ found, Q found ((key, m) :: held)) :
    Rises rank (readLocked key m find : Prog σ L ι ε (Option α)) Q held := by
  intro s
  show Rises rank (if (find s).isSome then _ else _) Q held
  split_ifs
  · exact ⟨habove, fun s' => hread (find s')⟩
  · exact hgone

theorem rises_transaction {body : Prog σ L ι ε α} {Q : α → List (L × Mode) → Prop}
    {held : List (L × Mode)} (h : Rises rank body (fun a _ => Q a []) held) :
    Rises rank (transaction body) Q held := by
  unfold transaction
  rw [rises_bind]
  exact h

/-- What a process does keeps it rising. -/
theorem Rises.moves {s : σ} {q q' : Process σ L ι ε}
    (h : Rises rank q.prog (fun _ _ => True) q.held) (hmoves : Moves s q q') :
    Rises rank q'.prog (fun _ _ => True) q'.held := by
  cases hmoves with
  | lock hprog =>
    rw [hprog] at h
    exact h.2
  | read hprog =>
    rw [hprog] at h
    exact h _
  | now t hprog =>
    rw [hprog] at h
    exact h t
  | draw v hprog =>
    rw [hprog] at h
    exact h v
  | write hprog =>
    rw [hprog] at h
    exact h
  | commit hprog =>
    rw [hprog] at h
    exact h

theorem rises_of_reaches {sys : System σ L ι ε}
    (hcalls : ∀ p, sys.calls p → Rises rank p (fun _ _ => True) []) {s : σ} {t : Int}
    {c : Config σ L ι ε} (hrun : Reaches sys (.quiet s t) c) :
    ∀ i, ∀ q ∈ c.processes i, Rises rank q.prog (fun _ _ => True) q.held := by
  induction hrun with
  | refl =>
    intro i q hq
    cases hq
  | tail _ hstep ih =>
    intro i q' hq'
    rcases moves_of_step hstep hq' with hq | ⟨-, p, hp, rfl⟩ | ⟨q, hq, hmoves⟩
    · exact ih i q' hq
    · exact hcalls p hp
    · exact (ih i q hq).moves hmoves

/-- One process waits for a lock another holds. -/
def WaitsFor (c : Config σ L ι ε) (i j : ℕ) : Prop :=
  ∃ q ∈ c.processes i, ∃ r ∈ c.processes j, ∃ l m k m', i ≠ j ∧ q.prog = .lock l m k ∧
    (l, m') ∈ r.held ∧ ¬ (m = .shared ∧ m' = .shared)

/-- What a process waits for. -/
def Wants (c : Config σ L ι ε) (i : ℕ) (l : L) : Prop :=
  ∃ q ∈ c.processes i, ∃ m k, q.prog = .lock l m k

theorem Wants.unique {c : Config σ L ι ε} {i : ℕ} {l l' : L} (h : Wants c i l)
    (h' : Wants c i l') : l = l' := by
  obtain ⟨q, hq, m, k, hprog⟩ := h
  obtain ⟨q', hq', m', k', hprog'⟩ := h'
  obtain rfl := Option.mem_unique hq hq'
  exact (Prog.lock.inj (hprog.symm.trans hprog')).1

theorem WaitsFor.wants {c : Config σ L ι ε} {i j : ℕ} (h : WaitsFor c i j) : ∃ l, Wants c i l := by
  obtain ⟨q, hq, _, _, l, m, k, _, _, hprog, _⟩ := h
  exact ⟨l, q, hq, m, k, hprog⟩

/-- A process that is waited for wants a lock above the one it is waited for. -/
theorem WaitsFor.rises {c : Config σ L ι ε}
    (hrises : ∀ i, ∀ q ∈ c.processes i, Rises rank q.prog (fun _ _ => True) q.held) {i j : ℕ}
    {l l' : L} (h : WaitsFor c i j) (hl : Wants c i l) (hl' : Wants c j l') : rank l < rank l' := by
  obtain ⟨r', hr', m, k, hprog⟩ := hl'
  have hwants := h
  obtain ⟨q, hq, r, hr, l₀, _, k₀, _, _, hprog₀, hheld, _⟩ := h
  obtain rfl := Option.mem_unique hr hr'
  obtain rfl : l = l₀ := hl.unique ⟨q, hq, _, k₀, hprog₀⟩
  have hj := hrises j r hr
  rw [hprog] at hj
  exact hj.1 _ hheld

/-- **No wait is circular** where every call takes its locks in rising order. -/
theorem no_circular_wait (rank : L → ρ) {sys : System σ L ι ε}
    (hcalls : ∀ p, sys.calls p → Rises rank p (fun _ _ => True) []) {s : σ} {t : Int}
    {c : Config σ L ι ε} (hrun : Reaches sys (.quiet s t) c) (i : ℕ) :
    ¬ Relation.TransGen (WaitsFor c) i i := by
  have hrises := rises_of_reaches hcalls hrun
  -- along a chain of waits what is wanted rises
  have hchain : ∀ j, Relation.TransGen (WaitsFor c) i j → ∀ l l', Wants c i l → Wants c j l' →
      rank l < rank l' := by
    intro j h
    induction h with
    | single h => exact fun l l' hl hl' => h.rises hrises hl hl'
    | tail _ h ih =>
      intro l l' hl hl'
      obtain ⟨l₁, hl₁⟩ := h.wants
      exact (ih l l₁ hl hl₁).trans (h.rises hrises hl₁ hl')
  intro h
  obtain ⟨j, hfirst, -⟩ := Relation.TransGen.head'_iff.mp h
  obtain ⟨l, hl⟩ := hfirst.wants
  exact lt_irrefl _ (hchain i h l l hl hl)

end Rising

/-! ### Programs that keep to what they have locked -/

/-- A store as rows under the keys that lock them, and a part of it no call changes. -/
structure Layout (σ L ρ τ : Type) where
  row : L → σ → ρ
  fixed : σ → τ

namespace Layout

variable {τ : Type} (T : Layout σ L ρ τ)

/-- Two stores alike in what is locked and in what nobody changes. -/
def Agree (held : List (L × Mode)) (s s' : σ) : Prop :=
  T.fixed s = T.fixed s' ∧ ∀ x ∈ held, T.row x.1 s = T.row x.1 s'

/-- Writes that change only rows locked alone. -/
def Owns (held : List (L × Mode)) (w : σ → σ) : Prop :=
  ∀ s, T.fixed (w s) = T.fixed s ∧ ∀ l, (l, .exclusive) ∉ held → T.row l (w s) = T.row l s

variable {T}

theorem Agree.refl (held : List (L × Mode)) (s : σ) : T.Agree held s s := ⟨rfl, fun _ _ => rfl⟩

theorem Agree.symm {held : List (L × Mode)} {s s' : σ} (h : T.Agree held s s') :
    T.Agree held s' s := ⟨h.1.symm, fun x hx => (h.2 x hx).symm⟩

theorem Agree.tail {held : List (L × Mode)} {x : L × Mode} {s s' : σ}
    (h : T.Agree (x :: held) s s') : T.Agree held s s' :=
  ⟨h.1, fun y hy => h.2 y (List.mem_cons_of_mem _ hy)⟩

/-- What one process writes leaves alike what another has locked. -/
theorem Owns.agree {held held' : List (L × Mode)} {w : σ → σ} (h : T.Owns held w) (s : σ)
    (hapart : ∀ l m m', (l, m) ∈ held → (l, m') ∈ held' → m = .shared ∧ m' = .shared) :
    T.Agree held' s (w s) := by
  refine ⟨(h s).1.symm, fun x hx => ?_⟩
  refine ((h s).2 x.1 fun hmem => ?_).symm
  cases (hapart x.1 .exclusive x.2 hmem hx).1

end Layout

section Locked

variable {τ : Type} (T : Layout σ L ρ τ)

/-- A program whose reads answer the same on stores alike in what it has locked, whose writes are
of rows it has locked alone, and whose one commit is its last statement; `Q` holds of what it
returns, what it then holds and what it has written. -/
def Locked : Prog σ L ι ε α → (α → List (L × Mode) → (σ → σ) → Prop) → List (L × Mode) →
    (σ → σ) → Prop
  | .ret a, Q, held, w => Q a held w
  | .throw _, _, _, _ => True
  | .lock l m k, Q, held, w => Locked k Q ((l, m) :: held) w
  | .read k, Q, held, w => (∀ s s', T.Agree held s s' → k (w s) = k (w s')) ∧
      ∀ s, Locked (k (w s)) Q held w
  | .now _, _, _, _ => False
  | .draw _, _, _, _ => False
  | .write f k, Q, held, w => Locked k Q held (f ∘ w)
  | .commit k, _, held, w => T.Owns held w ∧ ∃ a, k = .ret a

/-- A program with no commit of its own. -/
abbrev Uncommitted (p : Prog σ L ι ε α) : Prop := Within (fun _ => True) p

/-- A call that keeps to what it has locked. -/
def LockedCall (p : Prog σ L ι ε Unit) : Prop := Locked T p (fun _ _ _ => True) [] id

variable {T}

theorem Locked.mono {Q R : α → List (L × Mode) → (σ → σ) → Prop}
    (hQR : ∀ a held w, Q a held w → R a held w) :
    ∀ {p : Prog σ L ι ε α} {x : List (L × Mode)} {w : σ → σ}, Locked T p Q x w → Locked T p R x w
  | .ret a, held, w, h => hQR a held w h
  | .throw _, _, _, _ => trivial
  | .lock l m k, x, w, h => Locked.mono (p := k) (x := (l, m) :: x) (w := w) hQR h
  | .read k, _, w, h => ⟨h.1, fun s => Locked.mono (p := k (w s)) hQR (h.2 s)⟩
  | .now _, _, _, h => h.elim
  | .draw _, _, _, h => h.elim
  | .write f k, x, w, h => Locked.mono (p := k) (x := x) (w := f ∘ w) hQR h
  | .commit _, _, _, h => h

theorem locked_bind {p : Prog σ L ι ε α} (hp : Uncommitted p) {g : α → Prog σ L ι ε β}
    {Q : β → List (L × Mode) → (σ → σ) → Prop} {held : List (L × Mode)} {w : σ → σ}
    (h : Locked T p (fun a held' w' => Locked T (g a) Q held' w') held w) :
    Locked T (p >>= g) Q held w := by
  induction hp generalizing held w with
  | ret a => exact h
  | throw e => exact trivial
  | lock l m _ ih => exact ih h
  | read _ ih =>
    refine ⟨fun s s' hagree => ?_, fun s => ih _ (h.2 s)⟩
    show Prog.bind _ g = Prog.bind _ g
    rw [h.1 s s' hagree]
  | now _ _ => exact h.elim
  | draw _ _ => exact h.elim
  | write _ _ ih => exact ih h

variable {Q : α → List (L × Mode) → (σ → σ) → Prop} {held : List (L × Mode)} {w : σ → σ}

theorem locked_pure {a : α} (h : Q a held w) : Locked T (pure a : Prog σ L ι ε α) Q held w := h

theorem locked_fail {e : ε} : Locked T (fail e : Prog σ L ι ε α) Q held w := trivial

theorem locked_update {f : σ → σ} {Q : Unit → List (L × Mode) → (σ → σ) → Prop}
    (h : Q () held (f ∘ w)) : Locked T (update f : Prog σ L ι ε Unit) Q held w := h

theorem locked_query {f : σ → α} (hagree : ∀ s s', T.Agree held s s' → f (w s) = f (w s'))
    (h : ∀ s, Q (f (w s)) held w) : Locked T (query f : Prog σ L ι ε α) Q held w :=
  ⟨fun s s' hs => congrArg Prog.ret (hagree s s' hs), h⟩

/-- A locking read: whether there is a row has to stand with no lock, and what it says with the
row's. -/
theorem locked_readLocked {key : L} {m : Mode} {find : σ → Option α}
    {Q : Option α → List (L × Mode) → (σ → σ) → Prop}
    (hthere : ∀ s s', T.Agree held s s' → (find (w s)).isSome = (find (w s')).isSome)
    (hfound : ∀ s s', T.Agree ((key, m) :: held) s s' → find (w s) = find (w s'))
    (hgone : Q none held w) (hread : ∀ found, Q found ((key, m) :: held) w) :
    Locked T (readLocked key m find : Prog σ L ι ε (Option α)) Q held w := by
  refine ⟨fun s s' hs => ?_, fun s => ?_⟩
  · show (if (find (w s)).isSome then _ else _) = if (find (w s')).isSome then _ else _
    rw [hthere s s' hs]
  · show Locked T (if (find (w s)).isSome then _ else _) Q held w
    split_ifs
    · refine ⟨fun s s' hs => ?_, fun s' => hread (find (w s'))⟩
      show Prog.ret (find (w s)) = Prog.ret (find (w s'))
      rw [hfound s s' hs]
    · exact hgone

theorem uncommitted_query (f : σ → β) : Uncommitted (query f : Prog σ L ι ε β) := .read fun s => .ret (f s)

theorem uncommitted_readLocked (key : L) (m : Mode) (find : σ → Option α) :
    Uncommitted (readLocked key m find : Prog σ L ι ε (Option α)) := by
  refine .read fun s => ?_
  show Uncommitted (if (find s).isSome then _ else _)
  split_ifs
  · exact .lock key m (.read fun s' => .ret (find s'))
  · exact .ret none

theorem uncommitted_foldlM {f : β → α → Prog σ L ι ε β} (hf : ∀ b a, Uncommitted (f b a)) :
    ∀ (l : List α) (b : β), Uncommitted (l.foldlM f b)
  | [], b => .ret b
  | a :: l, b => by
    rw [List.foldlM_cons]
    exact .bind (hf b a) fun b' => uncommitted_foldlM hf l b'

/-! ### What a call does alone -/

/-- Where a call run alone on a store gets to, before it commits: what is left of it, the locks it
holds and its writes. -/
inductive Alone (s : σ) (p : Prog σ L ι ε Unit) :
    Prog σ L ι ε Unit → List (L × Mode) → (σ → σ) → Prop
  | start : Alone s p p [] id
  | lock {l : L} {m : Mode} {k : Prog σ L ι ε Unit} {held : List (L × Mode)} {w : σ → σ} :
      Alone s p (.lock l m k) held w → Alone s p k ((l, m) :: held) w
  | read {k : σ → Prog σ L ι ε Unit} {held : List (L × Mode)} {w : σ → σ} :
      Alone s p (.read k) held w → Alone s p (k (w s)) held w
  | write {f : σ → σ} {k : Prog σ L ι ε Unit} {held : List (L × Mode)} {w : σ → σ} :
      Alone s p (.write f k) held w → Alone s p k held (f ∘ w)

namespace Alone

variable {s s' : σ} {p q : Prog σ L ι ε Unit}

theorem exec (h : Alone s p q held w) (t : Int) (draws : ℕ → ι) :
    Txn.exec p ⟨t, draws, s, s⟩ = Txn.exec q ⟨t, draws, s, w s⟩ := by
  induction h with
  | start => rfl
  | lock _ ih => exact ih
  | read _ ih => exact ih
  | write _ ih => exact ih

theorem locked (hp : LockedCall T p) (h : Alone s p q held w) :
    Locked T q (fun _ _ _ => True) held w := by
  induction h with
  | start => exact hp
  | lock _ ih => exact ih
  | read _ ih => exact ih.2 s
  | write _ ih => exact ih

/-- **A call gets to the same place on a store alike in what it has locked.** -/
theorem agree (hp : LockedCall T p) (h : Alone s p q held w) (hs : T.Agree held s s') :
    Alone s' p q held w := by
  induction h with
  | start => exact .start
  | lock _ ih => exact .lock (ih hs.tail)
  | @read k held w h ih =>
    have hreads : k (w s) = k (w s') := (h.locked hp).1 s s' hs
    rw [hreads]
    exact .read (ih hs)
  | write _ ih => exact .write (ih hs)

/-- A call that has got to its commit returns, and leaves what it has written. -/
theorem call_commit {u : Unit} (h : Alone s p (.commit (.ret u)) held w) (t : Int)
    (draws : ℕ → ι) : call p t draws s = (.ok (), w s) := by
  unfold call
  rw [h.exec t draws]
  rfl

/-- A call that has got to a failure fails, and leaves the store as it was. -/
theorem call_throw {e : ε} (h : Alone s p (.throw e) held w) (t : Int) (draws : ℕ → ι) :
    call p t draws s = (.error e, s) := by
  unfold call
  rw [h.exec t draws]
  rfl

end Alone

/-- Steps made one after another. -/
def Serially (R : β → σ → σ → Prop) : List β → σ → σ → Prop
  | [], s, s' => s' = s
  | b :: bs, s, s' => ∃ s₁, R b s s₁ ∧ Serially R bs s₁ s'

theorem Serially.concat {R : β → σ → σ → Prop} {b : β} {s₁ s₂ : σ} (hb : R b s₁ s₂) :
    ∀ {bs : List β} {s : σ}, Serially R bs s s₁ → Serially R (bs ++ [b]) s s₂
  | [], _, h => ⟨s₂, h ▸ hb, rfl⟩
  | _ :: _, _, ⟨s₀, h₀, h⟩ => ⟨s₀, h₀, Serially.concat hb h⟩

/-- Steps that are each of some kind are steps of what they are of. -/
theorem Serially.lift {R : β → σ → σ → Prop} {R' : α → σ → σ → Prop} {f : α → β}
    (hR : ∀ a s s', R (f a) s s' → R' a s s') :
    ∀ {bs : List β} {s s' : σ}, (∀ b ∈ bs, ∃ a, b = f a) → Serially R bs s s' →
      ∃ as : List α, bs = as.map f ∧ Serially R' as s s'
  | [], _, _, _, h => ⟨[], rfl, h⟩
  | b :: bs, _, _, hbs, ⟨s₁, hb, h⟩ => by
    obtain ⟨a, rfl⟩ := hbs b List.mem_cons_self
    obtain ⟨as, rfl, has⟩ := Serially.lift hR (fun c hc => hbs c (List.mem_cons_of_mem _ hc)) h
    exact ⟨a :: as, rfl, s₁, hR a _ s₁ hb, has⟩

/-- A call alone that returns. -/
def Returns (p : Prog σ L ι ε Unit) (s s' : σ) : Prop := ∀ t draws, call p t draws s = (.ok (), s')

/-! ### Runs with a record of their calls -/

/-- What each process was called with, and the calls that have committed, the first first. -/
structure Record (σ L ι ε : Type) where
  called : ℕ → Option (Prog σ L ι ε Unit)
  committed : List (Prog σ L ι ε Unit)

/-- Nothing has been called. -/
def Record.empty : Record σ L ι ε := ⟨fun _ => none, []⟩

/-- No process is new, and none has committed. -/
def Between (c c' : Config σ L ι ε) : Prop :=
  ∀ i, ∀ q' ∈ c'.processes i, ∃ q ∈ c.processes i, q' = q ∨ ∀ k, q.prog ≠ .commit k

/-- A run, and the record of it. -/
inductive Recorded (sys : System σ L ι ε) (c₀ : Config σ L ι ε) :
    Config σ L ι ε → Record σ L ι ε → Prop
  | start : Recorded sys c₀ c₀ .empty
  | spawn {c : Config σ L ι ε} {h : Record σ L ι ε} {i : ℕ} {p : Prog σ L ι ε Unit} :
      Recorded sys c₀ c h → c.processes i = none → sys.calls p →
      Recorded sys c₀ (c.set i (some (.start p)))
        { h with called := Function.update h.called i (some p) }
  | commit {c : Config σ L ι ε} {h : Record σ L ι ε} {i : ℕ} {q : Process σ L ι ε}
      {p k : Prog σ L ι ε Unit} : Recorded sys c₀ c h → c.processes i = some q →
      q.prog = .commit k → h.called i = some p →
      Recorded sys c₀ ({ c with store := q.pending c.store }.set i (some (.start k)))
        { h with committed := h.committed ++ [p] }
  | other {c c' : Config σ L ι ε} {h : Record σ L ι ε} : Recorded sys c₀ c h → Step sys c c' →
      c'.store = c.store → Between c c' → Recorded sys c₀ c' h

theorem Recorded.reaches {sys : System σ L ι ε} {c₀ c : Config σ L ι ε} {h : Record σ L ι ε}
    (hrun : Recorded sys c₀ c h) : Reaches sys c₀ c := by
  induction hrun with
  | start => exact .refl
  | spawn _ hnone hp ih => exact ih.tail (.spawn hnone hp)
  | commit _ hq hprog _ ih => exact ih.tail (.commit hq hprog)
  | other _ hstep _ _ ih => exact ih.tail hstep

/-- One process makes a statement that is no commit, or is gone. -/
theorem between_set {c : Config σ L ι ε} {i : ℕ} {o : Option (Process σ L ι ε)}
    (h : ∀ q' ∈ o, ∃ q ∈ c.processes i, ∀ k, q.prog ≠ .commit k) : Between c (c.set i o) := by
  intro j q' hq'
  by_cases hj : j = i
  · subst hj
    rw [Config.set_self] at hq'
    obtain ⟨q, hq, hcommit⟩ := h q' hq'
    exact ⟨q, hq, .inr hcommit⟩
  · rw [Config.set_of_ne _ hj] at hq'
    exact ⟨q', hq', .inl rfl⟩

/-- Every process of a run was called with something. -/
theorem Recorded.called {sys : System σ L ι ε} {s : σ} {t : Int} {c : Config σ L ι ε}
    {h : Record σ L ι ε} (hrun : Recorded sys (.quiet s t) c h) :
    ∀ i, ∀ q ∈ c.processes i, ∃ p, h.called i = some p := by
  have hset : ∀ (h : Record σ L ι ε) (c : Config σ L ι ε) (i : ℕ) (q₀ : Process σ L ι ε),
      (∃ p, h.called i = some p) → (∀ j, ∀ q ∈ c.processes j, ∃ p, h.called j = some p) →
      ∀ j, ∀ q ∈ (c.set i (some q₀)).processes j, ∃ p, h.called j = some p := by
    intro h c i q₀ hi hc j q hq
    by_cases hj : j = i
    · subst hj
      exact hi
    · rw [Config.set_of_ne _ hj] at hq
      exact hc j q hq
  induction hrun with
  | start =>
    intro i q hq
    cases hq
  | @spawn c h i p _ _ _ ih =>
    refine hset _ c i _ ⟨p, Function.update_self ..⟩ fun j q hq => ?_
    by_cases hj : j = i
    · subst hj
      exact ⟨p, Function.update_self ..⟩
    · obtain ⟨p', hp'⟩ := ih j q hq
      exact ⟨p', (Function.update_of_ne hj ..).trans hp'⟩
  | @commit c h i q p k _ hq _ hcalled ih =>
    exact hset _ { c with store := q.pending c.store } i _ ⟨p, hcalled⟩ ih
  | other _ _ _ hbetween ih =>
    intro i q' hq'
    obtain ⟨q, hq, -⟩ := hbetween i q' hq'
    exact ih i q hq

/-- **Every run has a record.** -/
theorem recorded_of_reaches {sys : System σ L ι ε} {s : σ} {t : Int} {c : Config σ L ι ε}
    (hrun : Reaches sys (.quiet s t) c) : ∃ h, Recorded sys (.quiet s t) c h := by
  induction hrun with
  | refl => exact ⟨_, .start⟩
  | tail _ hstep ih =>
    obtain ⟨h, hrec⟩ := ih
    -- a statement that is no commit leaves the store and the record
    have hother : ∀ {i : ℕ} {q q' : Process σ L ι ε} {c : Config σ L ι ε}, c.processes i = some q →
        (∀ k, q.prog ≠ .commit k) → Between c (c.set i (some q')) :=
      fun hq hcommit => between_set fun _ _ => ⟨_, hq, hcommit⟩
    cases hstep with
    | tick ht => exact ⟨h, .other hrec (.tick ht) rfl fun i q hq => ⟨q, hq, .inl rfl⟩⟩
    | spawn hnone hp => exact ⟨_, .spawn hrec hnone hp⟩
    | stop => exact ⟨h, .other hrec .stop rfl (between_set fun q hq => by cases hq)⟩
    | lock hq hprog hgrants hprompt =>
      exact ⟨h, .other hrec (.lock hq hprog hgrants hprompt) rfl
        (hother hq fun k hk => by cases hprog.symm.trans hk)⟩
    | read hq hprog =>
      exact ⟨h, .other hrec (.read hq hprog) rfl
        (hother hq fun k hk => by cases hprog.symm.trans hk)⟩
    | now hq hprog =>
      exact ⟨h, .other hrec (.now hq hprog) rfl
        (hother hq fun k hk => by cases hprog.symm.trans hk)⟩
    | draw v hq hprog =>
      exact ⟨h, .other hrec (.draw v hq hprog) rfl
        (hother hq fun k hk => by cases hprog.symm.trans hk)⟩
    | write hq hprog =>
      exact ⟨h, .other hrec (.write hq hprog) rfl
        (hother hq fun k hk => by cases hprog.symm.trans hk)⟩
    | commit hq hprog =>
      obtain ⟨p, hp⟩ := hrec.called _ _ hq
      exact ⟨_, .commit hrec hq hprog hp⟩

/-- A process after so many of its statements, up to a draw or a commit, on a store and a clock that
stand still. -/
def Process.after (s : σ) (t : Int) : ℕ → Process σ L ι ε → Process σ L ι ε
  | 0, q => q
  | n + 1, q =>
    match q.prog with
    | .lock l m k => Process.after s t n { q with prog := k, held := (l, m) :: q.held }
    | .read k =>
      Process.after s t n { q with prog := k (q.pending s), reads := ⟨q.held, s⟩ :: q.reads }
    | .now k => Process.after s t n { q with prog := k t, lastNow := some t }
    | .write f k => Process.after s t n { q with prog := k, pending := f ∘ q.pending }
    | _ => q

theorem Process.mem_held_after {s : σ} {t : Int} {x : L × Mode} :
    ∀ {n : ℕ} {q : Process σ L ι ε}, x ∈ q.held → x ∈ (q.after s t n).held
  | 0, _, h => h
  | n + 1, q, h => by
    unfold Process.after
    split
    · exact Process.mem_held_after (List.mem_cons_of_mem _ h)
    · exact Process.mem_held_after h
    · exact Process.mem_held_after h
    · exact Process.mem_held_after h
    · exact h

/-- A process goes on while those beside it stand still and hold no lock it takes. -/
theorem Recorded.after {sys : System σ L ι ε} {c₀ c : Config σ L ι ε} {h : Record σ L ι ε} {i : ℕ}
    (hprompt : ∀ l, ¬ sys.prompt l) : ∀ (n : ℕ) (q : Process σ L ι ε),
      (∀ x ∈ (q.after c.store c.clock n).held, c.Grants i x.1 x.2) →
      Recorded sys c₀ (c.set i (some q)) h →
      Recorded sys c₀ (c.set i (some (q.after c.store c.clock n))) h
  | 0, _, _, hrun => hrun
  | n + 1, q, hgrants, hrun => by
    have hself : (c.set i (some q)).processes i = some q := Config.set_self _ _ _
    -- one statement, then the rest
    have hstep : ∀ q' : Process σ L ι ε, (∀ k, q.prog ≠ .commit k) →
        Step sys (c.set i (some q)) ((c.set i (some q)).set i (some q')) →
        Recorded sys c₀ (c.set i (some q')) h := by
      intro q' hcommit hmove
      have hbetween := between_set (c := c.set i (some q)) (i := i) (o := some q')
        fun _ _ => ⟨q, hself, hcommit⟩
      have hone := hrun.other hmove rfl hbetween
      rwa [Config.set_set] at hone
    unfold Process.after at hgrants ⊢
    cases hprog : q.prog with
    | lock l m k =>
      rw [hprog] at hgrants
      refine Recorded.after hprompt n _ hgrants (hstep _ (fun k hk => by cases hprog.symm.trans hk) ?_)
      refine .lock hself hprog (fun j hj r hr m' hheld => ?_) fun hl => absurd hl (hprompt l)
      rw [Config.set_of_ne _ hj] at hr
      exact hgrants (l, m) (Process.mem_held_after List.mem_cons_self) j hj r hr m' hheld
    | read k =>
      rw [hprog] at hgrants
      exact Recorded.after hprompt n _ hgrants
        (hstep _ (fun k hk => by cases hprog.symm.trans hk) (.read hself hprog))
    | now k =>
      rw [hprog] at hgrants
      exact Recorded.after hprompt n _ hgrants
        (hstep _ (fun k hk => by cases hprog.symm.trans hk) (.now hself hprog))
    | write f k =>
      rw [hprog] at hgrants
      exact Recorded.after hprompt n _ hgrants
        (hstep _ (fun k hk => by cases hprog.symm.trans hk) (.write hself hprog))
    | ret _ => exact hrun
    | throw _ => exact hrun
    | draw _ => exact hrun
    | commit _ => exact hrun

/-- What is kept where nothing is asked of a call. -/
def Discipline.free : Discipline σ L Empty where
  inv _ _ := True
  guards k := k.elim
  keeps k := k.elim
  allowed _ _ _ _ := True
  inv_mono _ _ := trivial
  keeps_refl k := k.elim
  keeps_trans {k} := k.elim

theorem safe_free {prompt : L → Prop} {Q : α → Ctx σ L → Prop} (hQ : ∀ a c, Q a c) :
    ∀ (p : Prog σ L ι ε α) (c : Ctx σ L), Safe Discipline.free prompt p Q c
  | .ret a, c => hQ a c
  | .throw _, _ => trivial
  | .lock _ _ k, _ => fun _ _ _ _ _ => safe_free hQ k _
  | .read k, _ => fun _ _ _ _ => safe_free hQ (k _) _
  | .now k, _ => fun t _ _ _ => safe_free hQ (k t) _
  | .draw k, _ => fun v => safe_free hQ (k v) _
  | .write f k, c => safe_free hQ k (c.write f)
  | .commit k, _ => ⟨fun _ _ _ _ => ⟨trivial, trivial, fun k => k.elim⟩, safe_free hQ k _⟩

/-- No lock is held against another. -/
theorem apart_of_reaches {sys : System σ L ι ε} {s : σ} {t : Int} {c : Config σ L ι ε}
    (hrun : Reaches sys (.quiet s t) c) : ∀ i j, j ≠ i → ∀ q ∈ c.processes i,
      ∀ r ∈ c.processes j, ∀ l m m', (l, m) ∈ q.held → (l, m') ∈ r.held →
        m = .shared ∧ m' = .shared :=
  ((valid_quiet (D := Discipline.free) trivial).reaches
    (fun p _ => safe_free (fun _ _ => trivial) p .start) hrun).apart

/-! ### Every run is a serial one -/

/-- What a record says of the store and of the calls under way: the store is what the calls that
have committed leave one after another, and a call under way is where it would be alone. -/
structure Accounted (sys : System σ L ι ε) (s₀ : σ) (c : Config σ L ι ε) (h : Record σ L ι ε) :
    Prop where
  serial : Serially Returns h.committed s₀ c.store
  calls : ∀ p ∈ h.committed, sys.calls p
  called : ∀ i, ∀ q ∈ c.processes i, ∃ p, h.called i = some p ∧ sys.calls p ∧
    ((∃ u, q.prog = .ret u) ∨ Alone c.store p q.prog q.held q.pending)

/-- What a statement other than a commit does alone. -/
theorem Alone.moves {s : σ} {p : Prog σ L ι ε Unit} {q q' : Process σ L ι ε}
    (hp : LockedCall T p) (h : Alone s p q.prog q.held q.pending) (hmoves : Moves s q q')
    (hcommit : ∀ k, q.prog ≠ .commit k) : Alone s p q'.prog q'.held q'.pending := by
  have hlocked := h.locked hp
  cases hmoves with
  | lock hprog =>
    rw [hprog] at h
    exact .lock h
  | read hprog =>
    rw [hprog] at h
    exact .read h
  | now t hprog =>
    rw [hprog] at hlocked
    exact hlocked.elim
  | draw v hprog =>
    rw [hprog] at hlocked
    exact hlocked.elim
  | write hprog =>
    rw [hprog] at h
    exact .write (w := q.pending) h
  | commit hprog => exact absurd hprog (hcommit _)

/-- A step that is no commit leaves a call that has returned where it is. -/
theorem Moves.not_ret {s : σ} {q q' : Process σ L ι ε} (hmoves : Moves s q q') (u : Unit) :
    q.prog ≠ .ret u := by
  intro hret
  cases hmoves with
  | lock hprog => cases hret.symm.trans hprog
  | read hprog => cases hret.symm.trans hprog
  | now t hprog => cases hret.symm.trans hprog
  | draw v hprog => cases hret.symm.trans hprog
  | write hprog => cases hret.symm.trans hprog
  | commit hprog => cases hret.symm.trans hprog

/-- **Every run is a serial one.**  What the calls that have committed leave is what they leave
one after another, in the order they committed. -/
theorem Recorded.accounted {sys : System σ L ι ε} (hcalls : ∀ p, sys.calls p → LockedCall T p)
    {s : σ} {t : Int} {c : Config σ L ι ε} {h : Record σ L ι ε}
    (hrun : Recorded sys (.quiet s t) c h) : Accounted sys s c h := by
  induction hrun with
  | start => exact ⟨rfl, (fun p hp => by cases hp), fun i q hq => by cases hq⟩
  | @spawn c h i p _ _ hp ih =>
    refine ⟨ih.serial, ih.calls, fun j q hq => ?_⟩
    by_cases hj : j = i
    · subst hj
      rw [Config.set_self] at hq
      obtain rfl := Option.some.inj hq
      exact ⟨p, Function.update_self .., hp, .inr .start⟩
    · rw [Config.set_of_ne _ hj] at hq
      obtain ⟨p', hp', hrest⟩ := ih.called j q hq
      exact ⟨p', (Function.update_of_ne hj ..).trans hp', hrest⟩
  | @commit c h i q p k hrun hq hprog hcalled ih =>
    -- the call commits what it leaves alone, and the others have locked none of it
    obtain ⟨p', hp', hcall, hstands⟩ := ih.called i q hq
    obtain rfl : p = p' := Option.some.inj (hcalled.symm.trans hp')
    have halone : Alone c.store p (.commit k) q.held q.pending := by
      rcases hstands with ⟨u, hret⟩ | halone
      · cases hret.symm.trans hprog
      · rwa [hprog] at halone
    obtain ⟨howns, u, rfl⟩ := halone.locked (hcalls p hcall)
    refine ⟨ih.serial.concat fun t draws => halone.call_commit t draws, ?_, fun j r hr => ?_⟩
    · intro p' hp'
      rcases List.mem_append.mp hp' with hmem | hmem
      · exact ih.calls p' hmem
      · rw [List.mem_singleton.mp hmem]
        exact hcall
    · by_cases hj : j = i
      · subst hj
        rw [Config.set_self] at hr
        obtain rfl := Option.some.inj hr
        exact ⟨p, hcalled, hcall, .inl ⟨u, rfl⟩⟩
      · rw [Config.set_of_ne _ hj] at hr
        obtain ⟨p', hp', hcall', hstands'⟩ := ih.called j r hr
        refine ⟨p', hp', hcall', hstands'.imp_right fun halone' => ?_⟩
        exact halone'.agree (hcalls p' hcall')
          (howns.agree c.store (apart_of_reaches hrun.reaches i j hj q hq r hr))
  | other _ hstep hstore hbetween ih =>
    refine ⟨hstore ▸ ih.serial, ih.calls, fun i q' hq' => ?_⟩
    obtain ⟨q₁, hq₁, hsame⟩ := hbetween i q' hq'
    obtain ⟨p, hp, hcall, hstands⟩ := ih.called i q₁ hq₁
    refine ⟨p, hp, hcall, ?_⟩
    rw [hstore]
    rcases hsame with rfl | hcommit
    · exact hstands
    · rcases moves_of_step hstep hq' with hq | ⟨hnone, -⟩ | ⟨q, hq, hmoves⟩
      · obtain rfl := Option.mem_unique hq hq₁
        exact hstands
      · rw [hnone] at hq₁
        cases hq₁
      · obtain rfl := Option.mem_unique hq hq₁
        rcases hstands with ⟨u, hret⟩ | halone
        · exact absurd hret (hmoves.not_ret u)
        · exact .inr (halone.moves (hcalls p hcall) hmoves hcommit)

end Locked
end Txn
