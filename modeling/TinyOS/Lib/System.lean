import Mathlib.Logic.Function.Basic

/-!
# Transition systems whose steps are partial functions

Every component of the kernel is verified as a transition system: a state, a set of initial
states, and a step function that answers `none` where the action is not enabled. Nothing in this
file mentions a kernel. It supplies the six things those verifications need and none
of them should redo:

* **reachability under a condition** (`Sys.ReachIf C`): the states of the runs *all of whose steps
  meet `C`*. Plain reachability is the instance with no condition. A defect that only some calls
  trigger is described by a `C` that leaves those calls out;
* **the induction over a run**, packaged once (`InductiveIf.reachIf`): an invariant that holds
  initially and is kept by each step holds of every state reached;
* **termination** (`Descends`): a rank that every step lowers bounds the runs;
* **bounded response** (`RunIf.responds`): an event comes before a rank is used up;
* **histories** (`Sys.record`): a record of the run beside the state, for properties of the past;
* **simulation** (`Simulates`): each step of a concrete system is matched by finitely many steps of
  an abstract one, so what the abstract system never does, the concrete one never does either.
  `SimulatesIf` is the same for the steps that meet a condition.
-/

set_option autoImplicit false

namespace Transition

universe u v w x

/-- A transition system. `step s a = none` says that action `a` is not enabled in `s`. -/
structure Sys (σ : Type u) (α : Type v) where
  init : σ → Prop
  step : σ → α → Option σ

namespace Sys

variable {σ : Type u} {α : Type v} (M : Sys σ α)

/-! ## Runs -/

/-- `M.Run s as s'`: performing the actions `as` in order takes `s` to `s'`. -/
inductive Run : σ → List α → σ → Prop
  | nil (s : σ) : Run s [] s
  | cons {s s' s'' : σ} {a : α} {as : List α} :
      M.step s a = some s' → Run s' as s'' → Run s (a :: as) s''

/-- The states reached by the runs all of whose steps meet `C`. The condition reads the state
before the step and the action, never the state after it. -/
inductive ReachIf (C : σ → α → Prop) : σ → Prop
  | init {s : σ} : M.init s → ReachIf C s
  | step {s s' : σ} {a : α} : ReachIf C s → C s a → M.step s a = some s' → ReachIf C s'

/-- The reachable states: no condition on the steps. -/
abbrev Reach (s : σ) : Prop := M.ReachIf (fun _ _ => True) s

variable {M}

theorem Reach.next {s s' : σ} {a : α} (h : M.Reach s) (hs : M.step s a = some s') :
    M.Reach s' := .step h trivial hs

theorem ReachIf.mono {C D : σ → α → Prop} (hCD : ∀ s a, C s a → D s a) {s : σ}
    (h : M.ReachIf C s) : M.ReachIf D s := by
  induction h with
  | init hi => exact .init hi
  | step _ hc hs ih => exact .step ih (hCD _ _ hc) hs

theorem ReachIf.reach {C : σ → α → Prop} {s : σ} (h : M.ReachIf C s) : M.Reach s :=
  h.mono fun _ _ _ => trivial

theorem Run.append {s s' s'' : σ} {as bs : List α} (h₁ : M.Run s as s') (h₂ : M.Run s' bs s'') :
    M.Run s (as ++ bs) s'' := by
  induction h₁ with
  | nil => exact h₂
  | cons hs _ ih => exact .cons hs (ih h₂)

theorem Run.single {s s' : σ} {a : α} (h : M.step s a = some s') : M.Run s [a] s' :=
  .cons h (.nil _)

theorem Run.reach {s s' : σ} {as : List α} (h : M.Run s as s') : M.Reach s → M.Reach s' := by
  induction h with
  | nil => exact id
  | cons hs _ ih => exact fun hr => ih (hr.next hs)

/-! ## Executing a list of actions -/

variable (M) in
/-- Perform the actions in order, stopping with `none` at one that is not enabled or that fails
the check `c`. -/
def exec (c : σ → α → Bool) : σ → List α → Option σ
  | s, [] => some s
  | s, a :: as => if c s a then (M.step s a).bind fun s' => exec c s' as else none

theorem ReachIf.exec {C : σ → α → Prop} {c : σ → α → Bool} (hc : ∀ s a, c s a = true → C s a)
    {s s' : σ} {as : List α} (hr : M.ReachIf C s) (h : M.exec c s as = some s') :
    M.ReachIf C s' := by
  induction as generalizing s with
  | nil =>
    simp only [Sys.exec, Option.some.injEq] at h
    exact h ▸ hr
  | cons a as ih =>
    simp only [Sys.exec] at h
    split at h
    · rename_i hca
      obtain ⟨m, hm, hrest⟩ := Option.bind_eq_some_iff.mp h
      exact ih (.step hr (hc s a hca) hm) hrest
    · exact absurd h (by simp)

/-- How a concrete run is exhibited: execute it, and evaluate what it ends in. -/
theorem reachIf_of_exec {C : σ → α → Prop} (c : σ → α → Bool) (s₀ : σ) (as : List α)
    (p : σ → Bool) (hc : ∀ s a, c s a = true → C s a) (hi : M.init s₀)
    (h : (M.exec c s₀ as).map p = some true) : ∃ s, M.ReachIf C s ∧ p s = true := by
  obtain ⟨s, hs, hp⟩ := Option.map_eq_some_iff.mp h
  exact ⟨s, ReachIf.exec hc (.init hi) hs, hp⟩

/-! ## Invariants -/

variable (M) in
/-- `I` holds initially and is kept by every step that meets `C`. -/
structure InductiveIf (C : σ → α → Prop) (I : σ → Prop) : Prop where
  init : ∀ s, M.init s → I s
  step : ∀ s a s', I s → C s a → M.step s a = some s' → I s'

variable (M) in
/-- `I` holds initially and is kept by every step. -/
abbrev Inductive (I : σ → Prop) : Prop := M.InductiveIf (fun _ _ => True) I

/-- **The induction over a run**, done once for every invariant. -/
theorem InductiveIf.reachIf {C : σ → α → Prop} {I : σ → Prop} (h : M.InductiveIf C I) {s : σ}
    (hr : M.ReachIf C s) : I s := by
  induction hr with
  | init hi => exact h.init _ hi
  | step _ hc hs ih => exact h.step _ _ _ ih hc hs

theorem Inductive.run {I : σ → Prop} (h : M.Inductive I) {s s' : σ} {as : List α}
    (hr : M.Run s as s') : I s → I s' := by
  induction hr with
  | nil => exact id
  | cons hs _ ih => exact fun hi => ih (h.step _ _ _ hi trivial hs)

/-- A fact that every step keeps *unless an event happens* is kept by a run, unless the event
happens at one of its steps. -/
theorem Run.until {I : σ → Prop} {E : σ → α → σ → Prop} {P : σ → Prop}
    (hI : ∀ s a s', I s → M.step s a = some s' → I s')
    (hP : ∀ s a s', I s → P s → M.step s a = some s' → P s' ∨ E s a s')
    {s s' : σ} {as : List α} (hr : M.Run s as s') (hi : I s) (hp : P s) :
    P s' ∨ ∃ pre a post m m', as = pre ++ a :: post ∧ M.Run s pre m ∧ M.step m a = some m' ∧
      M.Run m' post s' ∧ E m a m' := by
  induction hr with
  | nil => exact .inl hp
  | @cons s s₁ s' a as hs hrest ih =>
    rcases hP _ _ _ hi hp hs with hp₁ | he
    · rcases ih (hI _ _ _ hi hs) hp₁ with h | ⟨pre, b, post, m, m', rfl, h₁, h₂, h₃, h₄⟩
      · exact .inl h
      · exact .inr ⟨a :: pre, b, post, m, m', rfl, .cons hs h₁, h₂, h₃, h₄⟩
    · exact .inr ⟨[], a, as, s, s₁, rfl, .nil _, hs, hrest, he⟩

/-! ## Termination -/

variable (M) in
/-- No action is enabled. -/
def Stuck (s : σ) : Prop := ∀ a, M.step s a = none

variable (M) in
/-- Every step lowers the rank of a state in which `I` holds. -/
structure Descends (I : σ → Prop) (rank : σ → Nat) : Prop where
  inv : M.Inductive I
  lt : ∀ s a s', I s → M.step s a = some s' → rank s' < rank s

/-- The rank bounds the runs. -/
theorem Descends.run {I : σ → Prop} {rank : σ → Nat} (h : M.Descends I rank) {s s' : σ}
    {as : List α} (hr : M.Run s as s') (hi : I s) : as.length + rank s' ≤ rank s := by
  induction hr with
  | nil s =>
    rw [List.length_nil]
    omega
  | cons hs _ ih =>
    have hlt := h.lt _ _ _ hi hs
    have hrest := ih (h.inv.step _ _ _ hi trivial hs)
    rw [List.length_cons]
    omega

/-- Every run can be continued to an end. -/
theorem Descends.ends {I : σ → Prop} {rank : σ → Nat} (h : M.Descends I rank) (s : σ) (hi : I s) :
    ∃ as s', M.Run s as s' ∧ M.Stuck s' := by
  by_cases hstuck : M.Stuck s
  · exact ⟨[], s, .nil s, hstuck⟩
  · obtain ⟨a, ha⟩ := not_forall.mp hstuck
    obtain ⟨s₁, hs⟩ := Option.ne_none_iff_exists'.mp ha
    have := h.lt s a s₁ hi hs
    obtain ⟨as, s', hrun, hend⟩ := h.ends s₁ (h.inv.step _ _ _ hi trivial hs)
    exact ⟨a :: as, s', .cons hs hrun, hend⟩
termination_by rank s

/-! ## Histories -/

section

variable {η : Type w} {h₀ : η} {note : σ → α → σ → η → η}

variable (M) in
/-- The system with a history beside its state: `note s a s' h` is what the history `h` becomes
when `a` leads from `s` to `s'`. -/
def record (h₀ : η) (note : σ → α → σ → η → η) : Sys (σ × η) α where
  init x := M.init x.1 ∧ x.2 = h₀
  step x a := (M.step x.1 a).map fun s' => (s', note x.1 a s' x.2)

/-- A history does not change what is reached. -/
theorem ReachIf.of_record {C : σ → α → Prop} {x : σ × η}
    (h : (M.record h₀ note).ReachIf (fun x a => C x.1 a) x) : M.ReachIf C x.1 := by
  induction h with
  | init hi => exact .init hi.1
  | step _ hc hs ih =>
    obtain ⟨s', hs', rfl⟩ := Option.map_eq_some_iff.mp hs
    exact .step ih hc hs'

/-- Every state that is reached has a history. -/
theorem ReachIf.record {C : σ → α → Prop} {s : σ} (hr : M.ReachIf C s) :
    ∃ e, (M.record h₀ note).ReachIf (fun x a => C x.1 a) (s, e) := by
  induction hr with
  | init hi => exact ⟨h₀, .init ⟨hi, rfl⟩⟩
  | @step s s' a _ hc hs ih =>
    obtain ⟨e, he⟩ := ih
    have hstep : (M.record h₀ note).step (s, e) a = some (s', note s a s' e) := by
      show (M.step s a).map _ = _
      rw [hs]
      rfl
    exact ⟨_, .step he hc hstep⟩

end

/-! ## Runs under a condition -/

variable (M) in
/-- A run all of whose steps meet `C`. -/
inductive RunIf (C : σ → α → Prop) : σ → List α → σ → Prop
  | nil (s : σ) : RunIf C s [] s
  | cons {s s' s'' : σ} {a : α} {as : List α} :
      C s a → M.step s a = some s' → RunIf C s' as s'' → RunIf C s (a :: as) s''

theorem RunIf.single {C : σ → α → Prop} {s s' : σ} {a : α} (hc : C s a)
    (h : M.step s a = some s') : M.RunIf C s [a] s' := .cons hc h (.nil _)

theorem RunIf.run {C : σ → α → Prop} {s s' : σ} {as : List α} (h : M.RunIf C s as s') :
    M.Run s as s' := by
  induction h with
  | nil => exact .nil _
  | cons _ hs _ ih => exact .cons hs ih

theorem RunIf.reachIf {C : σ → α → Prop} {s s' : σ} {as : List α} (h : M.RunIf C s as s') :
    M.ReachIf C s → M.ReachIf C s' := by
  induction h with
  | nil => exact id
  | cons hc hs _ ih => exact fun hr => ih (.step hr hc hs)

/-- What is left of a run after its first actions. -/
theorem RunIf.rest {C : σ → α → Prop} {s m s' : σ} {as bs : List α}
    (h : M.RunIf C s (as ++ bs) s') (hfirst : M.Run s as m) : M.RunIf C m bs s' := by
  induction hfirst with
  | nil => exact h
  | cons hs _ ih =>
    cases h with
    | cons _ hs' hrest =>
      obtain rfl := Option.some.inj (hs.symm.trans hs')
      exact ih hrest

theorem RunIf.of_exec {C : σ → α → Prop} {c : σ → α → Bool} (hc : ∀ s a, c s a = true → C s a)
    {s s' : σ} {as : List α} (h : M.exec c s as = some s') : M.RunIf C s as s' := by
  induction as generalizing s with
  | nil =>
    simp only [Sys.exec, Option.some.injEq] at h
    exact h ▸ .nil s
  | cons a as ih =>
    simp only [Sys.exec] at h
    split at h
    · rename_i hca
      obtain ⟨m, hm, hrest⟩ := Option.bind_eq_some_iff.mp h
      exact .cons (hc s a hca) hm (ih hrest)
    · exact absurd h (by simp)

/-- **Bounded response.** `P r` says that at most `r` more of the actions that `counts` names can come
before the event `E`. If each step that is not the event keeps it so, then the event comes in time. -/
theorem RunIf.responds {C : σ → α → Prop} {E : σ → α → σ → Prop} {P : Nat → σ → Prop}
    {counts : α → Bool}
    (hstep : ∀ r s a s', P r s → C s a → M.step s a = some s' →
      E s a s' ∨ ∃ r', P r' s' ∧ r' + (if counts a then 1 else 0) ≤ r)
    {s s' : σ} {as : List α} (hrun : M.RunIf C s as s') :
    ∀ {r : Nat}, P r s → r < as.countP counts →
      ∃ pre a post m m', as = pre ++ a :: post ∧ pre.countP counts ≤ r ∧ M.Run s pre m ∧
        M.step m a = some m' ∧ E m a m' := by
  induction hrun with
  | nil => exact fun _ hr => absurd hr (Nat.not_lt_zero _)
  | @cons s s₁ s' a as hc hs _ ih =>
    intro r hp hr
    rcases hstep r s a s₁ hp hc hs with hevent | ⟨r', hp', hle⟩
    · exact ⟨[], a, as, s, s₁, rfl, Nat.zero_le r, .nil s, hs, hevent⟩
    · rw [List.countP_cons] at hr
      obtain ⟨pre, b, post, m, m', rfl, hpre, hrun, hb, hevent⟩ := ih hp' (by omega)
      refine ⟨a :: pre, b, post, m, m', rfl, ?_, .cons hs hrun, hb, hevent⟩
      rw [List.countP_cons]
      omega

/-! ## Simulation -/

variable {τ : Type w} {β : Type x}

/-- Each step of the concrete system `M` is matched, in related states, by a finite run of the
abstract system `N`. -/
structure Simulates (M : Sys σ α) (N : Sys τ β) (R : σ → τ → Prop) : Prop where
  init : ∀ s, M.init s → ∃ t, N.init t ∧ R s t
  step : ∀ s a s' t, R s t → M.step s a = some s' → ∃ bs t', N.Run t bs t' ∧ R s' t'

/-- Every reachable concrete state is related to a reachable abstract one. -/
theorem Simulates.reach {N : Sys τ β} {R : σ → τ → Prop} (h : Simulates M N R) {s : σ}
    (hr : M.Reach s) : ∃ t, N.Reach t ∧ R s t := by
  induction hr with
  | init hi =>
    obtain ⟨t, ht, hrel⟩ := h.init _ hi
    exact ⟨t, .init ht, hrel⟩
  | step _ _ hs ih =>
    obtain ⟨t, ht, hrel⟩ := ih
    obtain ⟨bs, t', hrun, hrel'⟩ := h.step _ _ _ _ hrel hs
    exact ⟨t', hrun.reach ht, hrel'⟩

/-- Simulation of the steps that meet `C`, by steps that meet `D`. -/
structure SimulatesIf (C : σ → α → Prop) (D : τ → β → Prop) (M : Sys σ α) (N : Sys τ β)
    (R : σ → τ → Prop) : Prop where
  init : ∀ s, M.init s → ∃ t, N.init t ∧ R s t
  step : ∀ s a s' t, R s t → C s a → M.step s a = some s' → ∃ bs t', N.RunIf D t bs t' ∧ R s' t'

theorem SimulatesIf.reachIf {C : σ → α → Prop} {D : τ → β → Prop} {N : Sys τ β}
    {R : σ → τ → Prop} (h : SimulatesIf C D M N R) {s : σ} (hr : M.ReachIf C s) :
    ∃ t, N.ReachIf D t ∧ R s t := by
  induction hr with
  | init hi =>
    obtain ⟨t, ht, hrel⟩ := h.init _ hi
    exact ⟨t, .init ht, hrel⟩
  | step _ hc hs ih =>
    obtain ⟨t, ht, hrel⟩ := ih
    obtain ⟨bs, t', hrun, hrel'⟩ := h.step _ _ _ _ hrel hc hs
    exact ⟨t', hrun.reachIf ht, hrel'⟩

end Sys

end Transition
