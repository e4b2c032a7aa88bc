import Mathlib.Logic.Relation

/-!
# Programs that make calls

A program ends with a result, fails an assertion, or makes a call and goes on with the reply. What it
does then may depend on the reply, so a program is a tree. Nothing in this file says what the calls
are, nor what serves them.

`Runs` is a whole run of a program, from a state of the system that serves it to another one, while
**other parties take any steps in between**. A `Triple` says of all such runs what they end in, and
which calls they made; its precondition has to survive the steps of the others. There is one rule for
each way to build a program, and `Triple.bind` puts them together.
-/

set_option autoImplicit false

namespace Transition

inductive Prog (C : Type) (R : C → Type) (α : Type) where
  | ret (a : α)
  | fail
  | call (c : C) (k : R c → Prog C R α)

variable {σ C α β : Type} {R : C → Type}

namespace Prog

protected def bind : Prog C R α → (α → Prog C R β) → Prog C R β
  | .ret a, f => f a
  | .fail, _ => .fail
  | .call c k, f => .call c fun r => (k r).bind f

instance : Monad (Prog C R) where
  pure := .ret
  bind := .bind

/-- The call `c`, and its reply. -/
def make (c : C) : Prog C R (R c) := .call c .ret

/-- Every call of the program meets `P` and every result `Q`, whatever the replies are, and no
assertion fails. -/
def Every (P : C → Prop) (Q : α → Prop) : Prog C R α → Prop
  | .ret a => Q a
  | .fail => False
  | .call c k => P c ∧ ∀ r, Every P Q (k r)

end Prog

/-! ## Runs -/

/-- A call that was served. -/
structure Event (σ : Type) {C : Type} (R : C → Type) where
  before : σ
  call : C
  reply : R call
  after : σ

/-- `Runs serve other p s l a s'`: from `s` on, `p` makes the calls `l` and ends with `a`, in `s'`.
`serve` says how a call may be served, and `other` is a step of another party. -/
inductive Runs (serve : σ → (c : C) → R c → σ → Prop) (other : σ → σ → Prop) :
    Prog C R α → σ → List (Event σ R) → α → σ → Prop
  | ret {s s' : σ} {a : α} : Relation.ReflTransGen other s s' → Runs serve other (.ret a) s [] a s'
  | call {s s₁ s₂ s' : σ} {c : C} {r : R c} {k : R c → Prog C R α} {l : List (Event σ R)} {a : α} :
      Relation.ReflTransGen other s s₁ → serve s₁ c r s₂ → Runs serve other (k r) s₂ l a s' →
      Runs serve other (.call c k) s (⟨s₁, c, r, s₂⟩ :: l) a s'

variable {serve : σ → (c : C) → R c → σ → Prop} {other : σ → σ → Prop}

/-- A run of two programs in sequence is a run of the first and a run of the second. -/
theorem Runs.of_bind {p : Prog C R α} {f : α → Prog C R β} {s s' : σ} {l : List (Event σ R)} {b : β}
    (h : Runs serve other (p >>= f) s l b s') : ∃ a s₁ l₁ l₂, l = l₁ ++ l₂ ∧
      Runs serve other p s l₁ a s₁ ∧ Runs serve other (f a) s₁ l₂ b s' := by
  induction p generalizing s l with
  | ret a => exact ⟨a, s, [], l, rfl, .ret .refl, h⟩
  | fail => cases h
  | call c k ih =>
    cases h with
    | @call _ s₁ s₂ _ _ r _ l _ hother hserve h =>
      obtain ⟨a, s₃, l₁, l₂, rfl, h₁, h₂⟩ := ih r h
      exact ⟨a, s₃, _ :: l₁, l₂, rfl, .call hother hserve h₁, h₂⟩

/-- The run of a program whose calls `handle` serves at once: its calls and its result; `none` where an
assertion or a call fails. -/
def Prog.run (handle : (c : C) → σ → Option (R c × σ)) :
    Prog C R α → σ → Option (List (Event σ R) × α × σ)
  | .ret a, s => some ([], a, s)
  | .fail, _ => none
  | .call c k, s =>
    match handle c s with
    | none => none
    | some (r, s₁) => ((k r).run handle s₁).map fun t => (⟨s, c, r, s₁⟩ :: t.1, t.2)

/-- No other party takes a step. -/
theorem Runs.of_run {handle : (c : C) → σ → Option (R c × σ)}
    (hserve : ∀ c s r s', handle c s = some (r, s') → serve s c r s') {p : Prog C R α} {s s' : σ}
    {l : List (Event σ R)} {a : α} (h : p.run handle s = some (l, a, s')) :
    Runs serve other p s l a s' := by
  induction p generalizing s l with
  | ret a =>
    cases h
    exact .ret .refl
  | fail => cases h
  | call c k ih =>
    rw [Prog.run] at h
    cases hc : handle c s with
    | none =>
      rw [hc] at h
      cases h
    | some t =>
      obtain ⟨r, s₁⟩ := t
      rw [hc] at h
      obtain ⟨⟨l, a, s'⟩, hrest, he⟩ := Option.map_eq_some_iff.mp h
      cases he
      exact .call .refl (hserve c s r s₁ hc) (ih r hrest)

/-! ## Triples -/

variable {ok : Event σ R → Prop} {P P' : σ → Prop} {p : Prog C R α}
  {Q Q' : List (Event σ R) → α → σ → Prop}

/-- The steps of the others keep `P`. -/
def Stable (other : σ → σ → Prop) (P : σ → Prop) : Prop := ∀ s s', P s → other s s' → P s'

theorem Stable.reflTransGen (h : Stable other P) {s s' : σ} (hs : P s)
    (hother : Relation.ReflTransGen other s s') : P s' := by
  induction hother with
  | refl => exact hs
  | tail _ hstep ih => exact h _ _ ih hstep

/-- Every run from a state in `P`, whose calls are all `ok`, ends as `Q` says. -/
def Triple (serve : σ → (c : C) → R c → σ → Prop) (other : σ → σ → Prop) (ok : Event σ R → Prop)
    (P : σ → Prop) (p : Prog C R α) (Q : List (Event σ R) → α → σ → Prop) : Prop :=
  ∀ s l a s', P s → Runs serve other p s l a s' → (∀ e ∈ l, ok e) → Q l a s'

theorem Triple.pure (hP : Stable other P) (a : α) :
    Triple serve other ok P (Pure.pure a) fun l b s => l = [] ∧ b = a ∧ P s := by
  intro s l b s' hs hrun _
  cases hrun with
  | ret hother => exact ⟨rfl, rfl, hP.reflTransGen hs hother⟩

/-- One call: the others come before it and after it. -/
theorem Triple.make {c : C} {Q : Event σ R → R c → σ → Prop} (hP : Stable other P)
    (hQ : ∀ e r, Stable other (Q e r))
    (h : ∀ s r s', P s → serve s c r s' → ok ⟨s, c, r, s'⟩ → Q ⟨s, c, r, s'⟩ r s') :
    Triple serve other ok P (Prog.make c) fun l r s => ∃ e, l = [e] ∧ Q e r s := by
  intro s l r s' hs hrun hok
  cases hrun with
  | @call _ s₁ s₂ _ _ _ _ _ _ hbefore hserve hrest =>
    cases hrest with
    | ret hafter =>
      have hcall := h s₁ r s₂ (hP.reflTransGen hs hbefore) hserve (hok _ List.mem_cons_self)
      exact ⟨_, rfl, (hQ _ _).reflTransGen hcall hafter⟩

theorem Triple.bind {f : α → Prog C R β} {Q' : List (Event σ R) → β → σ → Prop}
    (hp : Triple serve other ok P p Q)
    (hf : ∀ l a, Triple serve other ok (Q l a) (f a) fun l' b s => Q' (l ++ l') b s) :
    Triple serve other ok P (p >>= f) Q' := by
  intro s l b s' hs hrun hok
  obtain ⟨a, s₁, l₁, l₂, rfl, h₁, h₂⟩ := hrun.of_bind
  have hmid := hp s l₁ a s₁ hs h₁ fun e he => hok e (List.mem_append_left l₂ he)
  exact hf l₁ a s₁ l₂ b s' hmid h₂ fun e he => hok e (List.mem_append_right l₁ he)

theorem Triple.mono (h : Triple serve other ok P p Q) (hP : ∀ s, P' s → P s)
    (hQ : ∀ l a s, Q l a s → Q' l a s) : Triple serve other ok P' p Q' := by
  intro s l a s' hs hrun hok
  exact hQ l a s' (h s l a s' (hP s hs) hrun hok)

theorem Triple.of_exists {ι : Sort _} {P : ι → σ → Prop}
    (h : ∀ x, Triple serve other ok (P x) p Q) : Triple serve other ok (fun s => ∃ x, P x s) p Q := by
  intro s l a s' ⟨x, hs⟩
  exact h x s l a s' hs

/-- What does not depend on the state is known beforehand. -/
theorem Triple.of_fact {φ : Prop} (h : φ → Triple serve other ok P p Q) :
    Triple serve other ok (fun s => φ ∧ P s) p Q := by
  intro s l a s' hs
  exact h hs.1 s l a s' hs.2

end Transition
