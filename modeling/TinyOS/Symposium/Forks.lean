import TinyOS.Symposium.Invariant

/-!
# The forks of the symposium

"In order to eat she needs to hold a fork in each hand, and there is only one fork between two
philosophers" (`symposium.h`). The code has no forks. Here is the table with forks on it, on which a
philosopher takes both of its forks at once, if both lie there, and puts both back. **The code behaves
as that table**: what its philosophers do is what philosophers with forks can do
(`symposium_simulates`).
-/

set_option autoImplicit false

namespace TinyOS

open Transition

/-- Who holds each fork; fork `k` lies between philosopher `k` and the one to its left. -/
structure ForkTable where
  holder : Nat → Option Nat

inductive ForkAction where
  | take (i : Nat)
  | put (i : Nat)

namespace ForkTable

/-- Both forks of philosopher `i`. -/
def set (t : ForkTable) (N i : Nat) (o : Option Nat) : ForkTable :=
  ⟨Function.update (Function.update t.holder i o) (RIGHT i N) o⟩

def perform (N : Nat) (t : ForkTable) : ForkAction → Option ForkTable
  | .take i =>
    if i < N ∧ t.holder i = none ∧ t.holder (RIGHT i N) = none then some (t.set N i (some i))
    else none
  | .put i =>
    if i < N ∧ t.holder i = some i ∧ t.holder (RIGHT i N) = some i then some (t.set N i none)
    else none

end ForkTable

def forksSys (N : Nat) : Sys ForkTable ForkAction where
  init t := t = ⟨fun _ => none⟩
  step := ForkTable.perform N

namespace Symposium

variable {c : SymposiumT} {kind : SymposiumKind} {s s' : Symposium}

/-- The forks of the philosophers that eat. -/
def forks (c : SymposiumT) (state : Nat → Phil) : ForkTable where
  holder k :=
    if c.N ≤ k then none
    else if state k = .eating then some k
    else if state (LEFT k c.N) = .eating then some (LEFT k c.N)
    else none

/-- A philosopher whose neighbours do not eat takes its forks. -/
theorem forks_take {state : Nat → Phil} {k : Nat} (hk : k < c.N) (hself : state k ≠ .eating)
    (hl : state (LEFT k c.N) ≠ .eating) (hr : state (RIGHT k c.N) ≠ .eating) :
    (forksSys c.N).step (forks c state) (.take k) =
      some (forks c (Function.update state k .eating)) := by
  have hR := RIGHT_lt hk
  have hLR := LEFT_RIGHT hk
  have hfork : (forks c state).holder k = none := by
    simp only [forks, if_neg (Nat.not_le.mpr hk), if_neg hself, if_neg hl]
  have hfork' : (forks c state).holder (RIGHT k c.N) = none := by
    simp only [forks, if_neg (Nat.not_le.mpr hR), if_neg hr, hLR, if_neg hself]
  refine (if_pos ⟨hk, hfork, hfork'⟩).trans (congrArg some ?_)
  refine congrArg ForkTable.mk (funext fun l => ?_)
  simp only [forks, Function.update_apply]
  have hRL : l < c.N → RIGHT (LEFT l c.N) c.N = l := RIGHT_LEFT
  grind

/-- A philosopher that eats puts its forks back. -/
theorem forks_put {state : Nat → Phil} {k : Nat} {p : Phil} (hk : k < c.N)
    (hself : state k = .eating) (hp : p ≠ .eating)
    (hapart : ∀ i < c.N, state i = .eating → LEFT i c.N ≠ i → state (LEFT i c.N) ≠ .eating) :
    (forksSys c.N).step (forks c state) (.put k) =
      some (forks c (Function.update state k p)) := by
  have hR := RIGHT_lt hk
  have hLR := LEFT_RIGHT hk
  have hright : RIGHT k c.N ≠ k → state (RIGHT k c.N) ≠ .eating := by
    intro hne he
    exact hapart _ hR he (by rw [hLR]; exact hne.symm) (by rw [hLR]; exact hself)
  have hleft := hapart k hk hself
  have hfork : (forks c state).holder k = some k := by
    simp only [forks, if_neg (Nat.not_le.mpr hk), if_pos hself]
  have hfork' : (forks c state).holder (RIGHT k c.N) = some k := by
    simp only [forks, if_neg (Nat.not_le.mpr hR), hLR, if_pos hself]
    grind
  refine (if_pos ⟨hk, hfork, hfork'⟩).trans (congrArg some ?_)
  refine congrArg ForkTable.mk (funext fun l => ?_)
  simp only [forks, Function.update_apply]
  have hRL : l < c.N → RIGHT (LEFT l c.N) c.N = l := RIGHT_LEFT
  grind

theorem forks_congr {state state' : Nat → Phil}
    (h : ∀ k, state' k = .eating ↔ state k = .eating) : forks c state' = forks c state := by
  simp only [forks, h]

theorem forks_trytoeat (s : Symposium) {k : Nat} (hk : k < c.N) (hq : s.Queued k) :
    ∃ bs, (forksSys c.N).Run (forks c s.state) bs (forks c (s.trytoeat c k).state) := by
  unfold trytoeat
  split
  · rename_i he
    obtain ⟨hh, hl, hr⟩ := he
    have hstate := (signal_spec (s := s.setState k .eating) (k := k) hq).1
    rw [hstate]
    exact ⟨[.take k], .single (forks_take hk (by simp [hh]) hl hr)⟩
  · exact ⟨[], .nil _⟩

theorem wait_state (s : Symposium) (i j : Nat) : (s.wait i j).state = s.state := by
  unfold wait
  split
  · rfl
  · split <;> rfl

/-- **A step of a philosopher** is a few moves at the table. -/
theorem forks_next (h : s.Inv c kind) {i : Nat} (hs : s.next c i = some s') :
    ∃ bs, (forksSys c.N).Run (forks c s.state) bs (forks c s'.state) := by
  have hlock : ∀ {pc : PhilPc}, s.lock i pc = some s' →
      ∃ bs, (forksSys c.N).Run (forks c s.state) bs (forks c s'.state) := by
    intro pc hl
    unfold Symposium.lock at hl
    split at hl
    · cases hl
    · cases hl
      exact ⟨[], .nil _⟩
  have hset : ∀ {p : Phil}, s.state i ≠ .eating → p ≠ .eating →
      forks c (s.setState i p).state = forks c s.state := by
    intro p hne hp
    refine forks_congr fun k => ?_
    simp only [setState, Function.update_apply]
    grind
  have hposture := h.posture i
  unfold Symposium.next at hs
  cases hpc : s.pc i with
  | absent | asleep j | gone | aborted => simp [hpc] at hs
  | arriving | thinking j | woken j | eating j | leaving =>
    simp only [hpc] at hs
    exact hlock hs
  | arrived | left =>
    simp only [hpc, Option.some.injEq] at hs
    rw [hpc] at hposture
    refine ⟨[], ?_⟩
    rw [← hs]
    show (forksSys c.N).Run _ [] (forks c (s.setState i _).state)
    rw [hset (by simp [hposture, PhilPc.phil]) (by simp)]
    exact .nil _
  | craving j =>
    simp only [hpc, Option.some.injEq] at hs
    rw [hpc] at hposture
    have hi := h.lt (i := i) (by simp [hpc])
    rw [← hs, wait_state, ← hset (p := .hungry) (by simp [hposture, PhilPc.phil]) (by simp)]
    exact forks_trytoeat _ hi (h.queued i)
  | relocked j =>
    simp only [hpc, Option.some.injEq] at hs
    rw [← hs, wait_state]
    exact ⟨[], .nil _⟩
  | sated j =>
    simp only [hpc, Option.some.injEq] at hs
    rw [hpc] at hposture
    have hi := h.lt (i := i) (by simp [hpc])
    have hqueued : ∀ k, (s.setState i .thinking).Queued k := h.queued
    have hserves := (trytoeat_spec (c := c) (hqueued (LEFT i c.N))).1
    obtain ⟨bs, hbs⟩ := forks_trytoeat (s.setState i .thinking) (LEFT_lt hi) (hqueued _)
    obtain ⟨bs', hbs'⟩ := forks_trytoeat ((s.setState i .thinking).trytoeat c (LEFT i c.N))
      (RIGHT_lt hi) (hserves.queued (hqueued _))
    have hput := forks_put (p := .thinking) hi hposture (by simp) h.apart
    rw [← hs]
    exact ⟨_, (Sys.Run.cons hput hbs).append hbs'⟩

theorem start_state {ok : Bool} (hs : s.start c kind ok = some s') : s'.state = s.state := by
  unfold Symposium.start at hs
  split at hs
  · split at hs
    · cases hs
      rfl
    · split at hs
      · cases hs
        rfl
      · cases hs
  · cases hs

theorem await_state {child : Option Nat} (hs : s.await c kind child = some s') :
    s'.state = s.state := by
  unfold Symposium.await at hs
  split at hs
  all_goals
    first
    | cases hs
    | split at hs
      · cases hs
        rfl
      · cases hs

end Symposium

/-- **The symposium is a table with one fork between two neighbours**, for any number of philosophers
and bites, as processes or as threads: whoever eats holds both forks, and nobody else holds any. -/
theorem symposium_simulates (c : SymposiumT) (kind : SymposiumKind) :
    Sys.Simulates (symposiumSys c kind) (forksSys c.N)
      fun s t => s.Inv c kind ∧ t = Symposium.forks c s.state where
  init s hs := by
    refine ⟨_, rfl, hs ▸ Symposium.inv_initial c kind, ?_⟩
    rw [hs]
    simp [Symposium.forks, Symposium.initial]
  step s a s' t h hs := by
    obtain ⟨hinv, rfl⟩ := h
    have hinv' := (Symposium.inv_inductive c kind).step _ _ _ hinv trivial hs
    cases a with
    | start ok =>
      refine ⟨[], _, .nil _, hinv', ?_⟩
      rw [Symposium.start_state hs]
    | wait child =>
      refine ⟨[], _, .nil _, hinv', ?_⟩
      rw [Symposium.await_state hs]
    | next i =>
      obtain ⟨bs, hbs⟩ := Symposium.forks_next hinv hs
      exact ⟨bs, _, hbs, hinv', rfl⟩

end TinyOS
