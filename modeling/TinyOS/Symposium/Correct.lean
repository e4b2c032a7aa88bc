import TinyOS.Symposium.Invariant
import Mathlib.Algebra.BigOperators.Group.Finset.Basic
import Mathlib.Algebra.Order.BigOperators.Group.Finset

/-!
# The symposium is held, and ends

`symposium_safe` reads the invariant back in the terms of the source. `symposium_ends` is about whole
runs, in any order of steps: each of them is finite, and **none can stop but at the end**, when every
philosopher that was started has eaten all its bites and has left. So there is no deadlock, and nobody
starves. The rank that goes down with every step weighs the positions of the philosophers
(`PhilPc.rank`); the one step that would raise it, back into `Cond_Wait` after a wake-up, is one that
the invariant excludes.
-/

set_option autoImplicit false

namespace TinyOS

open Transition

/-! ## The rank -/

/-- How many steps a philosopher still has to take, or more. -/
def PhilPc.rank (B : Nat) : PhilPc → Nat
  | .absent => 7 * B + 5
  | .arriving => 7 * B + 4
  | .arrived => 7 * B + 3
  | .thinking j => 7 * (B - j) + 2
  | .craving j => 7 * (B - j) + 1
  | .asleep j => 7 * (B - j)
  | .woken j => 7 * (B - j) - 1
  | .relocked j => 7 * (B - j) - 2
  | .eating j => 7 * (B - j) - 3
  | .sated j => 7 * (B - j) - 4
  | .leaving => 2
  | .left => 1
  | .gone | .aborted => 0

/-- How many starts and waits the program still has to do, or more. -/
def SymposiumPc.rank (N : Nat) : SymposiumPc → Nat
  | .starting i => 2 * N - i
  | .waiting i => N - i
  | .done => 0

namespace Symposium

variable {c : SymposiumT} {kind : SymposiumKind} {s s' : Symposium}

def rank (c : SymposiumT) (s : Symposium) : Nat :=
  s.main.rank c.N + ∑ i ∈ Finset.range c.N, (s.pc i).rank c.bites.toNat

theorem rank_ready_le (B : Nat) (pc : PhilPc) : (ready pc).rank B ≤ pc.rank B := by
  cases pc with
  | asleep j => exact Nat.sub_le _ 1
  | _ => exact le_rfl

theorem Serves.rank_le (h : Serves c s s') (k B : Nat) : (s'.pc k).rank B ≤ (s.pc k).rank B := by
  rw [h.pc]
  split
  · exact le_rfl
  · exact rank_ready_le B _

/-- If nobody's rank goes up, and the rank of philosopher `i` goes down, so does the sum. -/
theorem rank_lt {i : Nat} (hi : i < c.N) (hmain : s'.main.rank c.N ≤ s.main.rank c.N)
    (hle : ∀ k, k ≠ i → (s'.pc k).rank c.bites.toNat ≤ (s.pc k).rank c.bites.toNat)
    (hlt : (s'.pc i).rank c.bites.toNat < (s.pc i).rank c.bites.toNat) :
    s'.rank c < s.rank c := by
  refine Nat.add_lt_add_of_le_of_lt hmain (Finset.sum_lt_sum (fun k _ => ?_) ?_)
  · by_cases hk : k = i
    · rw [hk]
      exact hlt.le
    · exact hle k hk
  · exact ⟨i, Finset.mem_range.mpr hi, hlt⟩

theorem turn_rank_lt {j n : Nat} (hn : 7 * (c.bites.toNat - j) + 2 < n) (hleave : 2 < n) :
    (turn c j).rank c.bites.toNat < n := by
  unfold turn
  split
  · exact hn
  · exact hleave

theorem wait_main (s : Symposium) (i j : Nat) : (s.wait i j).main = s.main := by
  unfold wait
  split
  · rfl
  · split <;> rfl

/-- Whoever waits for its turn sleeps now, or eats, unless the assertion fails. -/
theorem wait_pc (s : Symposium) (i j : Nat) :
    (s.wait i j).pc = Function.update s.pc i
      (if s.state i = .hungry then .asleep j else if s.state i = .eating then .eating j
        else .aborted) := by
  unfold wait
  split
  · rfl
  · split <;> rfl

/-- A step lowers the rank of the philosopher that takes it, and raises nobody's. -/
theorem Inv.next_rank (h : s.Inv c kind) {i : Nat} (hs : s.next c i = some s') :
    s'.rank c < s.rank c := by
  have hround := h.rounds i
  have hlock : ∀ {pc : PhilPc}, s.lock i pc = some s' → i < c.N →
      pc.rank c.bites.toNat < (s.pc i).rank c.bites.toNat → s'.rank c < s.rank c := by
    intro pc hl hi hlt
    unfold Symposium.lock at hl
    split at hl
    · cases hl
    · cases hl
      refine rank_lt hi le_rfl (fun k hk => ?_) ?_
      · simp only [goto, Function.update_of_ne hk]
        exact le_rfl
      · simpa only [goto, Function.update_self] using hlt
  -- A critical section: some others may be made ready, and the philosopher goes on to `pc`.
  have hleave : ∀ {s₁ : Symposium} {pc : PhilPc}, i < c.N →
      (∀ k, (s₁.pc k).rank c.bites.toNat ≤ (s.pc k).rank c.bites.toNat) → s₁.main = s.main →
      s'.main = s₁.main → s'.pc = Function.update s₁.pc i pc →
      pc.rank c.bites.toNat < (s.pc i).rank c.bites.toNat → s'.rank c < s.rank c := by
    intro s₁ pc hi hle hmain₁ hmain hpc hlt
    refine rank_lt hi (by rw [hmain, hmain₁]) (fun k hk => ?_) ?_
    · rw [hpc, Function.update_of_ne hk]
      exact hle k
    · rw [hpc, Function.update_self]
      exact hlt
  unfold Symposium.next at hs
  cases hpc : s.pc i with
  | absent | asleep j | gone | aborted => simp [hpc] at hs
  | arriving | leaving =>
    simp only [hpc] at hs
    refine hlock hs (h.lt (by simp [hpc])) ?_
    rw [hpc]
    simp only [PhilPc.rank]
    omega
  | thinking j | woken j | eating j =>
    simp only [hpc] at hs
    refine hlock hs (h.lt (by simp [hpc])) ?_
    rw [hpc] at hround ⊢
    have := hround j rfl
    simp only [PhilPc.rank]
    omega
  | arrived =>
    simp only [hpc, Option.some.injEq] at hs
    subst hs
    refine hleave (h.lt (by simp [hpc])) (fun k => le_rfl) rfl rfl rfl (turn_rank_lt ?_ ?_) <;>
      · rw [hpc]
        simp only [PhilPc.rank]
        omega
  | left =>
    simp only [hpc, Option.some.injEq] at hs
    subst hs
    refine hleave (h.lt (by simp [hpc])) (fun k => le_rfl) rfl rfl rfl ?_
    rw [hpc]
    exact Nat.zero_lt_one
  | craving j =>
    simp only [hpc, Option.some.injEq] at hs
    subst hs
    have hserves := (trytoeat_spec (c := c) (s := s.setState i .hungry) (h.queued i)).1
    have hhungry : (s.setState i .hungry).state i = .hungry := by simp [setState]
    have hstate := hserves.state i
    rw [hhungry] at hstate
    rw [hpc] at hround
    have := hround j rfl
    refine hleave (h.lt (by simp [hpc])) (fun k => hserves.rank_le k _) hserves.rest.2.1
      (wait_main _ i j) (wait_pc _ i j) ?_
    rw [hpc]
    split
    · exact Nat.lt_succ_self _
    · rename_i hne
      rw [if_pos (hstate.resolve_left hne).2]
      simp only [PhilPc.rank]
      omega
  | relocked j =>
    simp only [hpc, Option.some.injEq] at hs
    subst hs
    have heats := h.posture i
    rw [hpc] at hround heats
    have := hround j rfl
    refine hleave (h.lt (by simp [hpc])) (fun k => le_rfl) rfl (wait_main _ i j) (wait_pc _ i j) ?_
    rw [heats, hpc]
    simp only [PhilPc.phil, reduceCtorEq, if_false, if_true, PhilPc.rank]
    omega
  | sated j =>
    simp only [hpc, Option.some.injEq] at hs
    subst hs
    rw [hpc] at hround
    have := hround j rfl
    have hqueued : ∀ k, (s.setState i .thinking).Queued k := h.queued
    have hserves := (trytoeat_spec (c := c) (hqueued (LEFT i c.N))).1
    have hserves' := (trytoeat_spec (c := c) (hserves.queued (hqueued (RIGHT i c.N)))).1
    refine hleave (h.lt (by simp [hpc])) (fun k => (hserves.trans hserves').rank_le k _)
      (hserves.trans hserves').rest.2.1 rfl rfl (turn_rank_lt ?_ ?_) <;>
      · rw [hpc]
        simp only [PhilPc.rank]
        omega

theorem waitFrom_rank_le (c : SymposiumT) (i : Nat) : (waitFrom c i).rank c.N ≤ c.N - i := by
  unfold waitFrom
  split
  · exact le_rfl
  · exact Nat.zero_le _

theorem startFrom_rank_le (c : SymposiumT) (i : Nat) :
    (startFrom c i).rank c.N ≤ if i < c.N then 2 * c.N - i else c.N := by
  unfold startFrom
  split
  · exact le_rfl
  · exact waitFrom_rank_le c 0

theorem Inv.start_rank (h : s.Inv c kind) {ok : Bool} (hs : s.start c kind ok = some s') :
    s'.rank c < s.rank c := by
  unfold Symposium.start at hs
  cases hm : s.main with
  | waiting i | done => simp [hm] at hs
  | starting i =>
    simp only [hm] at hs
    have hi := h.main i (.inl hm)
    have hmain : (startFrom c (i + 1)).rank c.N < s.main.rank c.N := by
      have := startFrom_rank_le c (i + 1)
      rw [hm]
      show _ < 2 * c.N - i
      split at this <;> omega
    have habsent := h.absent i (by rw [hm]; exact le_rfl)
    split at hs
    · cases hs
      refine rank_lt hi hmain.le (fun k hk => ?_) ?_
      · simp only [goto, Function.update_of_ne hk]
        exact le_rfl
      · simp only [goto, Function.update_self, habsent]
        exact Nat.lt_succ_self _
    · split at hs
      · cases hs
        exact Nat.add_lt_add_right hmain _
      · cases hs

theorem Inv.await_rank (h : s.Inv c kind) {child : Option Nat}
    (hs : s.await c kind child = some s') : s'.rank c < s.rank c := by
  have hturn : ∀ {i : Nat} {r : Nat → Bool}, s.main = .waiting i →
      ({ s with main := waitFrom c (i + 1), reaped := r }).rank c < s.rank c := by
    intro i r hm
    have hi := h.main i (.inr hm)
    have := waitFrom_rank_le c (i + 1)
    refine Nat.add_lt_add_right ?_ _
    rw [hm]
    show (waitFrom c (i + 1)).rank c.N < c.N - i
    omega
  unfold Symposium.await at hs
  split at hs
  · split at hs
    · cases hs
      exact hturn ‹_›
    · cases hs
  · split at hs
    · cases hs
      exact hturn ‹_›
    · cases hs
  · split at hs
    · cases hs
      exact hturn ‹_›
    · cases hs
  · cases hs

/-- Every step of the symposium brings it nearer to its end. -/
theorem descends (c : SymposiumT) (kind : SymposiumKind) :
    (symposiumSys c kind).Descends (Inv c kind) (rank c) where
  inv := inv_inductive c kind
  lt s a s' h hs := by
    cases a with
    | start ok => exact h.start_rank hs
    | wait child => exact h.await_rank hs
    | next i => exact h.next_rank hs

theorem rank_initial (c : SymposiumT) :
    (initial c).rank c ≤ c.N * (7 * c.bites.toNat + 7) := by
  have hmain := startFrom_rank_le c 0
  have hsum : ∑ i ∈ Finset.range c.N, ((initial c).pc i).rank c.bites.toNat =
      c.N * (7 * c.bites.toNat + 5) := by
    refine (Finset.sum_const_nat fun _ _ => rfl).trans ?_
    rw [Finset.card_range]
  unfold rank
  rw [hsum]
  have : c.N * (7 * c.bites.toNat + 7) = c.N * (7 * c.bites.toNat + 5) + 2 * c.N := by
    rw [Nat.mul_comm 2, ← Nat.mul_add]
  have : (initial c).main.rank c.N ≤ 2 * c.N := by
    refine hmain.trans ?_
    split <;> omega
  omega

/-! ## The end -/

/-- The symposium is over: philosopher `i` was never started, or has had all its bites. -/
structure Over (c : SymposiumT) (kind : SymposiumKind) (s : Symposium) : Prop where
  main : s.main = .done
  fed : ∀ i, s.pc i = .absent ∨ s.pc i = .gone ∧ s.meals i = c.bites.toNat
  all : kind = .threads → ∀ i < c.N, s.pc i = .gone

/-- When the program has done its waits, every philosopher that was started has left. -/
theorem Inv.destroyed (h : s.Inv c kind) (hm : s.main = .done) (i : Nat) :
    s.pc i = .absent ∨ s.pc i = .gone := by
  by_cases hi : i < c.N
  · cases kind with
    | threads => exact .inr (h.joined rfl i (by rw [hm]; exact hi))
    | processes =>
      rcases h.awaited rfl with hl | hcount
      · by_cases ha : s.pc i = .absent
        · exact .inl ha
        · exact .inr (h.reaped i (hl i hi ha)).2
      · -- As many children are reaped as there are philosophers.
        rw [hm] at hcount
        have hall := Finset.filter_card_eq (s := Finset.range c.N)
          (p := fun i => s.reaped i = true) (le_antisymm (Finset.card_filter_le _ _) (by
            rw [Finset.card_range]
            exact hcount))
        exact .inr (h.reaped i (hall i (Finset.mem_range.mpr hi))).2
  · exact .inl (h.absent i (h.started_le.trans (Nat.le_of_not_lt hi)))

theorem Inv.over (h : s.Inv c kind) (hm : s.main = .done) : s.Over c kind where
  main := hm
  fed i := (h.destroyed hm i).imp_right fun hg => ⟨hg, by rw [h.meals, hg]; rfl⟩
  all hkind i hi := h.joined hkind i (by rw [hm]; exact hi)

/-- **No deadlock.** -/
theorem Inv.over_of_stuck (h : s.Inv c kind) (hstuck : (symposiumSys c kind).Stuck s) :
    s.Over c kind := by
  have hnext : ∀ i, s.next c i = none := fun i => hstuck (.next i)
  -- Whoever is in the monitor can leave it, so nobody is.
  have hfree : s.mx = false := by
    by_contra hmx
    obtain ⟨i, hi⟩ := h.lock.mp (by simpa using hmx)
    have := hnext i
    unfold Symposium.next at this
    cases hpc : s.pc i <;> simp_all [PhilPc.inside]
  -- Nobody waits for the lock, which is free, or for a turn, which would take a neighbour that eats.
  have hidle : ∀ i, s.pc i = .absent ∨ s.pc i = .gone ∨ ∃ j, s.pc i = .asleep j := by
    intro i
    have := hnext i
    have := h.asserted i
    unfold Symposium.next Symposium.lock at *
    cases hpc : s.pc i <;> simp_all
  have hnobody : ∀ k, s.state k ≠ .eating := by
    intro k
    rw [h.posture]
    rcases hidle k with hk | hk | ⟨j, hk⟩ <;> simp [hk, PhilPc.phil]
  have hleft : ∀ i, s.pc i = .absent ∨ s.pc i = .gone := by
    intro i
    rcases hidle i with hi | hi | ⟨j, hi⟩
    · exact .inl hi
    · exact .inr hi
    · rcases h.settled i (h.lt (by simp [hi])) (by rw [h.posture, hi]; rfl) with hk | hk
      · exact absurd hk (hnobody _)
      · exact absurd hk (hnobody _)
  refine h.over ?_
  cases hm : s.main with
  | done => rfl
  | starting i =>
    have := hstuck (.start true)
    simp [symposiumSys, perform, Symposium.start, hm] at this
  | waiting i =>
    exfalso
    have hi := h.main i (.inr hm)
    cases kind with
    | threads =>
      have hwait := hstuck (.wait none)
      have hpresent := h.present rfl i (by rw [hm]; exact hi)
      have hgone := (hleft i).resolve_left hpresent
      simp [symposiumSys, perform, Symposium.await, hm, hgone] at hwait
    | processes =>
      have hwait := hstuck (.wait none)
      simp only [symposiumSys, perform, Symposium.await, hm] at hwait
      by_cases hl : s.childless c
      · rw [if_pos hl] at hwait
        cases hwait
      · -- A child that has not been reaped has exited.
        simp only [childless, not_forall] at hl
        obtain ⟨k, -, hk, hnot⟩ := hl
        have hgone := (hleft k).resolve_left hk
        have hchild := hstuck (.wait (some k))
        simp [symposiumSys, perform, Symposium.await, hm, hgone, hnot] at hchild

/-! ## The monitor -/

structure Safe (c : SymposiumT) (kind : SymposiumKind) (s : Symposium) : Prop where
  /-- Two neighbours never eat at once. -/
  apart : s.Apart c
  /-- Whoever is out of the monitor to eat is recorded as eating. -/
  eats : ∀ i j, s.pc i = .eating j → s.state i = .eating
  /-- Whoever sleeps is hungry, and a neighbour eats. -/
  waits : ∀ i j, s.pc i = .asleep j →
    s.state i = .hungry ∧ (s.state (LEFT i c.N) = .eating ∨ s.state (RIGHT i c.N) = .eating)
  /-- One philosopher at a time is in the monitor. -/
  exclusive : ∀ i j, (s.pc i).inside = true → (s.pc j).inside = true → i = j
  /-- `assert(state[i]==EATING)` does not fail. -/
  asserted : ∀ i, s.pc i ≠ .aborted
  /-- Nobody gets more bites than there are. -/
  bites : ∀ i, s.meals i ≤ c.bites.toNat
  /-- The table is destroyed when everybody has left it. -/
  destroyed : s.main = .done → s.Over c kind

theorem Inv.safe (h : s.Inv c kind) : s.Safe c kind where
  apart := h.apart
  eats i j hi := by rw [h.posture, hi]; rfl
  waits i j hi := by
    have hh : s.state i = .hungry := by rw [h.posture, hi]; rfl
    exact ⟨hh, h.settled i (h.lt (by simp [hi])) hh⟩
  exclusive := h.alone
  asserted := h.asserted
  bites i := by
    have hround := h.rounds i
    rw [h.meals]
    cases hpc : s.pc i <;> simp only [PhilPc.eaten, Nat.zero_le, le_refl]
    all_goals
      have := hround _ (by rw [hpc]; rfl)
      omega
  destroyed := h.over

end Symposium

/-- **The monitor is right**, whatever the number of philosophers and of bites, in every state that
any order of their steps reaches. -/
theorem symposium_safe (c : SymposiumT) (kind : SymposiumKind) {s : Symposium}
    (h : (symposiumSys c kind).Reach s) : s.Safe c kind :=
  ((Symposium.inv_inductive c kind).reachIf h).safe

/-- Two of three philosophers have come; one eats, and the other one sleeps. -/
theorem symposium_safe_asleep : ∃ s, ((symposiumSys ⟨3, 1⟩ .threads).Reach s ∧
    (s.pc 0 == .eating 0 && s.pc 1 == .asleep 0) = true) ∧ s.Safe ⟨3, 1⟩ .threads := by
  obtain ⟨s, h, hpc⟩ := Sys.reachIf_of_exec (M := symposiumSys ⟨3, 1⟩ .threads)
    (fun _ _ => true) (.initial ⟨3, 1⟩)
    [.start true, .start true, .next 0, .next 0, .next 0, .next 0, .next 1, .next 1, .next 1,
      .next 1]
    (fun s => s.pc 0 == .eating 0 && s.pc 1 == .asleep 0) (fun _ _ _ => trivial) rfl (by decide)
  exact ⟨s, ⟨h, hpc⟩, symposium_safe _ _ h⟩

/-- **The symposium ends**: a run has at most `N * (7 * bites + 7)` steps; it can always be continued
to an end; and where nothing can be done any more, the symposium is over. -/
theorem symposium_ends (c : SymposiumT) (kind : SymposiumKind) {as : List SymposiumAction}
    {s : Symposium} (h : (symposiumSys c kind).Run (.initial c) as s) :
    as.length ≤ c.N * (7 * c.bites.toNat + 7) ∧
      (∃ bs s', (symposiumSys c kind).Run s bs s' ∧ s'.Over c kind) ∧
      ((symposiumSys c kind).Stuck s → s.Over c kind) := by
  have hd := Symposium.descends c kind
  have hinit := Symposium.inv_initial c kind
  have hinv := hd.inv.run h hinit
  refine ⟨?_, ?_, hinv.over_of_stuck⟩
  · have := hd.run h hinit
    have := Symposium.rank_initial c
    omega
  · obtain ⟨bs, s', hrun, hstuck⟩ := hd.ends s hinv
    exact ⟨bs, s', hrun, (hd.inv.run hrun hinv).over_of_stuck hstuck⟩

/-- Three philosophers have come: one eats, and its neighbours sleep. -/
theorem symposium_ends_asleep : ∃ as s,
    ((symposiumSys ⟨3, 1⟩ .processes).Run (.initial ⟨3, 1⟩) as s ∧
      (s.pc 0 == .eating 0 && s.pc 1 == .asleep 0 && s.pc 2 == .asleep 0) = true) ∧
    as.length ≤ 3 * (7 * 1 + 7) ∧
      (∃ bs s', (symposiumSys ⟨3, 1⟩ .processes).Run s bs s' ∧ s'.Over ⟨3, 1⟩ .processes) ∧
      ((symposiumSys ⟨3, 1⟩ .processes).Stuck s → s.Over ⟨3, 1⟩ .processes) := by
  let as : List SymposiumAction := List.replicate 3 (.start true) ++ List.replicate 4 (.next 0) ++
    List.replicate 4 (.next 1) ++ List.replicate 4 (.next 2)
  have hrun : (((symposiumSys ⟨3, 1⟩ .processes).exec (fun _ _ => true) (.initial ⟨3, 1⟩) as).map
      fun s => s.pc 0 == .eating 0 && s.pc 1 == .asleep 0 && s.pc 2 == .asleep 0) = some true := by
    decide
  obtain ⟨s, hs, hpc⟩ := Option.map_eq_some_iff.mp hrun
  have h := (Sys.RunIf.of_exec (C := fun _ _ => True) (fun _ _ _ => trivial) hs).run
  exact ⟨as, s, ⟨h, hpc⟩, symposium_ends _ _ h⟩

end TinyOS
