import TinyOS.Symposium.Basic
import Mathlib.Data.Finset.Card
import Mathlib.Tactic.Common

/-!
# The symposium: the monitor's invariant

Between two critical sections the state of a philosopher is that of its position (`PhilPc.phil`), no
two neighbours eat, and **whoever is hungry has a neighbour that eats** (`Settled`): the signals go
to the right philosophers, and none is missed. `trytoeat` may break none of this (`Serves`); only a
philosopher that has eaten leaves two neighbours unsettled for a while, and it tries both.
-/

set_option autoImplicit false

namespace TinyOS

open Transition

/-! ## Neighbours -/

section

variable {i N : Nat}

theorem LEFT_eq (h : i < N) : LEFT i N = if i + 1 = N then 0 else i + 1 := by
  unfold LEFT
  split
  · rename_i he
    rw [he, Nat.mod_self]
  · exact Nat.mod_eq_of_lt (by omega)

theorem RIGHT_eq (h : i < N) : RIGHT i N = if i = 0 then N - 1 else i - 1 := by
  unfold RIGHT
  split
  · rename_i he
    rw [he, Nat.zero_add, Nat.mod_eq_of_lt (by omega)]
  · rw [show i + N - 1 = i - 1 + N by omega, Nat.add_mod_right, Nat.mod_eq_of_lt (by omega)]

theorem LEFT_lt (h : i < N) : LEFT i N < N := Nat.mod_lt _ (by omega)

theorem RIGHT_lt (h : i < N) : RIGHT i N < N := Nat.mod_lt _ (by omega)

theorem RIGHT_LEFT (h : i < N) : RIGHT (LEFT i N) N = i := by
  rw [RIGHT_eq (LEFT_lt h), LEFT_eq h]
  split <;> split <;> omega

theorem LEFT_RIGHT (h : i < N) : LEFT (RIGHT i N) N = i := by
  rw [LEFT_eq (RIGHT_lt h), RIGHT_eq h]
  split <;> split <;> omega

end

/-! ## Positions -/

namespace PhilPc

/-- The state that goes with a position. One that was made ready has been made to eat. -/
def phil : PhilPc → Phil
  | .absent | .arriving | .arrived | .gone | .aborted => .notHere
  | .thinking _ | .craving _ | .leaving | .left => .thinking
  | .asleep _ => .hungry
  | .woken _ | .relocked _ | .eating _ | .sated _ => .eating

/-- In a critical section. -/
def inside : PhilPc → Bool
  | .arrived | .craving _ | .relocked _ | .sated _ | .left => true
  | _ => false

/-- The turn of the loop. -/
def round : PhilPc → Option Nat
  | .thinking j | .craving j | .asleep j | .woken j | .relocked j | .eating j | .sated j => some j
  | _ => none

/-- How often a philosopher has got to eat. -/
def eaten (bites : Int) : PhilPc → Nat
  | .absent | .arriving | .arrived | .aborted => 0
  | .thinking j | .craving j | .asleep j | .woken j | .relocked j => j
  | .eating j | .sated j => j + 1
  | .leaving | .left | .gone => bites.toNat

theorem of_inside {pc : PhilPc} (h : pc.inside = true) :
    pc ≠ .absent ∧ pc ≠ .gone ∧ pc.phil ≠ .hungry := by
  cases pc <;> simp_all [inside, phil]

end PhilPc

namespace Symposium

variable {c : SymposiumT} {kind : SymposiumKind} {s s' s'' : Symposium}

theorem ready_of_ne {pc : PhilPc} (h : pc.phil ≠ .hungry) : ready pc = pc := by
  cases pc with
  | asleep j => exact absurd rfl h
  | _ => rfl

@[simp] theorem inside_ready (pc : PhilPc) : (ready pc).inside = pc.inside := by
  cases pc <;> rfl

@[simp] theorem round_ready (pc : PhilPc) : (ready pc).round = pc.round := by
  cases pc <;> rfl

@[simp] theorem eaten_ready (pc : PhilPc) : (ready pc).eaten c.bites = pc.eaten c.bites := by
  cases pc <;> rfl

/-- No philosopher eats beside another one. -/
def Apart (c : SymposiumT) (s : Symposium) : Prop :=
  ∀ i < c.N, s.state i = .eating → LEFT i c.N ≠ i → s.state (LEFT i c.N) ≠ .eating

/-- Philosopher `i` has a reason to be hungry. -/
def Settled (c : SymposiumT) (s : Symposium) (i : Nat) : Prop :=
  s.state i = .hungry → s.state (LEFT i c.N) = .eating ∨ s.state (RIGHT i c.N) = .eating

/-! ## `trytoeat` -/

/-- Some philosophers that were hungry eat, and are made ready. -/
structure Serves (c : SymposiumT) (s s' : Symposium) : Prop where
  state : ∀ k, s'.state k = s.state k ∨ s.state k = .hungry ∧ s'.state k = .eating
  pc : ∀ k, s'.pc k = if s'.state k = s.state k then s.pc k else ready (s.pc k)
  queue : ∀ k, (s'.hungry k).sleepers =
    if s'.state k = s.state k then (s.hungry k).sleepers else []
  rest : s'.mx = s.mx ∧ s'.main = s.main ∧ s'.reaped = s.reaped ∧ s'.meals = s.meals
  apart : s.Apart c → s'.Apart c

theorem Serves.refl (s : Symposium) : Serves c s s where
  state _ := .inl rfl
  pc _ := by rw [if_pos rfl]
  queue _ := by rw [if_pos rfl]
  rest := ⟨rfl, rfl, rfl, rfl⟩
  apart := id

theorem Serves.trans (h : Serves c s s') (h' : Serves c s' s'') : Serves c s s'' where
  state k := by
    have := h.state k
    have := h'.state k
    grind
  pc k := by
    rw [h'.pc, h.pc]
    have := h.state k
    have := h'.state k
    grind
  queue k := by
    rw [h'.queue, h.queue]
    have := h.state k
    have := h'.state k
    grind
  rest := by
    obtain ⟨h₁, h₂, h₃, h₄⟩ := h.rest
    obtain ⟨h₁', h₂', h₃', h₄'⟩ := h'.rest
    exact ⟨h₁'.trans h₁, h₂'.trans h₂, h₃'.trans h₃, h₄'.trans h₄⟩
  apart ha := h'.apart (h.apart ha)

/-- Who eats goes on eating. -/
theorem Serves.eating (h : Serves c s s') {k : Nat} (hk : s.state k = .eating) :
    s'.state k = .eating := by
  have := h.state k
  grind

theorem Serves.settled (h : Serves c s s') {k : Nat} (hk : s.Settled c k) : s'.Settled c k := by
  intro hh
  have hs : s.state k = .hungry := by
    have := h.state k
    grind
  exact (hk hs).imp h.eating h.eating

/-- The queue of a philosopher holds the philosopher, if it sleeps. -/
def Queued (s : Symposium) (k : Nat) : Prop :=
  (s.hungry k).sleepers = [k] ∨ (s.hungry k).sleepers = [] ∧ ready (s.pc k) = s.pc k

theorem signal_spec {k : Nat} (hq : s.Queued k) :
    (s.signal k).state = s.state ∧ (s.signal k).pc = Function.update s.pc k (ready (s.pc k)) ∧
      (∀ l, ((s.signal k).hungry l).sleepers = if l = k then [] else (s.hungry l).sleepers) ∧
      (s.signal k).mx = s.mx ∧ (s.signal k).main = s.main ∧ (s.signal k).reaped = s.reaped ∧
      (s.signal k).meals = s.meals := by
  rcases hq with hq | ⟨hq, hready⟩
  · have heq : s.signal k = { s.goto k (ready (s.pc k)) with
        hungry := Function.update s.hungry k (s.hungry k).wake } := by rw [signal, hq]
    rw [heq]
    refine ⟨rfl, rfl, fun l => ?_, rfl, rfl, rfl, rfl⟩
    simp only [Function.update_apply, CondQueue.wake, hq]
    split <;> rfl
  · have heq : s.signal k = s := by rw [signal, hq]
    rw [heq, hready, Function.update_eq_self]
    refine ⟨rfl, rfl, fun l => ?_, rfl, rfl, rfl, rfl⟩
    split
    · rename_i hl
      rw [hl, hq]
    · rfl

/-- **`trytoeat`** serves philosopher `k`, and nobody else; if it does not, `k` has to wait. -/
theorem trytoeat_spec {k : Nat} (hq : s.Queued k) :
    Serves c s (s.trytoeat c k) ∧ (s.trytoeat c k).Settled c k := by
  unfold trytoeat
  split
  · rename_i he
    obtain ⟨hh, hl, hr⟩ := he
    obtain ⟨hstate, hpc, hqueue, hmx, hmain, hreaped, hmeals⟩ :=
      signal_spec (s := s.setState k .eating) (k := k) hq
    simp only [setState] at hstate hpc hqueue hmx hmain hreaped hmeals
    refine ⟨⟨fun l => ?_, fun l => ?_, fun l => ?_, ⟨hmx, hmain, hreaped, hmeals⟩,
      fun ha i hi he hne => ?_⟩, fun hk => ?_⟩
    · simp only [setState, hstate, Function.update_apply]
      grind
    · simp only [setState, hstate, hpc, Function.update_apply]
      grind
    · simp only [setState, hstate, hqueue, Function.update_apply]
      grind
    · -- Nobody eats beside `k`.
      simp only [setState, hstate, Function.update_apply] at he ⊢
      have := ha i hi
      have := RIGHT_LEFT hi
      grind
    · simp [setState, hstate] at hk
  · rename_i he
    refine ⟨.refl s, fun hh => ?_⟩
    by_contra hno
    exact he ⟨hh, fun hl => hno (.inl hl), fun hr => hno (.inr hr)⟩

theorem Serves.queued (h : Serves c s s') {k : Nat} (hq : s.Queued k) : s'.Queued k := by
  have hready : ∀ pc, ready (ready pc) = ready pc := by
    intro pc
    cases pc <;> rfl
  have := h.queue k
  have := h.pc k
  unfold Queued at *
  grind

/-- Before turn `j`: the loop test. -/
theorem turn_spec (c : SymposiumT) {j : Nat} (hj : j = 0 ∨ (j : Int) ≤ c.bites) :
    (turn c j).phil = .thinking ∧ (turn c j).inside = false ∧
      (turn c j ≠ .absent ∧ turn c j ≠ .aborted) ∧
      (∀ k, (turn c j).round = some k → (k : Int) < c.bites) ∧ (turn c j).eaten c.bites = j := by
  unfold turn
  split
  · rename_i hlt
    refine ⟨rfl, rfl, by simp, fun k hk => ?_, rfl⟩
    cases hk
    exact hlt
  · refine ⟨rfl, rfl, by simp, fun k hk => ?_, ?_⟩
    · cases hk
    · simp only [PhilPc.eaten]
      omega

theorem apart_setState (h : s.Apart c) {i : Nat} {p : Phil} (hp : p ≠ .eating) :
    (s.setState i p).Apart c := by
  intro k hk
  have := h k hk
  simp only [setState, Function.update_apply]
  grind

/-- A philosopher that does not eat settles nobody. -/
theorem settled_setState {i k : Nat} (hk : s.Settled c k) (hki : k ≠ i) {p : Phil}
    (hne : s.state i ≠ .eating ∨ LEFT k c.N ≠ i ∧ RIGHT k c.N ≠ i) :
    (s.setState i p).Settled c k := by
  unfold Settled setState at *
  simp only [Function.update_apply]
  grind

/-! ## The invariant -/

/-- How many philosophers the first loop has been through, and how many waits the second. -/
def started (c : SymposiumT) : SymposiumPc → Nat
  | .starting i => i
  | .waiting _ | .done => c.N

def waited (c : SymposiumT) : SymposiumPc → Nat
  | .starting _ => 0
  | .waiting i => i
  | .done => c.N

theorem started_waitFrom (c : SymposiumT) (i : Nat) : started c (waitFrom c i) = c.N := by
  unfold waitFrom
  split <;> rfl

theorem waited_waitFrom {i : Nat} (hi : i ≤ c.N) : waited c (waitFrom c i) = i := by
  unfold waitFrom
  split
  · rfl
  · simp only [waited]
    omega

theorem startFrom_spec {i : Nat} (hi : i ≤ c.N) :
    started c (startFrom c i) = i ∧ waited c (startFrom c i) = 0 := by
  unfold startFrom
  split
  · exact ⟨rfl, rfl⟩
  · exact ⟨by rw [started_waitFrom]; omega, waited_waitFrom (Nat.zero_le _)⟩

theorem startFrom_lt {i k : Nat} (h : startFrom c i = .starting k ∨ startFrom c i = .waiting k) :
    k < c.N := by
  unfold startFrom waitFrom at h
  grind

theorem waitFrom_lt {i k : Nat} (h : waitFrom c i = .starting k ∨ waitFrom c i = .waiting k) :
    k < c.N := by
  unfold waitFrom at h
  grind

structure Inv (c : SymposiumT) (kind : SymposiumKind) (s : Symposium) : Prop where
  posture : ∀ i, s.state i = (s.pc i).phil
  queue : ∀ i, (s.hungry i).sleepers = if s.state i = .hungry then [i] else []
  apart : s.Apart c
  settled : ∀ i < c.N, s.Settled c i
  lock : s.mx = true ↔ ∃ i, (s.pc i).inside = true
  alone : ∀ i j, (s.pc i).inside = true → (s.pc j).inside = true → i = j
  asserted : ∀ i, s.pc i ≠ .aborted
  rounds : ∀ i j, (s.pc i).round = some j → (j : Int) < c.bites
  meals : ∀ i, s.meals i = (s.pc i).eaten c.bites
  absent : ∀ i, started c s.main ≤ i → s.pc i = .absent
  present : kind = .threads → ∀ i < started c s.main, s.pc i ≠ .absent
  main : ∀ i, s.main = .starting i ∨ s.main = .waiting i → i < c.N
  reaped : ∀ i, s.reaped i = true → i < c.N ∧ s.pc i = .gone
  joined : kind = .threads → ∀ i < waited c s.main, s.pc i = .gone
  awaited : kind = .processes → s.childless c ∨
    waited c s.main ≤ ((Finset.range c.N).filter fun i => s.reaped i = true).card

namespace Inv

theorem started_le (h : s.Inv c kind) : started c s.main ≤ c.N := by
  cases hm : s.main with
  | starting i => exact (h.main i (.inl hm)).le
  | waiting i | done => exact le_rfl

theorem lt (h : s.Inv c kind) {i : Nat} (hi : s.pc i ≠ .absent) : i < c.N := by
  by_contra hn
  exact hi (h.absent i (h.started_le.trans (Nat.le_of_not_lt hn)))

theorem queued (h : s.Inv c kind) (i : Nat) : s.Queued i := by
  by_cases hh : s.state i = .hungry
  · exact .inl (by rw [h.queue, if_pos hh])
  · exact .inr ⟨by rw [h.queue, if_neg hh], ready_of_ne (h.posture i ▸ hh)⟩

/-- Philosopher `i` takes the lock. -/
theorem acquire (h : s.Inv c kind) {i : Nat} {pc : PhilPc} (hmx : s.mx = false)
    (hphil : pc.phil = (s.pc i).phil) (hin : pc.inside = true)
    (hround : pc.round = none ∨ pc.round = (s.pc i).round)
    (heaten : pc.eaten c.bites = (s.pc i).eaten c.bites)
    (hpc : s.pc i ≠ .absent ∧ s.pc i ≠ .gone ∧ pc ≠ .absent) :
    ({ s.goto i pc with mx := true }).Inv c kind := by
  have hi := h.lt hpc.1
  have hfree : ∀ k, (s.pc k).inside = false := by
    intro k
    by_contra hk
    have := h.lock.mpr ⟨k, by simpa using hk⟩
    simp [hmx] at this
  have hab : pc ≠ .aborted := by
    rintro rfl
    cases hin
  constructor <;> simp only [goto, Function.update_apply]
  case posture => have := h.posture; grind
  case queue => exact h.queue
  case apart => exact h.apart
  case settled => exact h.settled
  case lock => exact ⟨fun _ => ⟨i, by simpa using hin⟩, fun _ => trivial⟩
  case alone => grind
  case asserted => have := h.asserted; grind
  case rounds => have := h.rounds; grind
  case meals => have := h.meals; grind
  case absent => have := h.absent; grind
  case present => have := h.present; grind
  case main => exact h.main
  case reaped => have := h.reaped; grind
  case joined => have := h.joined; grind
  case awaited =>
    refine fun hkind => (h.awaited hkind).imp (fun hl k hk hne => hl k hk ?_) id
    simp only [Function.update_apply] at hne
    grind

/-- Philosopher `i` leaves its critical section. Inside, it has changed its state to `p`, and then
served some others. -/
theorem release (h : s.Inv c kind) {i : Nat} {p : Phil} {pc : PhilPc}
    (hin : (s.pc i).inside = true) (hserves : Serves c (s.setState i p) s')
    (hapart : (s.setState i p).Apart c) (hsettled : ∀ k < c.N, s'.Settled c k)
    (hstate : s''.state = s'.state) (hpc : s''.pc = Function.update s'.pc i pc)
    (hqueue : ∀ k, (s''.hungry k).sleepers =
      if k = i ∧ s'.state i = .hungry then [i] else (s'.hungry k).sleepers)
    (hrest : s''.mx = false ∧ s''.main = s.main ∧ s''.reaped = s.reaped)
    (hphil : pc.phil = s'.state i) (hout : pc.inside = false) (hab : pc ≠ .absent ∧ pc ≠ .aborted)
    (hround : ∀ j, pc.round = some j → (j : Int) < c.bites)
    (hmeals : s''.meals = Function.update s.meals i (pc.eaten c.bites)) : s''.Inv c kind := by
  have hne := PhilPc.of_inside hin
  rw [← h.posture] at hne
  have hothers : ∀ k, k ≠ i → (s.pc k).inside = false := by
    intro k hk
    by_contra hke
    exact hk (h.alone k i (by simpa using hke) hin)
  have hserved := hserves.state
  have hserved_pc := hserves.pc
  have hserved_queue := hserves.queue
  obtain ⟨hmx, hmain, hreaped⟩ := hrest
  simp only [setState, Function.update_apply] at hserved hserved_pc hserved_queue
  -- Another philosopher stays where it is, or is made to eat.
  have hother : ∀ k, k ≠ i → s''.pc k = s.pc k ∧ s''.state k = s.state k ∨
      ∃ j, s.pc k = .asleep j ∧ s''.pc k = .woken j ∧ s.state k = .hungry ∧
        s''.state k = .eating := by
    intro k hk
    have hposture := h.posture k
    simp only [hpc, Function.update_of_ne hk, hserved_pc, hstate, if_neg hk]
    rcases hserved k with he | ⟨hh, he⟩
    · rw [if_neg hk] at he
      exact .inl ⟨if_pos he, he⟩
    · rw [if_neg hk] at hh
      obtain ⟨j, hj⟩ : ∃ j, s.pc k = .asleep j := by
        cases hp : s.pc k <;> simp_all [PhilPc.phil]
      exact .inr ⟨j, hj, by rw [if_neg (by simp [hh, he]), hj]; rfl, hh, he⟩
  have hself : s''.pc i = pc := by rw [hpc, Function.update_self]
  constructor
  case posture =>
    intro k
    by_cases hk : k = i
    · rw [hk, hself, hphil, hstate]
    · have := h.posture k
      rcases hother k hk with ⟨hp, hs⟩ | ⟨j, -, hp, -, hs⟩ <;> rw [hp, hs]
      · exact this
      · rfl
  case queue =>
    intro k
    have := h.queue k
    rw [hqueue, hserved_queue, hstate]
    grind
  case apart =>
    have := hserves.apart hapart
    unfold Apart at this ⊢
    rwa [hstate]
  case settled =>
    intro k hk
    have := hsettled k hk
    unfold Settled at this ⊢
    rwa [hstate]
  case lock =>
    refine ⟨fun hm => absurd hm (by simp [hmx]), fun ⟨k, hk⟩ => ?_⟩
    by_cases hki : k = i
    · rw [hki, hself, hout] at hk
      cases hk
    · have := hothers k hki
      rcases hother k hki with ⟨hp, -⟩ | ⟨j, -, hp, -⟩
      · rw [hp, this] at hk
        cases hk
      · rw [hp] at hk
        cases hk
  case alone =>
    intro k l hk
    by_cases hki : k = i
    · rw [hki, hself, hout] at hk
      cases hk
    · have := hothers k hki
      rcases hother k hki with ⟨hp, -⟩ | ⟨j, -, hp, -⟩
      · rw [hp, this] at hk
        cases hk
      · rw [hp] at hk
        cases hk
  case asserted => have := h.asserted; grind
  case rounds => have := h.rounds; grind [PhilPc.round]
  case meals =>
    intro k
    by_cases hk : k = i
    · rw [hmeals, hk, Function.update_self, hself]
    · rw [hmeals, Function.update_of_ne hk, h.meals]
      rcases hother k hk with ⟨hp, -⟩ | ⟨j, hj, hp, -⟩
      · rw [hp]
      · rw [hp, hj]
        rfl
  case absent =>
    have := h.absent
    rw [hmain]
    clear hserved hserved_pc hserved_queue hqueue
    grind
  case present =>
    have := h.present
    rw [hmain]
    clear hserved hserved_pc hserved_queue hqueue
    grind
  case main => exact hmain ▸ h.main
  case reaped =>
    have := h.reaped
    rw [hreaped]
    clear hserved hserved_pc hserved_queue hqueue
    grind
  case joined =>
    have := h.joined
    rw [hmain]
    clear hserved hserved_pc hserved_queue hqueue
    grind
  case awaited =>
    intro hkind
    rw [hmain, hreaped]
    refine (h.awaited hkind).imp (fun hl k hk hne' => ?_) id
    rw [hreaped]
    exact hl k hk (by grind)

/-- A critical section that only changes the state of its philosopher. -/
theorem settle (h : s.Inv c kind) {i : Nat} {p : Phil} {pc : PhilPc}
    (hin : (s.pc i).inside = true) (hne : s.state i ≠ .eating)
    (hp : p ≠ .eating ∧ p ≠ .hungry) (hphil : pc.phil = p) (hout : pc.inside = false)
    (hab : pc ≠ .absent ∧ pc ≠ .aborted)
    (hround : ∀ j, pc.round = some j → (j : Int) < c.bites)
    (heaten : pc.eaten c.bites = (s.pc i).eaten c.bites) :
    ((s.setState i p).unlock i pc).Inv c kind := by
  refine h.release hin (.refl _) (apart_setState h.apart hp.1) (fun k hk => ?_) rfl rfl ?_
    ⟨rfl, rfl, rfl⟩ ?_ hout hab hround ?_
  · by_cases hki : k = i
    · intro hh
      rw [hki] at hh
      exact absurd (by simpa [setState] using hh) hp.2
    · exact settled_setState (h.settled k hk) hki (.inl hne)
  · intro k
    rw [if_neg]
    · rfl
    · rintro ⟨-, hh⟩
      exact hp.2 (by simpa [setState] using hh)
  · rw [hphil]
    simp [setState]
  · show s.meals = _
    rw [heaten, ← h.meals, Function.update_eq_self]

/-- The critical section before a philosopher eats. -/
theorem crave (h : s.Inv c kind) {i j : Nat} (hi : s.pc i = .craving j) :
    (((s.setState i .hungry).trytoeat c i).wait i j).Inv c kind := by
  have hin : (s.pc i).inside = true := by rw [hi]; rfl
  have hthinks : s.state i = .thinking := by rw [h.posture, hi]; rfl
  have hround : (j : Int) < c.bites := h.rounds i j (by rw [hi]; rfl)
  have hmeals : s.meals i = j := by rw [h.meals, hi]; rfl
  obtain ⟨hserves, hsettled⟩ := trytoeat_spec (c := c) (s := s.setState i .hungry) (h.queued i)
  have hother : ∀ k < c.N, ((s.setState i .hungry).trytoeat c i).Settled c k := by
    intro k hk
    by_cases hki : k = i
    · exact hki ▸ hsettled
    · exact hserves.settled (settled_setState (h.settled k hk) hki (.inl (by simp [hthinks])))
  have hapart := apart_setState h.apart (i := i) (p := .hungry) (by simp)
  obtain ⟨-, hmain, hreaped, hmeal⟩ := hserves.rest
  have hqueue := hserves.queue i
  have hold := h.queue i
  have hstate := hserves.state i
  rw [hthinks, if_neg (by simp)] at hold
  generalize (s.setState i .hungry).trytoeat c i = s' at *
  simp only [setState, Function.update_self, hold, ite_self] at hqueue hstate
  unfold wait
  split
  · -- It has to wait: it sleeps, alone on its condition variable.
    rename_i hh
    refine h.release hin hserves hapart hother rfl (show _ = Function.update _ i (.asleep j) from rfl)
      (fun k => ?_) ⟨rfl, hmain, hreaped⟩ hh.symm rfl (by simp) (fun k hk => ?_) ?_
    · simp only [Function.update_apply, hh, and_true, CondQueue.sleep]
      split
      · rw [hqueue]
        rfl
      · rfl
    · cases hk
      exact hround
    · show s'.meals = _
      rw [hmeal]
      exact (Function.update_eq_self i _).symm.trans (by rw [← hmeals]; rfl)
  · rename_i hh
    have he : s'.state i = .eating := by grind
    rw [if_pos he]
    refine h.release hin hserves hapart hother rfl (show _ = Function.update _ i (.eating j) from rfl)
      (fun k => ?_) ⟨rfl, hmain, hreaped⟩ he.symm rfl (by simp) (fun k hk => ?_) ?_
    · rw [if_neg fun hc => hh hc.2]
      rfl
    · cases hk
      exact hround
    · show Function.update s'.meals i (s'.meals i + 1) = _
      rw [hmeal]
      simp only [setState, hmeals]
      rfl

/-- `Cond_Wait` has returned, and it is the philosopher's turn. -/
theorem relock (h : s.Inv c kind) {i j : Nat} (hi : s.pc i = .relocked j) :
    (s.wait i j).Inv c kind := by
  have hin : (s.pc i).inside = true := by rw [hi]; rfl
  have heats : s.state i = .eating := by rw [h.posture, hi]; rfl
  have hround : (j : Int) < c.bites := h.rounds i j (by rw [hi]; rfl)
  have hmeals : s.meals i = j := by rw [h.meals, hi]; rfl
  have hsame : s.setState i .eating = s := by rw [setState, ← heats, Function.update_eq_self]
  unfold wait
  rw [if_neg (by simp [heats]), if_pos heats]
  have hserves : Serves c (s.setState i .eating) s := by rw [hsame]; exact .refl s
  refine h.release hin hserves (by rw [hsame]; exact h.apart) h.settled rfl
    (show _ = Function.update _ i (.eating j) from rfl) (fun k => ?_) ⟨rfl, rfl, rfl⟩ heats.symm rfl
    (by simp) (fun k hk => ?_) ?_
  · rw [if_neg]
    · rfl
    · rintro ⟨-, hh⟩
      simp [heats] at hh
  · cases hk
    exact hround
  · show Function.update s.meals i (s.meals i + 1) = _
    rw [hmeals]
    rfl

/-- The critical section after a philosopher has eaten: only its neighbours may have waited for it,
and it tries both. -/
theorem sate (h : s.Inv c kind) {i j : Nat} (hi : s.pc i = .sated j) :
    ((((s.setState i .thinking).trytoeat c (LEFT i c.N)).trytoeat c (RIGHT i c.N)).unlock i
      (turn c (j + 1))).Inv c kind := by
  have hin : (s.pc i).inside = true := by rw [hi]; rfl
  have hlt := h.lt (PhilPc.of_inside hin).1
  have hround : (j : Int) < c.bites := h.rounds i j (by rw [hi]; rfl)
  have hmeals : s.meals i = j + 1 := by rw [h.meals, hi]; rfl
  obtain ⟨hphil, hout, hab, hrounds, heaten⟩ := turn_spec c (j := j + 1) (.inr (by omega))
  have hqueued : ∀ k, (s.setState i .thinking).Queued k := h.queued
  obtain ⟨hserves, hleft⟩ := trytoeat_spec (c := c) (hqueued (LEFT i c.N))
  obtain ⟨hserves', hright⟩ :=
    trytoeat_spec (c := c) (hserves.queued (hqueued (RIGHT i c.N)))
  have hboth := hserves.trans hserves'
  have hthinks := hboth.state i
  have hsettled : ∀ k < c.N, (((s.setState i .thinking).trytoeat c (LEFT i c.N)).trytoeat c
      (RIGHT i c.N)).Settled c k := by
    intro k hk
    by_cases hkr : k = RIGHT i c.N
    · exact hkr ▸ hright
    · by_cases hkl : k = LEFT i c.N
      · exact hserves'.settled (hkl ▸ hleft)
      · by_cases hki : k = i
        · intro hh
          have := hboth.state k
          simp only [hki, setState, Function.update_self] at hh this
          grind
        · refine hboth.settled (settled_setState (h.settled k hk) hki (.inr ⟨?_, ?_⟩))
          · rintro rfl
            exact hkr (RIGHT_LEFT hk).symm
          · rintro rfl
            exact hkl (LEFT_RIGHT hk).symm
  have hapart := apart_setState h.apart (i := i) (p := .thinking) (by simp)
  obtain ⟨-, hmain, hreaped, hmeal⟩ := hboth.rest
  generalize ((s.setState i .thinking).trytoeat c (LEFT i c.N)).trytoeat c (RIGHT i c.N) = s' at *
  simp only [setState, Function.update_self] at hthinks
  have hstate : s'.state i = .thinking := by grind
  refine h.release hin hboth hapart hsettled rfl rfl (fun k => ?_) ⟨rfl, hmain, hreaped⟩
    (hphil.trans hstate.symm) hout hab hrounds ?_
  · rw [if_neg]
    · rfl
    · rintro ⟨-, hh⟩
      simp [hstate] at hh
  · show s'.meals = _
    rw [hmeal, heaten, ← hmeals, Function.update_eq_self]
    rfl

/-- **One step of a philosopher.** -/
theorem next (h : s.Inv c kind) {i : Nat} (hs : s.next c i = some s') : s'.Inv c kind := by
  have hlock : ∀ {pc : PhilPc}, s.lock i pc = some s' → pc.phil = (s.pc i).phil →
      pc.inside = true → pc.round = none ∨ pc.round = (s.pc i).round →
      pc.eaten c.bites = (s.pc i).eaten c.bites →
      s.pc i ≠ .absent ∧ s.pc i ≠ .gone ∧ pc ≠ .absent → s'.Inv c kind := by
    intro pc hl hphil hin hround heaten hne
    unfold Symposium.lock at hl
    split at hl
    · cases hl
    · rename_i hmx
      cases hl
      exact h.acquire (by simpa using hmx) hphil hin hround heaten hne
  unfold Symposium.next at hs
  cases hpc : s.pc i with
  | absent | asleep j | gone | aborted => simp [hpc] at hs
  | arriving | thinking j | woken j | eating j | leaving =>
    simp only [hpc] at hs
    refine hlock hs ?_ ?_ ?_ ?_ ?_ <;> simp [hpc, PhilPc.phil, PhilPc.inside, PhilPc.round,
      PhilPc.eaten]
  | arrived =>
    simp only [hpc, Option.some.injEq] at hs
    obtain ⟨hphil, hout, hab, hrounds, heaten⟩ := turn_spec c (j := 0) (.inl rfl)
    exact hs ▸ h.settle (by rw [hpc]; rfl) (by rw [h.posture, hpc]; simp [PhilPc.phil])
      (by simp) hphil hout hab hrounds (by rw [heaten, hpc]; rfl)
  | craving j =>
    simp only [hpc, Option.some.injEq] at hs
    exact hs ▸ h.crave hpc
  | relocked j =>
    simp only [hpc, Option.some.injEq] at hs
    exact hs ▸ h.relock hpc
  | sated j =>
    simp only [hpc, Option.some.injEq] at hs
    exact hs ▸ h.sate hpc
  | left =>
    simp only [hpc, Option.some.injEq] at hs
    exact hs ▸ h.settle (by rw [hpc]; rfl) (by rw [h.posture, hpc]; simp [PhilPc.phil])
      (by simp) rfl rfl (by simp) (fun k hk => by cases hk) (by rw [hpc]; rfl)

/-! The program that runs the symposium. -/

theorem start (h : s.Inv c kind) {ok : Bool} (hs : s.start c kind ok = some s') :
    s'.Inv c kind := by
  unfold Symposium.start at hs
  cases hm : s.main with
  | waiting i | done => simp [hm] at hs
  | starting i =>
    simp only [hm] at hs
    have hi := h.main i (.inl hm)
    obtain ⟨hstarted, hwaited⟩ := startFrom_spec (c := c) (i := i + 1) hi
    have habsent := h.absent i (by rw [hm]; exact le_rfl)
    have hposture := h.posture i
    have hmeals := h.meals i
    have hold : started c s.main = i := by rw [hm]; rfl
    rw [habsent] at hposture hmeals
    split at hs
    · cases hs
      constructor <;> try simp only [goto, Function.update_apply, hstarted, hwaited]
      case posture => have := h.posture; grind [PhilPc.phil]
      case queue => exact h.queue
      case apart => exact h.apart
      case settled => exact h.settled
      case lock =>
        rw [h.lock]
        refine exists_congr fun k => ?_
        grind [PhilPc.inside]
      case alone => have := h.alone; grind [PhilPc.inside]
      case asserted => have := h.asserted; grind
      case rounds => have := h.rounds; grind [PhilPc.round]
      case meals => have := h.meals; grind [PhilPc.eaten]
      case absent => have := h.absent; grind
      case present => have := h.present; grind
      case main => exact fun k => startFrom_lt
      case reaped => have := h.reaped; grind
      case joined => omega
      case awaited => exact fun _ => .inr (Nat.zero_le _)
    · split at hs
      · rename_i hkind
        cases hs
        constructor <;> try simp only [hstarted, hwaited]
        case posture => exact h.posture
        case queue => exact h.queue
        case apart => exact h.apart
        case settled => exact h.settled
        case lock => exact h.lock
        case alone => exact h.alone
        case asserted => exact h.asserted
        case rounds => exact h.rounds
        case meals => exact h.meals
        case absent => have := h.absent; grind
        case present => simp [hkind]
        case main => exact fun k => startFrom_lt
        case reaped => exact h.reaped
        case joined => omega
        case awaited => exact fun _ => .inr (Nat.zero_le _)
      · cases hs

/-- A wait that returns takes the second loop one turn on. -/
theorem turnOn (h : s.Inv c kind) {i : Nat} (hm : s.main = .waiting i) {r : Nat → Bool}
    (hreaped : ∀ k, r k = true → k < c.N ∧ s.pc k = .gone)
    (hjoined : kind = .threads → s.pc i = .gone)
    (hawaited : kind = .processes → ({ s with reaped := r }).childless c ∨
      i + 1 ≤ ((Finset.range c.N).filter fun k => r k = true).card) :
    ({ s with main := waitFrom c (i + 1), reaped := r }).Inv c kind := by
  have hi := h.main i (.inr hm)
  have hstarted : started c s.main = c.N := by rw [hm]; rfl
  have hwaited : waited c s.main = i := by rw [hm]; rfl
  constructor <;> try simp only [started_waitFrom, waited_waitFrom (Nat.succ_le_of_lt hi)]
  case posture => exact h.posture
  case queue => exact h.queue
  case apart => exact h.apart
  case settled => exact h.settled
  case lock => exact h.lock
  case alone => exact h.alone
  case asserted => exact h.asserted
  case rounds => exact h.rounds
  case meals => exact h.meals
  case absent => exact hstarted ▸ h.absent
  case present => exact hstarted ▸ h.present
  case main => exact fun k => waitFrom_lt
  case reaped => exact hreaped
  case joined =>
    have := h.joined
    have := hjoined
    grind
  case awaited => exact hawaited

theorem await (h : s.Inv c kind) {child : Option Nat} (hs : s.await c kind child = some s') :
    s'.Inv c kind := by
  unfold Symposium.await at hs
  split at hs
  · rename_i i hm
    split at hs
    · rename_i hgone
      cases hs
      exact h.turnOn hm h.reaped (fun _ => hgone) (by simp)
    · cases hs
  · rename_i i p hm
    split at hs
    · rename_i hp
      obtain ⟨hgone, hnot⟩ := hp
      cases hs
      have hp : p < c.N := h.lt (by simp [hgone])
      refine h.turnOn hm (fun k hk => ?_) (by simp) fun hkind => ?_
      · simp only [Function.update_apply] at hk
        have := h.reaped
        grind
      · rcases h.awaited hkind with hl | hcount
        · have := hl p hp (by simp [hgone])
          simp [hnot] at this
        · -- One more child is reaped.
          right
          have hins : ((Finset.range c.N).filter fun k =>
              Function.update s.reaped p true k = true) =
              insert p ((Finset.range c.N).filter fun k => s.reaped k = true) := by
            ext k
            simp only [Finset.mem_filter, Finset.mem_range, Finset.mem_insert,
              Function.update_apply]
            grind
          rw [hins, Finset.card_insert_of_notMem (by simp [hnot])]
          rw [hm] at hcount
          exact Nat.succ_le_succ hcount
    · cases hs
  · rename_i i hm
    split at hs
    · rename_i hl
      cases hs
      exact h.turnOn hm h.reaped (by simp) fun _ => .inl hl
    · cases hs
  · cases hs

end Inv

theorem inv_initial (c : SymposiumT) (kind : SymposiumKind) : (initial c).Inv c kind := by
  obtain ⟨hstarted, hwaited⟩ := startFrom_spec (c := c) (i := 0) (Nat.zero_le _)
  constructor <;> simp only [initial, hstarted, hwaited]
  case apart => exact fun i _ hi => by cases hi
  case settled => exact fun i _ hi => by cases hi
  case main => exact fun k => startFrom_lt
  all_goals simp [PhilPc.phil, PhilPc.inside, PhilPc.round, PhilPc.eaten]

theorem inv_inductive (c : SymposiumT) (kind : SymposiumKind) :
    (symposiumSys c kind).Inductive (Inv c kind) where
  init s hs := hs ▸ inv_initial c kind
  step s a s' h _ hs := by
    cases a with
    | start ok => exact h.start hs
    | wait child => exact h.await hs
    | next i => exact h.next hs

end Symposium

end TinyOS
