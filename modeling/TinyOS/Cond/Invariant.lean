import TinyOS.Cond.Basic

/-!
# The invariant of the condition variable

A thread is a *waiter* from the push in `cv_wait` until it has taken the lock back after its sleep
(`CondPc.Waiting`); its flag `removed` is read in that span and in no other. The ring holds the
waiters that nobody has removed, in the order of their arrival.

The race is between a signaller and a timeout. A waiter that timed out stays on the ring until it
gets the lock, and a signaller that comes first pops it, finds it ready, and goes on to the next:
**an asleep waiter is on the ring, except for the one a signaller holds between the removal and
the call of `wakeup`**.
-/

set_option autoImplicit false

namespace TinyOS

open Transition

namespace CondPc

variable {T M : Type}

/-- The thread's waiter is of interest to the signallers. -/
def waiting : CondPc T M → Bool
  | .waitPushed _ _ | .waitReleased _ _ | .asleep _ _ | .woken _ => true
  | _ => false

/-- The thread holds `waitset_lock`. -/
def holds : CondPc T M → Bool
  | .waitPushed _ _ | .waitReleased _ _ | .tidied _ | .sigScan _ | .sigWake _ _ | .sigMark _ _
  | .sigUnlock _ => true
  | _ => false

/-- The waiter that a signaller has removed, if it is about to call `wakeup` on it. -/
def wakes : CondPc T M → Option T
  | .sigWake _ w => some w
  | _ => none

/-- The waiter that a signaller has made ready, if it is about to set its flag. -/
def marks : CondPc T M → Option T
  | .sigMark _ w => some w
  | _ => none

/-- The thread is `STOPPED`. -/
def stopped : CondPc T M → Bool
  | .asleep _ _ => true
  | _ => false

@[grind →]
theorem holds_of_wakes {p : CondPc T M} {w : T} (h : p.wakes = some w) : p.holds = true := by
  cases p <;> simp_all [wakes, holds]

@[grind →]
theorem holds_of_marks {p : CondPc T M} {w : T} (h : p.marks = some w) : p.holds = true := by
  cases p <;> simp_all [marks, holds]

end CondPc

namespace CondState

variable {T M : Type}

/-! ## The ring -/

/-- The ring headed by `waitset` is `l`, and no other node is on a ring with another. -/
structure Ringed (waitset : Option T) (links : Links T) (l : List T) : Prop where
  wellLinked : links.WellLinked
  ring : IsRing links.next l
  waitset : waitset = l.head?
  single : ∀ t, t ∉ l → links.next t = t

section

variable [DecidableEq T] {s : CondState T M}

theorem removeFromRing_eq (s : CondState T M) (w : T) : s.removeFromRing w = { s with
    waitset := if s.waitset = some w then
      (if s.links.next w = w then none else some (s.links.next w)) else s.waitset
    links := s.links.remove w } := by
  unfold CondState.removeFromRing
  split <;> rfl

/-- A waiter leaves the ring from anywhere, and `waitset` is repaired. -/
theorem Ringed.removeFromRing {l : List T} (h : Ringed s.waitset s.links l) {w : T}
    (hw : w ∈ l) : ∃ waitset links, s.removeFromRing w = { s with waitset, links } ∧
      Ringed waitset links (l.erase w) := by
  obtain ⟨hring, hself, hother⟩ := IsRing.remove h.wellLinked h.ring hw
  refine ⟨_, _, removeFromRing_eq s w, h.wellLinked.remove w, hring, ?_, fun t ht => ?_⟩
  · rw [h.waitset]
    cases l with
    | nil => exact absurd hw List.not_mem_nil
    | cons a l =>
      by_cases ha : a = w
      · subst ha
        rw [List.head?_cons, if_pos rfl, List.erase_cons_head]
        cases l with
        | nil => rw [IsRing.next_single.mp h.ring, if_pos rfl, List.head?_nil]
        | cons b l =>
          have hne : b ≠ a := fun e => (List.nodup_cons.mp h.ring.1).1 (by simp [e])
          rw [h.ring.next_head, if_neg hne, List.head?_cons]
      · rw [List.head?_cons, if_neg (by simpa using ha), List.erase_cons_tail (by simpa using ha),
          List.head?_cons]
  · by_cases htw : t = w
    · rw [htw, hself]
    · have hnt : t ∉ l := fun hm => ht ((List.mem_erase_of_ne htw).mpr hm)
      rw [hother t hnt, h.single t hnt]

/-- A new waiter goes to the back of the ring. -/
theorem Ringed.pushWaiter {l : List T} (h : Ringed s.waitset s.links l) {t : T} (ht : t ∉ l) :
    ∃ waitset links, s.pushWaiter t = { s with
      waitset, links, arrivals := s.arrivals + 1
      ticket := Function.update s.ticket t s.arrivals } ∧ Ringed waitset links (l ++ [t]) := by
  unfold CondState.pushWaiter
  cases l with
  | nil =>
    refine ⟨some t, s.links, by rw [h.waitset]; rfl, h.wellLinked,
      IsRing.next_single.mpr (h.single t ht), rfl, fun u _ => h.single u List.not_mem_nil⟩
  | cons a l =>
    refine ⟨s.waitset, s.links.pushBack a t, by rw [h.waitset]; rfl, h.wellLinked.pushBack a t,
      IsRing.pushBack h.wellLinked h.ring (h.single t ht) ht, h.waitset, fun u hu => ?_⟩
    simp only [List.mem_append, List.mem_singleton, not_or] at hu
    rw [IsRing.pushBack_next h.wellLinked h.ring List.mem_cons_self hu.1 hu.2]
    exact h.single u hu.1

/-- A waiter that is initialised is on no ring, so its links do not change. -/
theorem Ringed.initWaiter {l : List T} (h : Ringed s.waitset s.links l) {t : T} (ht : t ∉ l) :
    s.initWaiter t = { s with
      signalled := Function.update s.signalled t false
      removed := Function.update s.removed t false
      cause := Function.update s.cause t none } := by
  rw [CondState.initWaiter, h.wellLinked.init_eq (h.single t ht)]

end

/-! ## The invariant -/

variable {s : CondState T M}

structure Inv (s : CondState T M) (l : List T) : Prop where
  ringed : Ringed s.waitset s.links l
  mem : ∀ t, t ∈ l ↔ (s.pc t).waiting = true ∧ s.removed t = false
  sorted : l.Pairwise fun t u => s.ticket t < s.ticket u
  arrived : ∀ t, (s.pc t).waiting = true → s.ticket t < s.arrivals
  lock : s.waitsetLock = true ↔ ∃ t, (s.pc t).holds = true
  alone : ∀ t u, (s.pc t).holds = true → (s.pc u).holds = true → t = u
  fresh : ∀ t m timed, s.pc t = .waitLock m timed ∨ s.pc t = .waitPushed m timed ∨
    s.pc t = .waitReleased m timed →
      s.signalled t = false ∧ s.removed t = false ∧ s.cause t = none
  asleep : ∀ t m timed, s.pc t = .asleep m timed →
    s.signalled t = false ∧ s.cause t = none ∧
      (s.removed t = true → ∃ u, (s.pc u).wakes = some t)
  woken : ∀ t m, s.pc t = .woken m →
    s.cause t = some .timeout ∧ s.signalled t = false ∨
    s.cause t = some .signal ∧ s.removed t = true ∧ 
      (s.signalled t = false → ∃ u, (s.pc u).marks = some t)
  tidied : ∀ t m, s.pc t = .tidied m ∨ s.pc t = .relock m →
    s.cause t = some (if s.signalled t then .signal else .timeout)
  returned : ∀ t r, s.pc t = .returned r → s.cause t = some (if r then .signal else .timeout)
  waking : ∀ t w, (s.pc t).wakes = some w → (s.pc w).waiting = true ∧
    s.removed w = true ∧ s.signalled w = false ∧ s.cause w ≠ some .signal ∧
    ∀ u ∈ l, s.ticket w < s.ticket u
  marking : ∀ t w, (s.pc t).marks = some w → s.made t ≠ [] ∧ s.removed w = true ∧
    s.cause w = some .signal ∧ ∃ m, s.pc w = .woken m
  signal : ∀ t, (s.pc t = .sigLock false ∨ s.pc t = .sigScan false ∨
    ∃ w, s.pc t = .sigWake false w) → s.made t = []
  signalled : ∀ t, ((∃ w, s.pc t = .sigMark false w) ∨ s.pc t = .sigUnlock false) →
    (s.made t).length ≤ 1
  found : ∀ t all, s.pc t = .sigUnlock all →
    (all = false ∧ s.made t ≠ []) ∨ (l = [] ∧ ∀ u, (s.pc u).stopped = false)

/-! ## One thread -/

/-- What the invariant says of thread `t` alone, when it is at `p`. -/
def Told (s : CondState T M) (l : List T) (t : T) : CondPc T M → Prop
  | .idle => True
  | .waitLock _ _ | .waitPushed _ _ | .waitReleased _ _ =>
    s.signalled t = false ∧ s.removed t = false ∧ s.cause t = none
  | .asleep _ _ => s.signalled t = false ∧ s.cause t = none ∧
    (s.removed t = true → ∃ u, (s.pc u).wakes = some t)
  | .woken _ => s.cause t = some .timeout ∧ s.signalled t = false ∨
    s.cause t = some .signal ∧ s.removed t = true ∧
      (s.signalled t = false → ∃ u, (s.pc u).marks = some t)
  | .tidied _ | .relock _ => s.cause t = some (if s.signalled t then .signal else .timeout)
  | .returned r => s.cause t = some (if r then .signal else .timeout)
  | .sigLock all | .sigScan all | .sigWake all _ => all = false → s.made t = []
  | .sigMark all _ => all = false → (s.made t).length ≤ 1
  | .sigUnlock all => (all = false → (s.made t).length ≤ 1) ∧
    (all = false ∧ s.made t ≠ [] ∨ l = [] ∧ ∀ u, (s.pc u).stopped = false)

theorem Inv.told {l : List T} (h : s.Inv l) (t : T) : s.Told l t (s.pc t) := by
  cases hp : s.pc t with
  | idle => exact trivial
  | waitLock m timed => exact h.fresh t m timed (.inl hp)
  | waitPushed m timed => exact h.fresh t m timed (.inr (.inl hp))
  | waitReleased m timed => exact h.fresh t m timed (.inr (.inr hp))
  | asleep m timed => exact h.asleep t m timed hp
  | woken m => exact h.woken t m hp
  | tidied m => exact h.tidied t m (.inl hp)
  | relock m => exact h.tidied t m (.inr hp)
  | returned r => exact h.returned t r hp
  | sigLock all =>
    rintro rfl
    exact h.signal t (.inl hp)
  | sigScan all =>
    rintro rfl
    exact h.signal t (.inr (.inl hp))
  | sigWake all w =>
    rintro rfl
    exact h.signal t (.inr (.inr ⟨w, hp⟩))
  | sigMark all w =>
    rintro rfl
    exact h.signalled t (.inl ⟨w, hp⟩)
  | sigUnlock all =>
    refine ⟨?_, h.found t all hp⟩
    rintro rfl
    exact h.signalled t (.inr hp)

/-- The invariant from what it says of the ring, of the lock, of the signallers, and of each thread
alone. -/
theorem Inv.of_told {l : List T} (ringed : Ringed s.waitset s.links l)
    (mem : ∀ t, t ∈ l ↔ (s.pc t).waiting = true ∧ s.removed t = false)
    (sorted : l.Pairwise fun t u => s.ticket t < s.ticket u)
    (arrived : ∀ t, (s.pc t).waiting = true → s.ticket t < s.arrivals)
    (lock : s.waitsetLock = true ↔ ∃ t, (s.pc t).holds = true)
    (alone : ∀ t u, (s.pc t).holds = true → (s.pc u).holds = true → t = u)
    (waking : ∀ t w, (s.pc t).wakes = some w → (s.pc w).waiting = true ∧
      s.removed w = true ∧ s.signalled w = false ∧ s.cause w ≠ some .signal ∧
      ∀ u ∈ l, s.ticket w < s.ticket u)
    (marking : ∀ t w, (s.pc t).marks = some w → s.made t ≠ [] ∧ s.removed w = true ∧
      s.cause w = some .signal ∧ ∃ m, s.pc w = .woken m)
    (told : ∀ t, s.Told l t (s.pc t)) : s.Inv l where
  ringed := ringed
  mem := mem
  sorted := sorted
  arrived := arrived
  lock := lock
  alone := alone
  waking := waking
  marking := marking
  fresh t m timed hp := by
    have ht := told t
    rcases hp with hp | hp | hp
    all_goals
      rw [hp] at ht
      exact ht
  asleep t m timed hp := by
    have ht := told t
    rwa [hp] at ht
  woken t m hp := by
    have ht := told t
    rwa [hp] at ht
  tidied t m hp := by
    have ht := told t
    rcases hp with hp | hp
    all_goals
      rw [hp] at ht
      exact ht
  returned t r hp := by
    have ht := told t
    rwa [hp] at ht
  signal t hp := by
    have ht := told t
    rcases hp with hp | hp | ⟨w, hp⟩
    all_goals
      rw [hp] at ht
      exact ht rfl
  signalled t hp := by
    have ht := told t
    rcases hp with ⟨w, hp⟩ | hp
    · rw [hp] at ht
      exact ht rfl
    · rw [hp] at ht
      exact ht.1 rfl
  found t all hp := by
    have ht := told t
    rw [hp] at ht
    exact ht.2

/-- It reads nothing but the flags of the thread, who wakes and marks it, and, at the end of a
signal, whether anyone sleeps. -/
theorem Told.congr {s' : CondState T M} {l l' : List T} {t : T} {p : CondPc T M}
    (h : s.Told l t p) (hsignalled : s'.signalled t = s.signalled t)
    (hremoved : s'.removed t = s.removed t) (hcause : s'.cause t = s.cause t)
    (hmade : s'.made t = s.made t)
    (hwakes : p.stopped = true → (∃ u, (s.pc u).wakes = some t) → ∃ u, (s'.pc u).wakes = some t)
    (hmarks : (∃ u, (s.pc u).marks = some t) → ∃ u, (s'.pc u).marks = some t)
    (hidle : p.holds = true → l = [] ∧ (∀ u, (s.pc u).stopped = false) →
      l' = [] ∧ ∀ u, (s'.pc u).stopped = false) : s'.Told l' t p := by
  cases p with
  | idle => exact trivial
  | waitLock | waitPushed | waitReleased =>
    show s'.signalled t = false ∧ s'.removed t = false ∧ s'.cause t = none
    rw [hsignalled, hremoved, hcause]
    exact h
  | asleep =>
    obtain ⟨hs, hc, hr⟩ := h
    refine ⟨hsignalled.trans hs, hcause.trans hc, fun hrem => ?_⟩
    rw [hremoved] at hrem
    exact hwakes rfl (hr hrem)
  | woken =>
    rcases h with ⟨hc, hs⟩ | ⟨hc, hr, hs⟩
    · exact .inl ⟨hcause.trans hc, hsignalled.trans hs⟩
    · refine .inr ⟨hcause.trans hc, hremoved.trans hr, fun hsig => ?_⟩
      rw [hsignalled] at hsig
      exact hmarks (hs hsig)
  | tidied | relock =>
    show s'.cause t = some (if s'.signalled t then .signal else .timeout)
    rw [hsignalled, hcause]
    exact h
  | returned r => exact hcause.trans h
  | sigLock | sigScan | sigWake => exact fun hall => hmade.trans (h hall)
  | sigMark =>
    intro hall
    rw [hmade]
    exact h hall
  | sigUnlock =>
    obtain ⟨hlen, hfound⟩ := h
    refine ⟨fun hall => ?_, ?_⟩
    · rw [hmade]
      exact hlen hall
    · rw [hmade]
      exact hfound.imp_right (hidle rfl)

theorem inv_initial : (initial T M).Inv [] := by
  constructor
  case ringed => exact ⟨⟨fun _ => rfl, fun _ => rfl⟩, .nil, rfl, fun _ _ => rfl⟩
  case sorted => exact .nil
  case lock => simp [initial, CondPc.holds]
  all_goals simp [initial, CondPc.holds, CondPc.waiting, CondPc.wakes, CondPc.marks]

/-! ## Every step keeps it -/

section

variable [DecidableEq T] {l : List T}

/-- A thread that is not about to wake or mark a waiter moves to where it is not, either. -/
theorem exists_update_iff {α : Type} (f : CondPc T M → Option α) (pc : T → CondPc T M) (t : T)
    (p : CondPc T M) (ht : f (pc t) = none) (hp : f p = none) (w : α) :
    (∃ u, f (Function.update pc t p u) = some w) ↔ ∃ u, f (pc u) = some w := by
  refine exists_congr fun u => ?_
  by_cases hu : u = t
  · subst hu
    simp [ht, hp]
  · rw [Function.update_of_ne hu]

/-- A step that touches only what is told of the thread that takes it. -/
theorem Inv.told_goto (h : s.Inv l) {s' : CondState T M} {l' : List T} {t : T} {p : CondPc T M}
    (hpc : s'.pc = Function.update s.pc t p) (hp : s'.Told l' t p)
    (hothers : ∀ u, u ≠ t → s'.signalled u = s.signalled u ∧ s'.removed u = s.removed u ∧
      s'.cause u = s.cause u ∧ s'.made u = s.made u)
    (hwakes : ∀ w, (s.pc w).stopped = true → (∃ u, (s.pc u).wakes = some w) →
      ∃ u, (s'.pc u).wakes = some w)
    (hmarks : ∀ w, (∃ u, (s.pc u).marks = some w) → ∃ u, (s'.pc u).marks = some w)
    (hidle : (∃ u, u ≠ t ∧ (s.pc u).holds = true) → l = [] → l' = [] ∧ p.stopped = false) :
    ∀ u, s'.Told l' u (s'.pc u) := by
  intro u
  by_cases hu : u = t
  · rw [hu, hpc, Function.update_self]
    exact hp
  · obtain ⟨hsignalled, hremoved, hcause, hmade⟩ := hothers u hu
    have hsame : s'.pc u = s.pc u := by rw [hpc, Function.update_of_ne hu]
    rw [hsame]
    refine (h.told u).congr hsignalled hremoved hcause hmade (hwakes u) (hmarks u)
      fun hholds hempty => ?_
    obtain ⟨hl, hstop⟩ := hidle ⟨u, hu, hholds⟩ hempty.1
    refine ⟨hl, fun v => ?_⟩
    rw [hpc, Function.update_apply]
    split
    · exact hstop
    · exact hempty.2 v

omit [DecidableEq T] in
theorem Inv.free (h : s.Inv l) (hf : s.waitsetLock = false) (t : T) : (s.pc t).holds = false := by
  cases hh : (s.pc t).holds with
  | false => rfl
  | true => simp [h.lock.mpr ⟨t, hh⟩] at hf

/-- Who holds the lock after a step of thread `t` to `p`. -/
theorem Inv.holds_goto (h : s.Inv l) {lock : Bool} {t : T} {p : CondPc T M}
    (hlock : lock = true ↔ p.holds = true ∨ (s.pc t).holds = false ∧ s.waitsetLock = true)
    (hholds : p.holds = true → (s.pc t).holds = true ∨ s.waitsetLock = false) :
    (lock = true ↔ ∃ u, (Function.update s.pc t p u).holds = true) ∧
      ∀ u v, (Function.update s.pc t p u).holds = true →
        (Function.update s.pc t p v).holds = true → u = v := by
  have hself : Function.update s.pc t p t = p := Function.update_self ..
  have hsame : ∀ u, u ≠ t → Function.update s.pc t p u = s.pc u := fun u hu =>
    Function.update_of_ne hu ..
  -- If another thread holds the lock, thread `t` neither did nor does.
  have hother : ∀ u, u ≠ t → (Function.update s.pc t p u).holds = true →
      s.waitsetLock = true ∧ (s.pc t).holds = false ∧ p.holds = false := by
    intro u hu hh
    rw [hsame u hu] at hh
    have hlocked := h.lock.mpr ⟨u, hh⟩
    have ht : (s.pc t).holds = false := Bool.eq_false_iff.mpr fun ht => hu (h.alone u t hh ht)
    refine ⟨hlocked, ht, Bool.eq_false_iff.mpr fun hp => ?_⟩
    rcases hholds hp with hp | hp
    · simp [ht] at hp
    · simp [hlocked] at hp
  constructor
  · rw [hlock]
    constructor
    · rintro (hp | ⟨ht, hlocked⟩)
      · exact ⟨t, by rwa [hself]⟩
      · obtain ⟨u, hu⟩ := h.lock.mp hlocked
        have hne : u ≠ t := by
          rintro rfl
          simp [ht] at hu
        exact ⟨u, by rwa [hsame u hne]⟩
    · rintro ⟨u, hu⟩
      by_cases hut : u = t
      · rw [hut, hself] at hu
        exact .inl hu
      · obtain ⟨hlocked, ht, -⟩ := hother u hut hu
        exact .inr ⟨ht, hlocked⟩
  · intro u v hu hv
    by_cases hut : u = t
    · by_cases hvt : v = t
      · rw [hut, hvt]
      · rw [hut, hself, (hother v hvt hv).2.2] at hu
        cases hu
    · by_cases hvt : v = t
      · rw [hvt, hself, (hother u hut hu).2.2] at hv
        cases hv
      · rw [hsame u hut] at hu
        rw [hsame v hvt] at hv
        exact h.alone u v hu hv

/-- The ring and the tickets, if thread `t` waits at `p` as it did before. -/
theorem Inv.waits_goto (h : s.Inv l) {t : T} {p : CondPc T M}
    (hwait : p.waiting = (s.pc t).waiting) :
    (∀ u, u ∈ l ↔ (Function.update s.pc t p u).waiting = true ∧ s.removed u = false) ∧
      ∀ u, (Function.update s.pc t p u).waiting = true → s.ticket u < s.arrivals := by
  have hsame : ∀ u, (Function.update s.pc t p u).waiting = (s.pc u).waiting := by
    intro u
    by_cases hu : u = t
    · rw [hu, Function.update_self, hwait]
    · rw [Function.update_of_ne hu]
  refine ⟨fun u => ?_, fun u hu => h.arrived u ?_⟩
  · rw [hsame]
    exact h.mem u
  · rwa [← hsame]

omit [DecidableEq T] in
/-- A step outside of the lock. -/
theorem lock_of_free {lock : Bool} {p q : CondPc T M} (hp : p.holds = false)
    (hq : q.holds = false) : lock = true ↔ p.holds = true ∨ q.holds = false ∧ lock = true := by
  simp [hp, hq]

omit [DecidableEq T] in
/-- A thread that is in none of the functions. -/
theorem Outside.spec {t : T} (ho : s.Outside t) : (s.pc t).waiting = false ∧
    (s.pc t).holds = false ∧ (s.pc t).wakes = none ∧ (s.pc t).marks = none := by
  unfold Outside at ho
  cases hp : s.pc t <;> simp_all [CondPc.waiting, CondPc.holds, CondPc.wakes, CondPc.marks]

/-- `cv_wait` begins. -/
theorem Inv.wait (h : s.Inv l) {t : T} (ho : s.Outside t) (m : M) (timed : Bool) :
    ((s.initWaiter t).goto t (.waitLock m timed)).Inv l := by
  obtain ⟨hwaiting, hfree, hwakes, hmarks⟩ := ho.spec
  have hl : t ∉ l := fun hm => by simpa [hwaiting] using ((h.mem t).mp hm).1
  rw [h.ringed.initWaiter hl]
  have hwake := exists_update_iff CondPc.wakes s.pc t (.waitLock m timed) hwakes rfl
  have hmark := exists_update_iff CondPc.marks s.pc t (.waitLock m timed) hmarks rfl
  have hothers : ∀ u, u ≠ t → Function.update s.signalled t false u = s.signalled u ∧
      Function.update s.removed t false u = s.removed u ∧
      Function.update s.cause t none u = s.cause u ∧ s.made u = s.made u := fun u hu =>
    ⟨Function.update_of_ne hu .., Function.update_of_ne hu .., Function.update_of_ne hu .., rfl⟩
  have hlocks : s.waitsetLock = true ↔ (CondPc.waitLock m timed : CondPc T M).holds = true ∨
      (s.pc t).holds = false ∧ s.waitsetLock = true := lock_of_free rfl hfree
  apply Inv.of_told
  case ringed => exact h.ringed
  case sorted => exact h.sorted
  case lock => exact (h.holds_goto hlocks (by simp [CondPc.holds])).1
  case alone => exact (h.holds_goto hlocks (by simp [CondPc.holds])).2
  case told =>
    exact h.told_goto rfl
      ⟨Function.update_self .., Function.update_self .., Function.update_self ..⟩ hothers
      (fun w _ => (hwake w).mpr) (fun w => (hmark w).mpr) fun _ hl => ⟨hl, rfl⟩
  all_goals
    simp only [goto]
    simp only [Function.update_apply]
  case mem => have := h.mem; grind [CondPc.waiting]
  case arrived => have := h.arrived; grind [CondPc.waiting]
  case waking => have := h.waking; grind [CondPc.wakes]
  case marking => have := h.marking; grind [CondPc.marks, CondPc.waiting]

/-- `Cond_Signal` or `Cond_Broadcast` begins. -/
theorem Inv.signalCall (h : s.Inv l) {t : T} (ho : s.Outside t) (all : Bool) :
    ({ s with made := Function.update s.made t [] }.goto t (.sigLock all)).Inv l := by
  obtain ⟨hwaiting, hfree, hwakes, hmarks⟩ := ho.spec
  have hwake := exists_update_iff CondPc.wakes s.pc t (.sigLock all) hwakes rfl
  have hmark := exists_update_iff CondPc.marks s.pc t (.sigLock all) hmarks rfl
  have hlocks : s.waitsetLock = true ↔ (CondPc.sigLock all : CondPc T M).holds = true ∨
      (s.pc t).holds = false ∧ s.waitsetLock = true := lock_of_free rfl hfree
  have hsame : (CondPc.sigLock all : CondPc T M).waiting = (s.pc t).waiting := hwaiting.symm
  apply Inv.of_told
  case ringed => exact h.ringed
  case sorted => exact h.sorted
  case lock => exact (h.holds_goto hlocks (by simp [CondPc.holds])).1
  case alone => exact (h.holds_goto hlocks (by simp [CondPc.holds])).2
  case mem => exact (h.waits_goto hsame).1
  case arrived => exact (h.waits_goto hsame).2
  case told =>
    exact h.told_goto rfl (fun _ => Function.update_self ..)
      (fun u hu => ⟨rfl, rfl, rfl, Function.update_of_ne hu ..⟩) (fun w _ => (hwake w).mpr)
      (fun w => (hmark w).mpr) fun _ hl => ⟨hl, rfl⟩
  all_goals
    simp only [goto]
    simp only [Function.update_apply]
  case waking => have := h.waking; grind [CondPc.wakes]
  case marking => have := h.marking; grind [CondPc.marks, CondPc.waiting]

/-- `cv_wait` has the lock, and pushes its waiter. -/
theorem Inv.push (h : s.Inv l) {t : T} {m : M} {timed : Bool} (hp : s.pc t = .waitLock m timed)
    (hf : s.waitsetLock = false) :
    (({ s with waitsetLock := true }.pushWaiter t).goto t (.waitPushed m timed)).Inv
      (l ++ [t]) := by
  have hl : t ∉ l := fun hm => by simpa [hp, CondPc.waiting] using ((h.mem t).mp hm).1
  obtain ⟨waitset, links, heq, hr⟩ :=
    Ringed.pushWaiter (s := { s with waitsetLock := true }) h.ringed hl
  rw [heq]
  clear heq
  have hfree := h.free hf
  have hwake := exists_update_iff CondPc.wakes s.pc t (.waitPushed m timed) (by rw [hp]; rfl) rfl
  have hmark := exists_update_iff CondPc.marks s.pc t (.waitPushed m timed) (by rw [hp]; rfl) rfl
  have hlocks : true = true ↔ (CondPc.waitPushed m timed : CondPc T M).holds = true ∨
      (s.pc t).holds = false ∧ s.waitsetLock = true := iff_of_true rfl (.inl rfl)
  apply Inv.of_told
  case ringed => exact hr
  case lock => exact (h.holds_goto hlocks fun _ => .inr hf).1
  case alone => exact (h.holds_goto hlocks fun _ => .inr hf).2
  case told =>
    refine h.told_goto rfl (h.fresh t m timed (.inl hp)) (fun _ _ => ⟨rfl, rfl, rfl, rfl⟩)
      (fun w _ => (hwake w).mpr) (fun w => (hmark w).mpr) ?_
    rintro ⟨u, -, hu⟩
    simp [hfree u] at hu
  all_goals
    simp only [goto]
    simp only [Function.update_apply]
  case sorted =>
    have hne : ∀ u ∈ l, u ≠ t := fun u hu e => hl (e ▸ hu)
    refine List.pairwise_append.mpr ⟨h.sorted.imp_of_mem fun hu hv huv => ?_,
      List.pairwise_singleton _ _, fun u hu v hv => ?_⟩
    · rwa [if_neg (hne _ hu), if_neg (hne _ hv)]
    · rw [if_neg (hne u hu), if_pos (List.mem_singleton.mp hv)]
      exact h.arrived u ((h.mem u).mp hu).1
  case mem => have := h.mem; have := h.fresh; grind [CondPc.waiting]
  case arrived => have := h.arrived; grind [CondPc.waiting]
  case waking => grind [CondPc.wakes, CondPc.holds]
  case marking => have := h.marking; grind [CondPc.marks, CondPc.waiting]

/-- `sleep_releasing`: the thread stops and the lock is released. -/
theorem Inv.sleep (h : s.Inv l) {t : T} {m : M} {timed : Bool}
    (hp : s.pc t = .waitReleased m timed) :
    ({ s with waitsetLock := false }.goto t (.asleep m timed)).Inv l := by
  have hwake := exists_update_iff CondPc.wakes s.pc t (.asleep m timed) (by rw [hp]; rfl) rfl
  have hmark := exists_update_iff CondPc.marks s.pc t (.asleep m timed) (by rw [hp]; rfl) rfl
  have hheld : (s.pc t).holds = true := by rw [hp]; rfl
  have hlocks : false = true ↔ (CondPc.asleep m timed : CondPc T M).holds = true ∨
      (s.pc t).holds = false ∧ s.waitsetLock = true := by simp [CondPc.holds, hp]
  have hfresh := h.fresh t m timed (.inr (.inr hp))
  apply Inv.of_told
  case ringed => exact h.ringed
  case sorted => exact h.sorted
  case lock => exact (h.holds_goto hlocks fun _ => .inl hheld).1
  case alone => exact (h.holds_goto hlocks fun _ => .inl hheld).2
  case mem => exact (h.waits_goto (by rw [hp]; rfl)).1
  case arrived => exact (h.waits_goto (by rw [hp]; rfl)).2
  case told =>
    have hkept : s.removed t = true →
        ∃ u, (Function.update s.pc t (.asleep m timed) u).wakes = some t :=
      fun hr => Bool.noConfusion (hfresh.2.1.symm.trans hr)
    refine h.told_goto rfl ⟨hfresh.1, hfresh.2.2, hkept⟩
      (fun _ _ => ⟨rfl, rfl, rfl, rfl⟩) (fun w _ => (hwake w).mpr) (fun w => (hmark w).mpr) ?_
    rintro ⟨u, hut, hu⟩
    exact absurd (h.alone u t hu hheld) hut
  all_goals
    simp only [goto]
    simp only [Function.update_apply]
  case waking => have := h.waking; grind [CondPc.wakes]
  case marking => have := h.marking; grind [CondPc.marks, CondPc.waiting]

/-- A timeout makes a sleeper ready. -/
theorem Inv.timeout (h : s.Inv l) {t : T} {m : M} (hp : s.pc t = .asleep m true) :
    (s.makeReady t m .timeout).Inv l := by
  have hwake := exists_update_iff CondPc.wakes s.pc t (.woken m) (by rw [hp]; rfl) rfl
  have hmark := exists_update_iff CondPc.marks s.pc t (.woken m) (by rw [hp]; rfl) rfl
  have hlocks : s.waitsetLock = true ↔ (CondPc.woken m : CondPc T M).holds = true ∨
      (s.pc t).holds = false ∧ s.waitsetLock = true := lock_of_free rfl (by rw [hp]; rfl)
  apply Inv.of_told
  case ringed => exact h.ringed
  case sorted => exact h.sorted
  case lock => exact (h.holds_goto hlocks (by simp [CondPc.holds])).1
  case alone => exact (h.holds_goto hlocks (by simp [CondPc.holds])).2
  case mem => exact (h.waits_goto (by rw [hp]; rfl)).1
  case arrived => exact (h.waits_goto (by rw [hp]; rfl)).2
  case told =>
    have htold : s.signalled t = false := (h.asleep t m true hp).1
    exact h.told_goto rfl (.inl ⟨Function.update_self .., htold⟩)
      (fun u hu => ⟨rfl, rfl, Function.update_of_ne hu .., rfl⟩) (fun w _ => (hwake w).mpr)
      (fun w => (hmark w).mpr) fun _ hl => ⟨hl, rfl⟩
  all_goals
    simp only [makeReady, goto]
    simp only [Function.update_apply]
  case waking => have := h.waking; grind [CondPc.wakes, CondPc.waiting]
  case marking => have := h.marking; grind [CondPc.marks, CondPc.waiting]

/-- Back from its sleep with the lock, `cv_wait` takes its waiter off the ring if nobody has; its
assertion does not fail. -/
theorem Inv.tidyUp_eq (h : s.Inv l) {t : T} {m : M} (hp : s.pc t = .woken m) :
    ∃ waitset links, { s with waitsetLock := true }.tidyUp t =
      some { s with waitsetLock := true, waitset, links } ∧ Ringed waitset links (l.erase t) := by
  unfold CondState.tidyUp
  split
  · rename_i hr
    have hl : t ∉ l := fun hm => by simp [((h.mem t).mp hm).2] at hr
    exact ⟨s.waitset, s.links, rfl, by rw [List.erase_of_not_mem hl]; exact h.ringed⟩
  · rename_i hr
    have hrem : s.removed t = false := by simpa using hr
    have hsig : s.signalled t = false := by
      rcases h.woken t m hp with ⟨-, hs⟩ | ⟨-, hs, -⟩
      · exact hs
      · simp [hrem] at hs
    have hl : t ∈ l := (h.mem t).mpr ⟨by rw [hp]; rfl, hrem⟩
    obtain ⟨waitset, links, heq, hring⟩ :=
      Ringed.removeFromRing (s := { s with waitsetLock := true }) h.ringed hl
    refine ⟨waitset, links, ?_, hring⟩
    rw [if_neg (by simp [hsig]), heq]

theorem Inv.tidy (h : s.Inv l) {t : T} {m : M} (hp : s.pc t = .woken m)
    (hf : s.waitsetLock = false) {waitset : Option T} {links : Links T}
    (hr : Ringed waitset links (l.erase t)) :
    ({ s with waitsetLock := true, waitset, links }.goto t (.tidied m)).Inv (l.erase t) := by
  have hfree := h.free hf
  have hnd : l.Nodup := h.ringed.ring.1
  have hmarks : ¬ ∃ u, (s.pc u).marks = some t := by
    rintro ⟨u, hu⟩
    simpa [hfree u] using CondPc.holds_of_marks hu
  have hcause : s.cause t = some (if s.signalled t then .signal else .timeout) := by
    rcases h.woken t m hp with ⟨hc, hs⟩ | ⟨hc, -, hs⟩
    · simp [hc, hs]
    · cases hsig : s.signalled t with
      | true => simp [hc]
      | false => exact absurd (hs hsig) hmarks
  have hwake := exists_update_iff CondPc.wakes s.pc t (.tidied m) (by rw [hp]; rfl) rfl
  have hmark := exists_update_iff CondPc.marks s.pc t (.tidied m) (by rw [hp]; rfl) rfl
  have hlocks : true = true ↔ (CondPc.tidied m : CondPc T M).holds = true ∨
      (s.pc t).holds = false ∧ s.waitsetLock = true := iff_of_true rfl (.inl rfl)
  apply Inv.of_told
  case ringed => exact hr
  case sorted => exact h.sorted.erase t
  case lock => exact (h.holds_goto hlocks fun _ => .inr hf).1
  case alone => exact (h.holds_goto hlocks fun _ => .inr hf).2
  case told =>
    refine h.told_goto rfl hcause (fun _ _ => ⟨rfl, rfl, rfl, rfl⟩) (fun w _ => (hwake w).mpr)
      (fun w => (hmark w).mpr) ?_
    rintro ⟨u, -, hu⟩
    simp [hfree u] at hu
  all_goals
    simp only [goto]
    simp only [Function.update_apply]
  case mem => have := h.mem; simp only [hnd.mem_erase_iff]; grind [CondPc.waiting]
  case arrived => have := h.arrived; grind [CondPc.waiting]
  case waking => grind [CondPc.wakes, CondPc.holds]
  case marking => grind [CondPc.marks, CondPc.holds]

/-- What a thread needs to reach `p` by a step that moves it and touches only locks. -/
def Arrives (s : CondState T M) (l : List T) (t : T) : CondPc T M → Prop
  | .waitReleased _ _ => s.signalled t = false ∧ s.removed t = false ∧ s.cause t = none
  | .relock _ => s.cause t = some (if s.signalled t then .signal else .timeout)
  | .returned r => s.cause t = some (if r then .signal else .timeout)
  | .sigScan all => all = false → s.made t = []
  | .sigUnlock all => (s.made t = [] ∨ all = true) ∧ l = [] ∧ ∀ u, (s.pc u).stopped = false
  | .idle => True
  | _ => False

/-- That is what is told of the thread there. -/
theorem Arrives.told {t : T} {p : CondPc T M} (hp : s.Arrives l t p) {s' : CondState T M}
    (hsignalled : s'.signalled = s.signalled) (hremoved : s'.removed = s.removed)
    (hcause : s'.cause = s.cause) (hmade : s'.made = s.made)
    (hpc : s'.pc = Function.update s.pc t p) : s'.Told l t p := by
  cases p with
  | idle => exact trivial
  | waitReleased m timed =>
    show s'.signalled t = false ∧ s'.removed t = false ∧ s'.cause t = none
    rw [hsignalled, hremoved, hcause]
    exact hp
  | relock m =>
    show s'.cause t = some (if s'.signalled t then .signal else .timeout)
    rw [hsignalled, hcause]
    exact hp
  | returned r =>
    show s'.cause t = _
    rw [hcause]
    exact hp
  | sigScan all =>
    show all = false → s'.made t = []
    rw [hmade]
    exact hp
  | sigUnlock all =>
    obtain ⟨hnone, hempty, hstop⟩ := hp
    refine ⟨fun hall => ?_, .inr ⟨hempty, fun u => ?_⟩⟩
    · rcases hnone with hnone | hall'
      · rw [hmade, hnone]
        exact Nat.zero_le 1
      · rw [hall] at hall'
        cases hall'
    · rw [hpc, Function.update_apply]
      split
      · rfl
      · exact hstop u
  | waitLock | waitPushed | asleep | woken | tidied | sigLock | sigWake | sigMark => exact hp.elim

theorem Inv.move (h : s.Inv l) {t : T} {p : CondPc T M} (lock : Bool) (mutex : M → Bool)
    (hp : s.Arrives l t p) (hwait : p.waiting = (s.pc t).waiting)
    (hwakes : ∀ w, (s.pc t).wakes = some w → (s.pc w).stopped = false)
    (hmarks : (s.pc t).marks = none)
    (hlock : lock = true ↔ p.holds = true ∨ (s.pc t).holds = false ∧ s.waitsetLock = true)
    (hholds : p.holds = true → (s.pc t).holds = true ∨ s.waitsetLock = false) :
    ({ s with waitsetLock := lock, mutex }.goto t p).Inv l := by
  have hp' : p.wakes = none ∧ p.marks = none ∧ p.stopped = false := by
    cases p <;> first | exact ⟨rfl, rfl, rfl⟩ | exact absurd hp id
  have hmark := exists_update_iff CondPc.marks s.pc t p hmarks hp'.2.1
  apply Inv.of_told
  case ringed => exact h.ringed
  case sorted => exact h.sorted
  case lock => exact (h.holds_goto hlock hholds).1
  case alone => exact (h.holds_goto hlock hholds).2
  case mem => exact (h.waits_goto hwait).1
  case arrived => exact (h.waits_goto hwait).2
  case told =>
    refine h.told_goto rfl (hp.told rfl rfl rfl rfl rfl) (fun _ _ => ⟨rfl, rfl, rfl, rfl⟩)
      (fun w hstop => ?_) (fun w => (hmark w).mpr) fun _ hl => ⟨hl, hp'.2.2⟩
    rintro ⟨u, hu⟩
    have hut : u ≠ t := by
      rintro rfl
      simp [hwakes w hu] at hstop
    have hsame : Function.update s.pc t p u = s.pc u := Function.update_of_ne hut ..
    exact ⟨u, (congrArg CondPc.wakes hsame).trans hu⟩
  all_goals
    simp only [goto]
    simp only [Function.update_apply]
  case waking => have := h.waking; grind [CondPc.wakes]
  case marking =>
    have := h.marking
    have := h.lock
    have hfree : s.waitsetLock = false → ∀ u, (s.pc u).holds = false := h.free
    -- A thread that somebody marks is `woken`, and this step does not start there.
    have hpw : p.waiting = true → p.holds = true := by
      cases p <;> simp_all [Arrives, CondPc.waiting, CondPc.holds]
    grind [CondPc.marks, CondPc.waiting, CondPc.holds]

/-- A signaller pops the head of the ring. -/
theorem Inv.pop (h : s.Inv l) {t : T} {all : Bool} (hp : s.pc t = .sigScan all) {w : T}
    (hw : w ∈ l) (hfirst : ∀ u ∈ l, u ≠ w → s.ticket w < s.ticket u) {waitset : Option T}
    {links : Links T} (hr : Ringed waitset links (l.erase w)) :
    ({ s with waitset, links, removed := Function.update s.removed w true }.goto t
      (.sigWake all w)).Inv (l.erase w) := by
  have hnd : l.Nodup := h.ringed.ring.1
  have hone : ∀ u, (s.pc u).holds = true → u = t := fun u hu =>
    h.alone u t hu (by rw [hp]; rfl)
  have hmem := (h.mem w).mp hw
  -- A waiter that has not released the lock would be `t`.
  have hpw : (∃ m timed, s.pc w = .asleep m timed) ∨ ∃ m, s.pc w = .woken m := by
    have hwt := hone w
    cases hpc : s.pc w <;> simp_all [CondPc.waiting, CondPc.holds]
  have hsig : s.signalled w = false ∧ s.cause w ≠ some .signal := by
    rcases hpw with ⟨m, timed, hpc⟩ | ⟨m, hpc⟩
    · have := h.asleep w m timed hpc
      simp [this.1, this.2.1]
    · rcases h.woken w m hpc with ⟨hc, hs⟩ | ⟨-, hs, -⟩
      · simp [hc, hs]
      · simp [hmem.2] at hs
  have hnowake : ∀ u v, (s.pc u).wakes ≠ some v := by
    intro u v hu
    have := hone u (CondPc.holds_of_wakes hu)
    simp [this, hp, CondPc.wakes] at hu
  have hwake : ∀ v, (∃ u, (Function.update s.pc t (.sigWake all w) u).wakes = some v) ↔
      v = w := by
    intro v
    constructor
    · rintro ⟨u, hu⟩
      by_cases hut : u = t
      · subst hut
        simpa [CondPc.wakes, eq_comm] using hu
      · rw [Function.update_of_ne hut] at hu
        exact absurd hu (hnowake u v)
    · rintro rfl
      exact ⟨t, by rw [Function.update_self]; rfl⟩
  have hmark := exists_update_iff CondPc.marks s.pc t (.sigWake all w) (by rw [hp]; rfl) rfl
  have hheld : (s.pc t).holds = true := by rw [hp]; rfl
  have hlocks : s.waitsetLock = true ↔ (CondPc.sigWake all w : CondPc T M).holds = true ∨
      (s.pc t).holds = false ∧ s.waitsetLock = true :=
    iff_of_true (h.lock.mpr ⟨t, hheld⟩) (.inl rfl)
  apply Inv.of_told
  case ringed => exact hr
  case sorted => exact h.sorted.erase w
  case lock => exact (h.holds_goto hlocks fun _ => .inl hheld).1
  case alone => exact (h.holds_goto hlocks fun _ => .inl hheld).2
  case told =>
    intro u
    show Told _ (l.erase w) u (Function.update s.pc t (.sigWake all w) u)
    by_cases hut : u = t
    · have hscan := h.told t
      rw [hp] at hscan
      rw [hut, Function.update_self]
      exact hscan
    · have hold := h.told u
      rw [Function.update_of_ne hut]
      by_cases huw : u = w
      · rw [huw]
        rcases hpw with ⟨m, timed, hpc⟩ | ⟨m, hpc⟩
        · have htold := h.asleep w m timed hpc
          rw [hpc]
          exact ⟨htold.1, htold.2.1, fun _ => (hwake w).mpr rfl⟩
        · rw [hpc]
          rcases h.woken w m hpc with htold | ⟨-, hrem, -⟩
          · exact .inl htold
          · exact absurd hmem.2 (by simp [hrem])
      · refine hold.congr rfl (Function.update_of_ne huw ..) rfl rfl ?_ (hmark u).mpr ?_
        · rintro - ⟨v, hv⟩
          exact absurd hv (hnowake v u)
        · intro hholds
          exact absurd (hone u hholds) hut
  all_goals
    simp only [goto]
    simp only [Function.update_apply]
  case mem => have := h.mem; simp only [hnd.mem_erase_iff]; grind [CondPc.waiting]
  case arrived => have := h.arrived; grind [CondPc.waiting]
  case waking => simp only [hnd.mem_erase_iff]; grind [CondPc.wakes, CondPc.waiting]
  case marking => have := h.marking; grind [CondPc.marks, CondPc.waiting]

/-- `wakeup` finds the waiter asleep, and makes it ready. -/
theorem Inv.wakeup (h : s.Inv l) {t : T} {all : Bool} {w : T} (hp : s.pc t = .sigWake all w)
    {m : M} {timed : Bool} (hw : s.pc w = .asleep m timed) :
    ({ (s.makeReady w m .signal).goto t (.sigMark all w) with
      made := Function.update s.made t (s.made t ++ [w]) }).Inv l := by
  have hone : ∀ u, (s.pc u).holds = true → u = t := fun u hu =>
    h.alone u t hu (by rw [hp]; rfl)
  have hne : w ≠ t := by
    rintro rfl
    simp [hp] at hw
  have hmade : all = false → s.made t = [] := fun ha => h.signal t (.inr (.inr ⟨w, by rw [hp, ha]⟩))
  have happ : s.made t ++ [w] ≠ [] := List.concat_ne_nil w _
  have hrem := (h.waking t w (by rw [hp]; rfl)).2.1
  have hsig := (h.asleep w m timed hw).1
  have hwake : ∀ u v, (s.pc u).wakes = some v → v = w := by
    intro u v hu
    have := hone u (CondPc.holds_of_wakes hu)
    simpa [this, hp, CondPc.wakes, eq_comm] using hu
  have hmark : ∃ u, (Function.update (Function.update s.pc w (.woken m)) t (.sigMark all w) u).marks
      = some w := ⟨t, by rw [Function.update_self]; rfl⟩
  apply Inv.of_told
  case ringed => exact h.ringed
  case sorted => exact h.sorted
  case told =>
    intro u
    show Told _ l u (Function.update (Function.update s.pc w (.woken m)) t (.sigMark all w) u)
    by_cases hut : u = t
    · rw [hut, Function.update_self]
      intro hall
      show (Function.update s.made t (s.made t ++ [w]) t).length ≤ 1
      rw [Function.update_self, hmade hall]
      exact le_rfl
    · rw [Function.update_of_ne hut]
      by_cases huw : u = w
      · rw [huw, Function.update_self]
        exact .inr ⟨Function.update_self .., hrem, fun _ => hmark⟩
      · rw [Function.update_of_ne huw]
        refine (h.told u).congr rfl rfl (Function.update_of_ne huw ..) (Function.update_of_ne hut ..)
          ?_ ?_ fun hholds => absurd (hone u hholds) hut
        · rintro - ⟨v, hv⟩
          exact absurd (hwake v u hv) huw
        · rintro ⟨v, hv⟩
          have hvt := hone v (CondPc.holds_of_marks hv)
          simp [hvt, hp, CondPc.marks] at hv
  all_goals
    simp only [makeReady, goto]
    simp only [Function.update_apply]
  case mem => have := h.mem; grind [CondPc.waiting]
  case arrived => have := h.arrived; grind [CondPc.waiting]
  case lock => have := h.lock; grind [CondPc.holds]
  case alone => have := h.alone; grind [CondPc.holds]
  case waking => have := h.waking; grind [CondPc.wakes]
  case marking => have := h.marking; grind [CondPc.marks, CondPc.waiting]

/-- The signaller sets the flag of the waiter it made ready. -/
theorem Inv.mark (h : s.Inv l) {t : T} {all : Bool} {w : T} (hp : s.pc t = .sigMark all w) :
    ({ s with signalled := Function.update s.signalled w true }.goto t
      (if all then .sigScan true else .sigUnlock false)).Inv l := by
  have hone : ∀ u, (s.pc u).holds = true → u = t := fun u hu =>
    h.alone u t hu (by rw [hp]; rfl)
  obtain ⟨hmade, hrem, hcause, m, hw⟩ := h.marking t w (by rw [hp]; rfl)
  have hmark : ∀ u v, (s.pc u).marks = some v → v = w := by
    intro u v hu
    have := hone u (CondPc.holds_of_marks hu)
    simpa [this, hp, CondPc.marks, eq_comm] using hu
  have hwake := exists_update_iff CondPc.wakes s.pc t
    (if all then .sigScan true else .sigUnlock false) (by rw [hp]; rfl) (by cases all <;> rfl)
  have hheld : (s.pc t).holds = true := by rw [hp]; rfl
  have hlocks : s.waitsetLock = true ↔
      ((if all then .sigScan true else .sigUnlock false : CondPc T M)).holds = true ∨
        (s.pc t).holds = false ∧ s.waitsetLock = true :=
    iff_of_true (h.lock.mpr ⟨t, hheld⟩) (.inl (by cases all <;> rfl))
  apply Inv.of_told
  case ringed => exact h.ringed
  case sorted => exact h.sorted
  case lock => exact (h.holds_goto hlocks fun _ => .inl hheld).1
  case alone => exact (h.holds_goto hlocks fun _ => .inl hheld).2
  case mem => exact (h.waits_goto (by rw [hp]; cases all <;> rfl)).1
  case arrived => exact (h.waits_goto (by rw [hp]; cases all <;> rfl)).2
  case told =>
    intro u
    show Told _ l u (Function.update s.pc t (if all then .sigScan true else .sigUnlock false) u)
    by_cases hut : u = t
    · have hlen := h.told t
      rw [hp] at hlen
      rw [hut, Function.update_self]
      cases all with
      | true => exact fun hall => absurd hall (by decide)
      | false => exact ⟨hlen, .inl ⟨rfl, hmade⟩⟩
    · rw [Function.update_of_ne hut]
      by_cases huw : u = w
      · rw [huw, hw]
        refine .inr ⟨hcause, hrem, fun hunset => ?_⟩
        have hset : Function.update s.signalled w true w = true := Function.update_self ..
        exact Bool.noConfusion (hset.symm.trans hunset)
      · refine (h.told u).congr (Function.update_of_ne huw ..) rfl rfl rfl
          (fun _ => (hwake u).mpr) ?_ fun hholds => absurd (hone u hholds) hut
        rintro ⟨v, hv⟩
        exact absurd (hmark v u hv) huw
  all_goals
    simp only [goto]
    simp only [Function.update_apply]
  case waking => have := h.waking; grind [CondPc.wakes]
  case marking => have := h.marking; grind [CondPc.marks, CondPc.waiting]

omit [DecidableEq T] in
/-- An asleep waiter is on the ring, unless a signaller is about to wake it. -/
theorem Inv.mem_of_stopped (h : s.Inv l) {t : T} (ht : (s.pc t).stopped = true) :
    t ∈ l ∨ ∃ u, (s.pc u).wakes = some t := by
  cases hp : s.pc t <;> simp only [hp, CondPc.stopped, Bool.false_eq_true] at ht
  rename_i m timed
  cases hr : s.removed t with
  | false => exact .inl ((h.mem t).mpr ⟨by rw [hp]; rfl, hr⟩)
  | true => exact .inr ((h.asleep t m timed hp).2.2 hr)

/-- The stretch of the signaller from a loop test on. -/
theorem Inv.scan (h : s.Inv l) {t : T} {all : Bool} (hp : s.pc t = .sigScan all) :
    ∃ l', (s.scan t all).Inv l' := by
  unfold CondState.scan
  rw [h.ringed.waitset]
  cases l with
  | nil =>
    have hstop : ∀ u, (s.pc u).stopped = false := by
      intro u
      by_contra hu
      rcases h.mem_of_stopped (by simpa using hu) with hm | ⟨v, hv⟩
      · exact absurd hm List.not_mem_nil
      · have := h.alone v t (CondPc.holds_of_wakes hv) (by rw [hp]; rfl)
        simp [this, hp, CondPc.wakes] at hv
    have hmade : s.made t = [] ∨ all = true := by
      cases all with
      | false => exact .inl (h.signal t (.inr (.inl hp)))
      | true => exact .inr rfl
    refine ⟨[], h.move s.waitsetLock s.mutex ⟨hmade, rfl, hstop⟩ (by rw [hp]; rfl)
      (by simp [hp, CondPc.wakes]) (by rw [hp]; rfl) ?_ (by simp [hp, CondPc.holds])⟩
    simp [CondPc.holds, h.lock.mpr ⟨t, by rw [hp]; rfl⟩]
  | cons w l =>
    obtain ⟨waitset, links, heq, hr⟩ := Ringed.removeFromRing h.ringed List.mem_cons_self
    refine ⟨(w :: l).erase w, ?_⟩
    simp only [List.head?_cons, heq]
    refine h.pop hp List.mem_cons_self (fun u hu hne => ?_) hr
    exact (List.pairwise_cons.mp h.sorted).1 u ((List.mem_cons.mp hu).resolve_left hne)

/-- `wakeup`, whichever way it goes. -/
theorem Inv.wakeup_cases (h : s.Inv l) {t : T} {all : Bool} {w : T} (hp : s.pc t = .sigWake all w) :
    (s.wakeup t all w).Inv l := by
  unfold CondState.wakeup
  split
  · rename_i m timed hw
    exact h.wakeup hp hw
  · rename_i hw
    have hmade : all = false → s.made t = [] := by
      rintro rfl
      exact h.signal t (.inr (.inr ⟨w, hp⟩))
    refine h.move s.waitsetLock s.mutex hmade (by rw [hp]; rfl) ?_ (by rw [hp]; rfl) ?_
      (by simp [hp, CondPc.holds])
    · rintro v hv
      obtain rfl : w = v := by simpa [hp, CondPc.wakes] using hv
      cases hpc : s.pc w <;> first | rfl | exact absurd hpc (hw _ _)
    · simp [CondPc.holds, h.lock.mpr ⟨t, by rw [hp]; rfl⟩]

variable [DecidableEq M] {s' : CondState T M}

/-- A step of a thread inside one of the functions. -/
theorem Inv.next (h : s.Inv l) {t : T} (hs : s.next t = some s') : ∃ l', s'.Inv l' := by
  unfold CondState.next at hs
  cases hp : s.pc t with
  | idle | asleep | returned => simp [hp] at hs
  | waitLock m timed =>
    simp only [hp] at hs
    split at hs
    · exact absurd hs (by simp)
    · rename_i hf
      obtain rfl := Option.some.inj hs
      exact ⟨_, h.push hp (by simpa using hf)⟩
  | waitPushed m timed =>
    simp only [hp, Option.some.injEq] at hs
    subst hs
    refine ⟨l, h.move s.waitsetLock _ (h.fresh t m timed (.inr (.inl hp)))
      (by rw [hp]; rfl) (by simp [hp, CondPc.wakes]) (by rw [hp]; rfl) ?_ ?_⟩
    · simp [CondPc.holds, h.lock.mpr ⟨t, by rw [hp]; rfl⟩]
    · simp [hp, CondPc.holds]
  | waitReleased m timed =>
    simp only [hp, Option.some.injEq] at hs
    subst hs
    exact ⟨l, h.sleep hp⟩
  | woken m =>
    simp only [hp] at hs
    split at hs
    · exact absurd hs (by simp)
    · rename_i hf
      obtain ⟨waitset, links, heq, hr⟩ := h.tidyUp_eq hp
      rw [heq, Option.map_some, Option.some.injEq] at hs
      subst hs
      exact ⟨_, h.tidy hp (by simpa using hf) hr⟩
  | tidied m =>
    simp only [hp, Option.some.injEq] at hs
    subst hs
    refine ⟨l, h.move false s.mutex (h.tidied t m (.inl hp)) (by rw [hp]; rfl)
      (by simp [hp, CondPc.wakes]) (by rw [hp]; rfl) ?_ ?_⟩
    · simp [hp, CondPc.holds]
    · simp [CondPc.holds]
  | relock m =>
    simp only [hp] at hs
    split at hs
    · exact absurd hs (by simp)
    · obtain rfl := Option.some.inj hs
      exact ⟨l, h.move s.waitsetLock _ (h.tidied t m (.inr hp)) (by rw [hp]; rfl)
        (by simp [hp, CondPc.wakes]) (by rw [hp]; rfl) (lock_of_free rfl (by rw [hp]; rfl))
        (by simp [CondPc.holds])⟩
  | sigLock all =>
    simp only [hp] at hs
    split at hs
    · exact absurd hs (by simp)
    · rename_i hf
      obtain rfl := Option.some.inj hs
      refine ⟨l, h.move true s.mutex (fun ha => h.signal t (.inl (by rw [hp, ha]))) (by rw [hp]; rfl)
        (by simp [hp, CondPc.wakes]) (by rw [hp]; rfl) ?_ (fun _ => .inr (by simpa using hf))⟩
      simp [CondPc.holds]
  | sigScan all =>
    simp only [hp, Option.some.injEq] at hs
    subst hs
    exact h.scan hp
  | sigWake all w =>
    simp only [hp, Option.some.injEq] at hs
    subst hs
    exact ⟨l, h.wakeup_cases hp⟩
  | sigMark all w =>
    simp only [hp, Option.some.injEq] at hs
    subst hs
    exact ⟨l, h.mark hp⟩
  | sigUnlock all =>
    simp only [hp, Option.some.injEq] at hs
    subst hs
    refine ⟨l, h.move false s.mutex trivial (by rw [hp]; rfl) (by simp [hp, CondPc.wakes])
      (by rw [hp]; rfl) ?_ ?_⟩
    · simp [hp, CondPc.holds]
    · simp [CondPc.holds]

omit [DecidableEq T] [DecidableEq M] in
/-- The invariant does not read the mutexes. -/
theorem Inv.mutex (h : s.Inv l) (mutex : M → Bool) : { s with mutex }.Inv l :=
  ⟨h.ringed, h.mem, h.sorted, h.arrived, h.lock, h.alone, h.fresh, h.asleep, h.woken, h.tidied,
    h.returned, h.waking, h.marking, h.signal, h.signalled, h.found⟩

theorem inv_inductive : (condSys T M).Inductive fun s => ∃ l, s.Inv l where
  init s hs := ⟨[], hs ▸ inv_initial⟩
  step s a s' hi _ hs := by
    obtain ⟨l, h⟩ := hi
    cases a with
    | lock t m =>
      simp only [condSys, perform] at hs
      split at hs
      · obtain rfl := Option.some.inj hs
        exact ⟨l, h.mutex _⟩
      · exact absurd hs (by simp)
    | unlock t m =>
      simp only [condSys, perform] at hs
      split at hs
      · obtain rfl := Option.some.inj hs
        exact ⟨l, h.mutex _⟩
      · exact absurd hs (by simp)
    | wait t m timed =>
      simp only [condSys, perform] at hs
      split at hs
      · rename_i ho
        obtain rfl := Option.some.inj hs
        exact ⟨l, h.wait ho m timed⟩
      · exact absurd hs (by simp)
    | signal t all =>
      simp only [condSys, perform] at hs
      split at hs
      · rename_i ho
        obtain rfl := Option.some.inj hs
        exact ⟨l, h.signalCall ho all⟩
      · exact absurd hs (by simp)
    | next t => exact h.next hs
    | timeout t =>
      simp only [condSys, perform] at hs
      split at hs
      · rename_i m hp
        obtain rfl := Option.some.inj hs
        exact ⟨l, h.timeout hp⟩
      · exact absurd hs (by simp)

end

end CondState

end TinyOS
