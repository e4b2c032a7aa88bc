import TinyOS.Thread.Basic
import Mathlib.Tactic.Common

/-!
# Joining threads

`ThreadExit` and `ThreadJoin` share one counter, `waiting_threads`, and one flag, `detached`, which
doubles as "this thread has exited". **The last joiner frees the PTCB**, and the flag keeps new
joiners away once the thread is gone. `ThreadDetach` sets the same flag and sends the same
broadcast for a thread that still runs: a joiner it wakes returns as if the thread had exited, and
the last of them frees the PTCB under it.

As long as no thread is detached while somebody waits to join it, the handshake is sound
(`thread_join_safe`).
-/

set_option autoImplicit false

namespace TinyOS

open Transition

namespace ThreadPc

variable {P : Type}

/-- The thread is in a join of `t`. -/
def joins [DecidableEq P] (t : Tid P) : ThreadPc P → Bool
  | .joinAsleep t' _ | .joinWoken t' _ => t' = t
  | _ => false

/-- The thread, not a main thread, has called `ThreadExit`. -/
def exiting : ThreadPc P → Bool
  | .exitAsleep | .exitWoken | .exited => true
  | _ => false

/-! A thread made ready is in the same call as before. -/

variable [DecidableEq P] {p : ThreadPc P} {t t' : Tid P} {k : JoinCaller}

@[simp] theorem joins_wake : (p.wake t).joins t' = p.joins t' := by
  cases p with
  | joinAsleep t₁ k => by_cases h : t₁ = t <;> simp [wake, h, joins]
  | _ => rfl

@[simp] theorem exiting_wake : (p.wake t).exiting = p.exiting := by
  cases p with
  | joinAsleep t₁ k => by_cases h : t₁ = t <;> simp [wake, h, exiting]
  | _ => rfl

theorem wake_eq_joinAsleep : p.wake t = .joinAsleep t' k ↔ p = .joinAsleep t' k ∧ t' ≠ t := by
  cases p with
  | joinAsleep t₁ k₁ => by_cases h : t₁ = t <;> simp only [wake, h, if_true, if_false] <;> grind
  | _ => simp [wake]

/-- Nobody else moves. -/
theorem wake_of_ne (h : ∀ k, p ≠ .joinAsleep t k) : p.wake t = p := by
  cases p with
  | joinAsleep t₁ k₁ =>
    have hne : t₁ ≠ t := by
      rintro rfl
      exact h k₁ rfl
    simp [wake, hne]
  | _ => rfl

/-- Neither position of a joiner is any other position. -/
theorem wake_eq {q : ThreadPc P} (hq : ∀ t', q.joins t' = false) : p.wake t = q ↔ p = q := by
  cases p with
  | joinAsleep t₁ k₁ =>
    -- A joiner is still one after the wake-up, so it is at no such position.
    have hne : ∀ x : ThreadPc P, x.joins t₁ = true → x ≠ q := by
      rintro x hx rfl
      simp [hq] at hx
    have hj : (joinAsleep t₁ k₁ : ThreadPc P).joins t₁ = true := by simp [joins]
    exact iff_of_false (hne _ (by rwa [joins_wake])) (hne _ hj)
  | _ => simp [wake]

end ThreadPc

namespace Threads

variable {P : Type} [DecidableEq P] {s s' : Threads P}

/-- Joins return what was passed to `ThreadExit`, and no PTCB is freed early, twice, or never. -/
structure Safe (s : Threads P) : Prop where
  /-- A join returns 0 only after the thread has called `ThreadExit`, with what it passed. -/
  joined : ∀ u t e, (u, t, e) ∈ s.joins →
    ∃ v, s.exitArg t = some v ∧ (e = none ∨ e = some v)
  /-- A PTCB is freed at most once, when its thread has exited and every joiner has returned. -/
  freed : ∀ t, s.freed t ≤ 1 ∧
    (s.freed t = 1 → s.pc t = .exited ∧ ∀ u, (s.pc u).joins t = false)
  /-- And it is freed by then. -/
  freedThen : ∀ t, s.pc t = .exited → (∀ u, (s.pc u).joins t = false) → s.freed t = 1
  /-- The freed PTCBs, and no others, have left the list of their process. -/
  linked : ∀ n, s.pc (.spawned n) ≠ .unborn → ∀ p, (.spawned n ∈ s.ptcbList p ↔
    s.owner (.spawned n) = p ∧ s.freed (.spawned n) = 0)
  /-- The list and the count agree; the main thread is counted, and on no list. -/
  counted : ∀ p, (s.ptcbList p).Nodup ∧ s.threadCount p = 1 + (s.ptcbList p).length

/-- The threads a call names exist and are not released, and no thread is detached while somebody
waits to join it. -/
def Sound (s : Threads P) : ThreadAction P → Prop
  | .threadJoin _ (some t) _ => s.pc t ≠ .unborn ∧ s.released t = false ∧ s.freed t = 0
  | .threadDetach _ (some t) => s.pc t ≠ .unborn ∧ s.released t = false ∧
      (s.pc t = .exited ∨ (s.ptcb t).waitingThreads = 0)
  | _ => True

instance (s : Threads P) : (a : ThreadAction P) → Decidable (s.Sound a)
  | .threadJoin _ (some _) _ => inferInstanceAs (Decidable (_ ∧ _ ∧ _))
  | .threadDetach _ (some _) => inferInstanceAs (Decidable (_ ∧ _ ∧ (_ ∨ _)))
  | .threadJoin _ none _ | .threadDetach _ none | .createThread _ _ | .threadExit _ _
  | .resume _ | .releaseTCB _ => inferInstanceAs (Decidable True)

/-- The invariant; `J t` lists the threads in a join of `t`. -/
structure Inv (s : Threads P) (J : Tid P → List (Tid P)) : Prop where
  unborn : ∀ n, s.pc (.spawned n) = .unborn ↔ s.spawned ≤ n
  main : ∀ p, s.owner (.main p) = p ∧ (s.pc (.main p)).exiting = false ∧
    s.pc (.main p) ≠ .unborn
  joiners : ∀ t u, u ∈ J t ↔ (s.pc u).joins t = true
  nodup : ∀ t, (J t).Nodup
  count : ∀ t, (s.ptcb t).waitingThreads = (J t).length
  asleep : ∀ u t k, s.pc u = .joinAsleep t k → (∃ n, t = .spawned n) ∧ s.pc t ≠ .unborn ∧
    s.owner t = s.owner u ∧ (s.ptcb t).detached = false
  woken : ∀ u t k, s.pc u = .joinWoken t k → s.pc t = .exited ∧ s.owner t = s.owner u
  exitJoin : ∀ u t, s.pc u = .joinAsleep t .exit ∨ s.pc u = .joinWoken t .exit →
    ∃ p, u = .main p
  exitAsleep : ∀ t, s.pc t = .exitAsleep → J t = []
  exitWoken : ∀ t, s.pc t = .exitWoken → J t ≠ []
  exited : ∀ t, s.pc t = .exited → (s.ptcb t).detached = true
  quiet : ∀ t, (s.ptcb t).detached = true → s.pc t ≠ .exited → J t = []
  freed : ∀ t, s.freed t = if s.pc t = .exited ∧ J t = [] then 1 else 0
  list : ∀ p t, t ∈ s.ptcbList p ↔
    (∃ n, t = .spawned n) ∧ s.pc t ≠ .unborn ∧ s.owner t = p ∧ s.freed t = 0
  listNodup : ∀ p, (s.ptcbList p).Nodup
  threadCount : ∀ p, s.threadCount p = 1 + (s.ptcbList p).length
  called : ∀ n, (s.exitArg (.spawned n)).isSome = (s.pc (.spawned n)).exiting
  exitval : ∀ n v, s.exitArg (.spawned n) = some v → (s.ptcb (.spawned n)).exitval = v
  joined : ∀ u t e, (u, t, e) ∈ s.joins → (∃ n, t = .spawned n) ∧
    ∃ v, s.exitArg t = some v ∧ (e = none ∨ e = some v)

variable {J : Tid P → List (Tid P)}

/-! ### Its parts -/

/-- Who joins a thread, and how many count themselves. -/
structure Joining (s : Threads P) (J : Tid P → List (Tid P)) : Prop where
  joiners : ∀ t u, u ∈ J t ↔ (s.pc u).joins t = true
  nodup : ∀ t, (J t).Nodup
  count : ∀ t, (s.ptcb t).waitingThreads = (J t).length

/-- Which PTCBs are freed, and which are on a list. -/
structure Linked (s : Threads P) (J : Tid P → List (Tid P)) : Prop where
  freed : ∀ t, s.freed t = if s.pc t = .exited ∧ J t = [] then 1 else 0
  list : ∀ p t, t ∈ s.ptcbList p ↔
    (∃ n, t = .spawned n) ∧ s.pc t ≠ .unborn ∧ s.owner t = p ∧ s.freed t = 0
  listNodup : ∀ p, (s.ptcbList p).Nodup
  threadCount : ∀ p, s.threadCount p = 1 + (s.ptcbList p).length

/-- What the threads passed to `ThreadExit`, and what the joins made of it. -/
structure Reported (s : Threads P) : Prop where
  called : ∀ n, (s.exitArg (.spawned n)).isSome = (s.pc (.spawned n)).exiting
  exitval : ∀ n v, s.exitArg (.spawned n) = some v → (s.ptcb (.spawned n)).exitval = v
  joined : ∀ u t e, (u, t, e) ∈ s.joins → (∃ n, t = .spawned n) ∧
    ∃ v, s.exitArg t = some v ∧ (e = none ∨ e = some v)

/-- What holds of thread `u` when it stands at a position. -/
def Stands (s : Threads P) (J : Tid P → List (Tid P)) (u : Tid P) : ThreadPc P → Prop
  | .unborn | .running => True
  | .joinAsleep t k => ((∃ n, t = .spawned n) ∧ s.pc t ≠ .unborn ∧ s.owner t = s.owner u ∧
      (s.ptcb t).detached = false) ∧ (k = .exit → ∃ p, u = .main p)
  | .joinWoken t k => (s.pc t = .exited ∧ s.owner t = s.owner u) ∧ (k = .exit → ∃ p, u = .main p)
  | .exitAsleep => J u = []
  | .exitWoken => J u ≠ []
  | .exited => (s.ptcb u).detached = true

theorem Inv.joining (h : s.Inv J) : s.Joining J := ⟨h.joiners, h.nodup, h.count⟩

theorem Inv.linked (h : s.Inv J) : s.Linked J := ⟨h.freed, h.list, h.listNodup, h.threadCount⟩

theorem Inv.reported (h : s.Inv J) : s.Reported := ⟨h.called, h.exitval, h.joined⟩

theorem Inv.stands (h : s.Inv J) (u : Tid P) : s.Stands J u (s.pc u) := by
  cases hu : s.pc u with
  | unborn | running => exact trivial
  | joinAsleep t k =>
    refine ⟨h.asleep u t k hu, ?_⟩
    rintro rfl
    exact h.exitJoin u t (.inl hu)
  | joinWoken t k =>
    refine ⟨h.woken u t k hu, ?_⟩
    rintro rfl
    exact h.exitJoin u t (.inr hu)
  | exitAsleep => exact h.exitAsleep u hu
  | exitWoken => exact h.exitWoken u hu
  | exited => exact h.exited u hu

theorem Inv.of_parts (unborn : ∀ n, s.pc (.spawned n) = .unborn ↔ s.spawned ≤ n)
    (main : ∀ p, s.owner (.main p) = p ∧ (s.pc (.main p)).exiting = false ∧
      s.pc (.main p) ≠ .unborn)
    (joining : s.Joining J) (stands : ∀ u, s.Stands J u (s.pc u))
    (quiet : ∀ t, (s.ptcb t).detached = true → s.pc t ≠ .exited → J t = [])
    (linked : s.Linked J) (reported : s.Reported) : s.Inv J where
  unborn := unborn
  main := main
  joiners := joining.joiners
  nodup := joining.nodup
  count := joining.count
  asleep u t k hu := by
    have hs := stands u
    rw [hu] at hs
    exact hs.1
  woken u t k hu := by
    have hs := stands u
    rw [hu] at hs
    exact hs.1
  exitJoin u t hu := by
    have hs := stands u
    rcases hu with hu | hu
    all_goals
      rw [hu] at hs
      exact hs.2 rfl
  exitAsleep t ht := by
    have hs := stands t
    rwa [ht] at hs
  exitWoken t ht := by
    have hs := stands t
    rwa [ht] at hs
  exited t ht := by
    have hs := stands t
    rwa [ht] at hs
  quiet := quiet
  freed := linked.freed
  list := linked.list
  listNodup := linked.listNodup
  threadCount := linked.threadCount
  called := reported.called
  exitval := reported.exitval
  joined := reported.joined

theorem Joining.congr (h : s.Joining J) (hjoins : ∀ t u, (s'.pc u).joins t = (s.pc u).joins t)
    (hcount : ∀ t, (s'.ptcb t).waitingThreads = (s.ptcb t).waitingThreads) : s'.Joining J where
  joiners t u := by rw [hjoins, h.joiners]
  nodup := h.nodup
  count t := by rw [hcount, h.count]

/-- The lists and the counts, if no thread begins, and none is gone that was not. -/
theorem Linked.congr {J' : Tid P → List (Tid P)} (h : s.Linked J)
    (hsame : s'.owner = s.owner ∧ s'.ptcbList = s.ptcbList ∧ s'.threadCount = s.threadCount ∧
      s'.freed = s.freed)
    (hunborn : ∀ t, s'.pc t = .unborn ↔ s.pc t = .unborn)
    (hgone : ∀ t, s'.pc t = .exited ∧ J' t = [] ↔ s.pc t = .exited ∧ J t = []) :
    s'.Linked J' := by
  obtain ⟨howner, hlist, hcount, hfreed⟩ := hsame
  constructor
  case freed =>
    intro t
    simp only [hfreed, hgone]
    exact h.freed t
  case list =>
    intro p t
    simp only [howner, hlist, hfreed, ne_eq, hunborn]
    exact h.list p t
  case listNodup => exact hlist ▸ h.listNodup
  case threadCount =>
    rw [hcount, hlist]
    exact h.threadCount

omit [DecidableEq P] in
theorem Reported.congr (h : s.Reported) (hexitArg : s'.exitArg = s.exitArg)
    (hjoins : s'.joins = s.joins) (hexiting : ∀ t, (s'.pc t).exiting = (s.pc t).exiting)
    (hexitval : ∀ t, (s'.ptcb t).exitval = (s.ptcb t).exitval ∨ s.exitArg t = none) :
    s'.Reported := by
  constructor
  case called =>
    intro n
    rw [hexitArg, hexiting]
    exact h.called n
  case exitval =>
    intro n v hv
    rw [hexitArg] at hv
    rcases hexitval (.spawned n) with hval | hnone
    · rw [hval]
      exact h.exitval n v hv
    · rw [hnone] at hv
      cases hv
  case joined =>
    rw [hexitArg, hjoins]
    exact h.joined

omit [DecidableEq P] in
/-- A thread that stays where it is. -/
theorem Stands.congr {J' : Tid P → List (Tid P)} {u : Tid P} {p : ThreadPc P}
    (h : s.Stands J u p) (hself : p ≠ .unborn → s'.owner u = s.owner u)
    (howner : ∀ t, s.pc t ≠ .unborn → s'.owner t = s.owner t ∧ s'.pc t ≠ .unborn)
    (hexited : ∀ t, s.pc t = .exited → s'.pc t = .exited)
    (hdetached : p = .exited → (s.ptcb u).detached = true → (s'.ptcb u).detached = true)
    (hkept : ∀ t k, p = .joinAsleep t k → s.pc t ≠ .unborn →
      (s'.ptcb t).detached = (s.ptcb t).detached)
    (hJ : p = .exitAsleep ∨ p = .exitWoken → (J' u = [] ↔ J u = [])) : s'.Stands J' u p := by
  cases p with
  | unborn | running => exact trivial
  | joinAsleep t k =>
    obtain ⟨⟨hspawned, hborn, hown, hdet⟩, hk⟩ := h
    refine ⟨⟨hspawned, (howner t hborn).2, ?_, (hkept t k rfl hborn).trans hdet⟩, hk⟩
    rw [(howner t hborn).1, hself (by simp), hown]
  | joinWoken t k =>
    obtain ⟨⟨hex, hown⟩, hk⟩ := h
    refine ⟨⟨hexited t hex, ?_⟩, hk⟩
    rw [(howner t (by simp [hex])).1, hself (by simp), hown]
  | exitAsleep => exact (hJ (.inl rfl)).mpr h
  | exitWoken => exact fun hnil => h ((hJ (.inr rfl)).mp hnil)
  | exited => exact hdetached rfl h

theorem inv_initial (p : P) : (Threads.initial p).Inv fun _ => [] := by
  have hpc : ∀ t, (Threads.initial p).pc t = .running ∨ (Threads.initial p).pc t = .unborn := by
    intro t
    cases t <;> simp [initial]
  constructor
  case main => exact fun q => ⟨rfl, rfl, by simp [initial]⟩
  case joiners =>
    intro t u
    rcases hpc u with h | h <;> simp [h, ThreadPc.joins]
  case list =>
    intro q t
    cases t <;> simp [initial]
  case freed =>
    intro t
    have hne : (Threads.initial p).pc t ≠ .exited := by
      rcases hpc t with h | h <;> simp [h]
    rw [if_neg fun he => hne he.1]
    rfl
  case asleep | woken | exitJoin | exitAsleep | exitWoken | exited =>
    intro t
    rcases hpc t with h | h <;> simp [h]
  all_goals simp [initial, ThreadPc.exiting]

/-! ## What the calls change -/

theorem startJoin_pc (s : Threads P) (u t : Tid P) (k : JoinCaller) (v : Tid P) :
    (s.startJoin u t k).pc v = if v = u then .joinAsleep t k
      else if v = t ∧ s.pc t = .exitAsleep then .exitWoken else s.pc v := by
  unfold Threads.startJoin broadcastWaiting
  by_cases he : s.pc t = .exitAsleep
  · simp only [modify, goto, he, if_true, Function.update_apply, and_true]
  · simp only [modify, goto, he, if_false, Function.update_apply, and_false]

theorem startJoin_ptcb (s : Threads P) (u t : Tid P) (k : JoinCaller) (v : Tid P) :
    (s.startJoin u t k).ptcb v = if v = t then
      { s.ptcb t with waitingThreads := (s.ptcb t).waitingThreads + 1 } else s.ptcb v := by
  unfold Threads.startJoin broadcastWaiting
  split <;> simp only [goto, modify, Function.update_apply]

theorem startJoin_rest (s : Threads P) (u t : Tid P) (k : JoinCaller) :
    (s.startJoin u t k).owner = s.owner ∧ (s.startJoin u t k).ptcbList = s.ptcbList ∧
      (s.startJoin u t k).threadCount = s.threadCount ∧ (s.startJoin u t k).freed = s.freed ∧
      (s.startJoin u t k).exitArg = s.exitArg ∧ (s.startJoin u t k).joins = s.joins ∧
      (s.startJoin u t k).spawned = s.spawned := by
  unfold Threads.startJoin broadcastWaiting
  split <;> exact ⟨rfl, rfl, rfl, rfl, rfl, rfl, rfl⟩

theorem finishJoin_pc (s : Threads P) (u t : Tid P) (k : JoinCaller) (v : Tid P) :
    ((s.finishJoin u t k).goto u .running).pc v = if v = u then .running else s.pc v := by
  unfold Threads.finishJoin
  simp only [modify, Function.update_self]
  split <;> simp only [goto, freePTCB, Function.update_apply]

theorem finishJoin_ptcb (s : Threads P) (u t : Tid P) (k : JoinCaller) (v : Tid P) :
    ((s.finishJoin u t k).goto u .running).ptcb v = if v = t then
      { s.ptcb t with waitingThreads := (s.ptcb t).waitingThreads - 1 } else s.ptcb v := by
  unfold Threads.finishJoin
  simp only [modify, Function.update_self]
  split <;> simp only [goto, freePTCB, Function.update_apply]

/-- A join that returns takes at most the PTCB of `t` off its list. -/
theorem finishJoin_list (s : Threads P) (u t : Tid P) (k : JoinCaller) :
    ((s.finishJoin u t k).goto u .running).owner = s.owner ∧
      ((s.finishJoin u t k).goto u .running).spawned = s.spawned ∧
      ∀ q, (((s.finishJoin u t k).goto u .running).ptcbList q).Sublist (s.ptcbList q) := by
  unfold Threads.finishJoin
  simp only [modify, Function.update_self]
  split
  · exact ⟨rfl, rfl, fun _ => List.erase_sublist⟩
  · exact ⟨rfl, rfl, fun _ => .refl _⟩

/-- A thread that has exited is not detached any more. -/
theorem sysThreadDetach_pc {t : Tid P} (ht : s.pc t ≠ .exited) (v : Tid P) :
    (s.sysThreadDetach t).pc v =
      if 0 < (s.ptcb t).waitingThreads then (s.pc v).wake t else s.pc v := by
  unfold sysThreadDetach
  simp only [if_neg ht, modify, Function.update_self]
  split <;> rfl

theorem sysThreadDetach_ptcb {t : Tid P} (ht : s.pc t ≠ .exited) (v : Tid P) :
    (s.sysThreadDetach t).ptcb v =
      if v = t then { s.ptcb t with detached := true } else s.ptcb v := by
  unfold sysThreadDetach
  simp only [if_neg ht, modify, Function.update_self]
  split <;> simp only [broadcastJoin, Function.update_apply]

theorem sysThreadDetach_rest (s : Threads P) (t : Tid P) :
    s.sysThreadDetach t = { s with
      pc := (s.sysThreadDetach t).pc
      ptcb := (s.sysThreadDetach t).ptcb } := by
  unfold sysThreadDetach
  split
  · rfl
  · simp only
    split <;> rfl

/-! ## Who is in a join -/

/-- A thread that moves, but neither into a join nor out of one. -/
theorem Joining.goto (h : s.Joining J) {u : Tid P} {x : ThreadPc P}
    (hx : ∀ t, x.joins t = (s.pc u).joins t) : (s.goto u x).Joining J := by
  refine h.congr (fun t v => ?_) fun _ => rfl
  simp only [Threads.goto, Function.update_apply]
  split
  · rename_i hv
    rw [hv, hx]
  · rfl

theorem Joining.startJoin (h : s.Joining J) {u : Tid P} (t : Tid P) (k : JoinCaller)
    (hu : ∀ t', (s.pc u).joins t' = false) :
    (s.startJoin u t k).Joining (Function.update J t (J t ++ [u])) := by
  have hnj : ∀ t', u ∉ J t' := by
    intro t'
    rw [h.joiners, hu]
    simp
  constructor <;> simp only [startJoin_pc, startJoin_ptcb, Function.update_apply]
  case joiners => have := h.joiners; grind [ThreadPc.joins]
  case nodup => have := h.nodup; grind
  case count => have := h.count; grind

theorem Joining.finishJoin (h : s.Joining J) {u t : Tid P} {k : JoinCaller}
    (hu : s.pc u = .joinWoken t k) :
    ((s.finishJoin u t k).goto u .running).Joining (Function.update J t ((J t).erase u)) := by
  have hmem : ∀ t', u ∈ J t' ↔ t' = t := by
    intro t'
    rw [h.joiners, hu]
    simp [ThreadPc.joins, eq_comm]
  constructor <;> simp only [finishJoin_pc, finishJoin_ptcb, Function.update_apply]
  case joiners => have := h.joiners; have := h.nodup; grind [ThreadPc.joins]
  case nodup => have := h.nodup; grind
  case count => have := h.count; grind

theorem Joining.create (h : s.Joining J) (hnew : s.pc (.spawned s.spawned) = .unborn)
    (hJ : J (.spawned s.spawned) = []) (u : Tid P) (task : Bool) :
    (s.sysCreateThread u task).Joining J := by
  unfold sysCreateThread
  cases task with
  | false => exact h
  | true =>
    have hcount : (s.ptcb (.spawned s.spawned)).waitingThreads = 0 := by
      rw [h.count, hJ]
      rfl
    refine h.congr ?_ ?_ <;> simp only [if_true, Function.update_apply] <;> grind [ThreadPc.joins]

/-- The joiners that wake up have not returned. -/
theorem Joining.detach (h : s.Joining J) {t : Tid P} (ht : s.pc t ≠ .exited) :
    (s.sysThreadDetach t).Joining J := by
  refine h.congr (fun t' v => ?_) fun v => ?_
  · rw [sysThreadDetach_pc ht]
    split <;> simp
  · rw [sysThreadDetach_ptcb ht]
    split
    · rename_i hv
      rw [hv]
    · rfl

/-! ## The invariant, call by call -/

/-- A thread that is not in a join, and not in the loop of a main thread. -/
theorem Inv.startJoin (h : s.Inv J) {u t : Tid P} (k : JoinCaller) (hu : s.pc u = .running)
    (hk : k = .exit → ∃ p, u = .main p) (ht : s.pc t ≠ .unborn)
    (hr : s.joinRefused u t = false) :
    (s.startJoin u t k).Inv (Function.update J t (J t ++ [u])) := by
  simp only [joinRefused, decide_eq_false_iff_not, not_or, not_not, not_and] at hr
  obtain ⟨howner, ⟨htu, htm⟩, hdet⟩ := hr
  have hdet' : (s.ptcb t).detached = false := by
    by_contra hd
    exact htm (hdet (by simpa using hd))
  have hspawned : ∃ n, t = .spawned n := by
    cases t with
    | main p =>
      have := (h.main p).1
      exact absurd (by rw [← howner, this]) htm
    | spawned n => exact ⟨n, rfl⟩
  have hne : s.pc t ≠ .exited := by
    intro he
    simp [h.exited t he] at hdet'
  have happ : J t ++ [u] ≠ [] := List.concat_ne_nil u _
  have hjoining := h.joining.startJoin t k (u := u) (by simp [hu, ThreadPc.joins])
  have hpc := s.startJoin_pc u t k
  have hptcb := s.startJoin_ptcb u t k
  obtain ⟨e₁, e₂, e₃, e₄, e₅, e₆, e₇⟩ := s.startJoin_rest u t k
  generalize s.startJoin u t k = s' at *
  have hunborn : ∀ v, s'.pc v = .unborn ↔ s.pc v = .unborn := by grind
  apply Inv.of_parts
  case unborn =>
    intro n
    rw [hunborn, e₇]
    exact h.unborn n
  case main => have := h.main; grind [ThreadPc.exiting]
  case joining => exact hjoining
  case stands =>
    intro v
    rw [hpc]
    by_cases hv : v = u
    · -- The caller waits for a thread of its own process.
      subst hv
      rw [if_pos rfl]
      exact ⟨⟨hspawned, mt (hunborn t).mp ht, by rw [e₁, howner], by simp [hptcb, hdet']⟩, hk⟩
    rw [if_neg hv]
    by_cases hx : v = t ∧ s.pc t = .exitAsleep
    · -- The thread it waits for slept until somebody would join it.
      rw [if_pos hx, hx.1]
      simp [Stands]
    · rw [if_neg hx]
      have := h.exitWoken
      refine (h.stands v).congr ?_ ?_ ?_ ?_ ?_ ?_ <;> grind
  case quiet => have := h.quiet; grind
  case linked =>
    refine h.linked.congr ⟨e₁, e₂, e₃, e₄⟩ hunborn fun v => ?_
    grind
  case reported => exact h.reported.congr e₅ e₆ (by grind [ThreadPc.exiting]) (by grind)

/-- A joiner returns; the last one frees the PTCB. -/
theorem Inv.finishJoin (h : s.Inv J) {u t : Tid P} {k : JoinCaller}
    (hu : s.pc u = .joinWoken t k) :
    ((s.finishJoin u t k).goto u .running).Inv (Function.update J t ((J t).erase u)) := by
  obtain ⟨hex, howner⟩ := h.woken u t k hu
  have huj : u ∈ J t := by
    rw [h.joiners, hu]
    simp [ThreadPc.joins]
  have hspawned : ∃ n, t = .spawned n := by
    cases t with
    | main p =>
      have := (h.main p).2.1
      simp [hex, ThreadPc.exiting] at this
    | spawned n => exact ⟨n, rfl⟩
  have hpos : 0 < (J t).length := List.length_pos_of_mem huj
  have hlen : ((J t).erase u).length = (J t).length - 1 := List.length_erase_of_mem huj
  have hzero : (J t).erase u = [] ↔ (J t).length = 1 := by
    rw [← List.length_eq_zero_iff, hlen]
    omega
  have hfreed : s.freed t = 0 := by
    rw [h.freed, if_neg]
    rintro ⟨-, he⟩
    simp [he] at huj
  obtain ⟨v, hv⟩ : ∃ v, s.exitArg t = some v := by
    obtain ⟨n, rfl⟩ := hspawned
    exact Option.isSome_iff_exists.mp (by rw [h.called n, hex]; rfl)
  have hval : (s.ptcb t).exitval = v := by
    obtain ⟨n, rfl⟩ := hspawned
    exact h.exitval n v hv
  have hcount := h.count t
  have hdec : (s.ptcb t).waitingThreads - 1 = 0 ↔ (J t).length = 1 := by omega
  -- What the call does, field by field.
  have hjoining := h.joining.finishJoin hu
  have hpc := s.finishJoin_pc u t k
  have hptcb := s.finishJoin_ptcb u t k
  have hfree : ∀ v, ((s.finishJoin u t k).goto u .running).freed v =
      if v = t ∧ (J t).length = 1 then s.freed t + 1 else s.freed v := by
    intro v
    unfold Threads.finishJoin
    simp only [modify, Function.update_self, hdec]
    split <;> simp_all [goto, freePTCB, Function.update_apply]
  have hlist : ∀ q, ((s.finishJoin u t k).goto u .running).ptcbList q =
      if (J t).length = 1 then (s.ptcbList q).erase t else s.ptcbList q := by
    intro q
    unfold Threads.finishJoin
    simp only [modify, Function.update_self, hdec]
    split <;> simp only [goto, freePTCB]
  have hthreads : ∀ q, ((s.finishJoin u t k).goto u .running).threadCount q =
      if q = s.owner u ∧ (J t).length = 1 then s.threadCount q - 1 else s.threadCount q := by
    intro q
    unfold Threads.finishJoin
    simp only [modify, Function.update_self, hdec]
    split <;> simp only [goto, freePTCB, Function.update_apply] <;> grind
  have hrest : ((s.finishJoin u t k).goto u .running).owner = s.owner ∧
      ((s.finishJoin u t k).goto u .running).exitArg = s.exitArg ∧
      ((s.finishJoin u t k).goto u .running).joins =
        s.joins ++ [(u, t, if k = JoinCaller.api true then some (s.ptcb t).exitval else none)] ∧
      ((s.finishJoin u t k).goto u .running).spawned = s.spawned := by
    unfold Threads.finishJoin
    simp only [modify, Function.update_self, hdec]
    split <;> exact ⟨rfl, rfl, rfl, rfl⟩
  obtain ⟨e₁, e₂, e₃, e₄⟩ := hrest
  generalize (s.finishJoin u t k).goto u .running = s' at *
  apply Inv.of_parts
  case unborn => have := h.unborn; grind
  case main => have := h.main; grind [ThreadPc.exiting]
  case joining => exact hjoining
  case stands =>
    intro v
    rw [hpc]
    by_cases hv : v = u
    · rw [if_pos hv]
      exact trivial
    · rw [if_neg hv]
      refine (h.stands v).congr ?_ ?_ ?_ ?_ ?_ ?_ <;> grind
  case quiet => have := h.quiet; grind
  case linked =>
    constructor <;> simp only [hpc, hfree, hlist, hthreads, e₁, Function.update_apply]
    case freed => have := h.freed; grind
    case list => have := h.list; have := h.listNodup; grind
    case listNodup => have := h.listNodup; grind
    case threadCount => have := h.threadCount; have := h.list; grind
  case reported =>
    constructor <;> simp only [hpc, hptcb, e₂, e₃]
    case called => have := h.called; grind [ThreadPc.exiting]
    case exitval => have := h.exitval; grind
    case joined => have := h.joined; grind

/-- A new thread. -/
theorem Inv.create (h : s.Inv J) {u : Tid P} (task : Bool) : (s.sysCreateThread u task).Inv J := by
  unfold sysCreateThread
  cases task with
  | false => exact h
  | true =>
    have hnew : s.pc (.spawned s.spawned) = .unborn := (h.unborn _).mpr (Nat.le_refl _)
    have hJ : J (.spawned s.spawned) = [] := by
      refine List.eq_nil_iff_forall_not_mem.mpr fun v hv => ?_
      have hj := (h.joiners _ v).mp hv
      cases hp : s.pc v <;> simp only [hp, ThreadPc.joins, decide_eq_true_eq,
        Bool.false_eq_true] at hj
      · exact (h.asleep _ _ _ hp).2.1 (hj ▸ hnew)
      · have := (h.woken _ _ _ hp).1
        rw [hj, hnew] at this
        exact absurd this (by simp)
    have hnl : ∀ p, .spawned s.spawned ∉ s.ptcbList p := fun p hm =>
      ((h.list p _).mp hm).2.1 hnew
    have hfreed : s.freed (.spawned s.spawned) = 0 := by
      rw [h.freed, if_neg]
      simp [hnew]
    have hcalled : s.exitArg (.spawned s.spawned) = none := by
      have := h.called s.spawned
      rw [hnew] at this
      simpa [ThreadPc.exiting] using this
    have hjoining := h.joining.create hnew hJ u true
    simp only [if_true]
    apply Inv.of_parts <;> try simp only [Function.update_apply]
    case unborn => have := h.unborn; grind
    case main => have := h.main; grind [ThreadPc.exiting]
    case joining => exact hjoining
    case stands =>
      intro v
      split
      · exact trivial
      · refine (h.stands v).congr ?_ ?_ ?_ ?_ ?_ ?_ <;> grind
    case quiet => have := h.quiet; grind
    case linked =>
      constructor <;> simp only [Function.update_apply]
      case freed => have := h.freed; grind
      case list => have := h.list; grind
      case listNodup => have := h.listNodup; grind
      case threadCount => have := h.threadCount; grind
    case reported => refine h.reported.congr rfl rfl ?_ ?_ <;> grind [ThreadPc.exiting]

/-- A thread is detached, and nobody waits to join it. -/
theorem Inv.detach (h : s.Inv J) {t : Tid P}
    (ht : s.pc t = .exited ∨ (s.ptcb t).waitingThreads = 0) : (s.sysThreadDetach t).Inv J := by
  unfold sysThreadDetach
  split
  · exact h
  · rename_i hne
    have hz := ht.resolve_left hne
    have hJ : J t = [] := by
      have := h.count t
      exact List.length_eq_zero_iff.mp (by omega)
    have hna : ∀ v, (s.pc v).joins t = false := by
      intro v
      have := h.joiners t v
      simpa [hJ] using this
    simp only [modify, Function.update_self, hz, Int.lt_irrefl, if_false]
    apply Inv.of_parts
    case unborn => exact h.unborn
    case main => exact h.main
    case joining => exact h.joining.congr (fun _ _ => rfl) (by grind)
    case stands =>
      intro v
      refine (h.stands v).congr ?_ ?_ ?_ ?_ ?_ ?_ <;> grind [ThreadPc.joins]
    case quiet => have := h.quiet; grind
    case linked => exact h.linked.congr ⟨rfl, rfl, rfl, rfl⟩ (fun _ => .rfl) fun _ => .rfl
    case reported => exact h.reported.congr rfl rfl (fun _ => rfl) (by grind)

/-- A detached thread exits, and frees its own PTCB. -/
theorem Inv.exitDetached (h : s.Inv J) {n : Nat} (v : Int) (hu : s.pc (.spawned n) = .running)
    (hd : (s.ptcb (.spawned n)).detached = true) :
    ((({ s with exitArg := Function.update s.exitArg (.spawned n) (some v) }.modify (.spawned n)
      fun b => { b with exitval := v }).freePTCB (s.owner (.spawned n)) (.spawned n)).goto
        (.spawned n) .exited).Inv J := by
  have hJ : J (.spawned n) = [] := h.quiet _ hd (by simp [hu])
  have hfreed : s.freed (.spawned n) = 0 := by
    rw [h.freed, if_neg]
    simp [hu]
  apply Inv.of_parts <;> try simp only [modify, freePTCB, goto, Function.update_apply]
  case unborn => have := h.unborn; grind
  case main => have := h.main; grind [ThreadPc.exiting]
  case joining => refine h.joining.congr ?_ ?_ <;> grind [ThreadPc.joins]
  case stands =>
    intro u
    split
    · rename_i hun
      simp [Stands, hun, hd]
    · refine (h.stands u).congr ?_ ?_ ?_ ?_ ?_ ?_ <;> grind
  case quiet => have := h.quiet; grind
  case linked =>
    constructor <;> simp only [Function.update_apply]
    case freed => have := h.freed; grind
    case list => have := h.list; have := h.listNodup; grind
    case listNodup => have := h.listNodup; grind
    case threadCount => have := h.threadCount; have := h.list; grind
  case reported =>
    constructor <;> simp only [Function.update_apply]
    case called => have := h.called; grind [ThreadPc.exiting]
    case exitval => have := h.exitval; grind
    case joined => have := h.joined; have := h.called; grind [ThreadPc.exiting]

/-- A thread calls `ThreadExit`. If nobody waits for it, it sleeps until somebody does. -/
theorem Inv.exitCall (h : s.Inv J) {n : Nat} (v : Int) (hu : s.pc (.spawned n) = .running)
    (hd : (s.ptcb (.spawned n)).detached = false) {x : ThreadPc P}
    (hx : x = .exitAsleep ∧ J (.spawned n) = [] ∨ x = .exitWoken ∧ J (.spawned n) ≠ []) :
    (({ s with exitArg := Function.update s.exitArg (.spawned n) (some v) }.modify (.spawned n)
      fun b => { b with exitval := v }).goto (.spawned n) x).Inv J := by
  apply Inv.of_parts <;> try simp only [modify, goto, Function.update_apply]
  case unborn => have := h.unborn; grind
  case main => have := h.main; grind [ThreadPc.exiting]
  case joining => refine h.joining.congr ?_ ?_ <;> grind [ThreadPc.joins]
  case stands =>
    intro u
    split
    · rename_i hun
      obtain ⟨rfl, hJ⟩ | ⟨rfl, hJ⟩ := hx <;> simpa [Stands, hun] using hJ
    · refine (h.stands u).congr ?_ ?_ ?_ ?_ ?_ ?_ <;> grind
  case quiet => have := h.quiet; grind
  case linked => refine h.linked.congr ⟨rfl, rfl, rfl, rfl⟩ ?_ ?_ <;> grind
  case reported =>
    constructor <;> simp only [Function.update_apply]
    case called => have := h.called; grind [ThreadPc.exiting]
    case exitval => have := h.exitval; grind
    case joined => have := h.joined; have := h.called; grind [ThreadPc.exiting]

/-- The exiting thread wakes its joiners. -/
theorem Inv.finishExit (h : s.Inv J) {n : Nat} (hu : s.pc (.spawned n) = .exitWoken) :
    (s.finishExit (.spawned n)).Inv J := by
  have hJ : J (.spawned n) ≠ [] := h.exitWoken _ hu
  have hpos : 0 < (s.ptcb (.spawned n)).waitingThreads := by
    rw [h.count]
    exact Int.natCast_pos.mpr (List.length_pos_iff.mpr hJ)
  have hne' : s.pc (.spawned n) ≠ .exited := by simp [hu]
  have hpc : ∀ v, (s.finishExit (.spawned n)).pc v = if v = .spawned n then .exited else
      (s.pc v).wake (.spawned n) := by
    intro v
    simp only [Threads.finishExit, goto, Function.update_apply, sysThreadDetach_pc hne', if_pos hpos]
  have hptcb : ∀ v, (s.finishExit (.spawned n)).ptcb v = if v = .spawned n then
      { s.ptcb (.spawned n) with detached := true } else s.ptcb v := sysThreadDetach_ptcb hne'
  have hrest : s.finishExit (.spawned n) = { s with
      pc := (s.finishExit (.spawned n)).pc
      ptcb := (s.finishExit (.spawned n)).ptcb } := by
    unfold Threads.finishExit
    rw [sysThreadDetach_rest]
    rfl
  rw [hrest]
  generalize s.finishExit (.spawned n) = s' at *
  -- Where the other threads stand: a joiner may have been made ready, nobody else moves.
  have hself : s'.pc (.spawned n) = .exited := by simp [hpc]
  have hjoins : ∀ t v, (s'.pc v).joins t = (s.pc v).joins t := by
    intro t v
    by_cases hv : v = .spawned n
    · simp [hv, hself, hu, ThreadPc.joins]
    · simp [hpc, hv]
  have hexiting : ∀ v, (s'.pc v).exiting = (s.pc v).exiting := by
    intro v
    by_cases hv : v = .spawned n
    · simp [hv, hself, hu, ThreadPc.exiting]
    · simp [hpc, hv]
  have hunborn : ∀ v, s'.pc v = .unborn ↔ s.pc v = .unborn := by
    intro v
    by_cases hv : v = .spawned n
    · simp [hv, hself, hu]
    · rw [hpc, if_neg hv, ThreadPc.wake_eq fun _ => rfl]
  have hexited : ∀ v, s'.pc v = .exited ↔ s.pc v = .exited ∨ v = .spawned n := by
    intro v
    by_cases hv : v = .spawned n
    · simp [hv, hself]
    · rw [hpc, if_neg hv, ThreadPc.wake_eq fun _ => rfl]
      simp [hv]
  apply Inv.of_parts
  case unborn =>
    intro m
    rw [hunborn]
    exact h.unborn m
  case main =>
    intro p
    rw [hexiting, ne_eq, hunborn]
    exact h.main p
  case joining => exact h.joining.congr hjoins (by grind)
  case stands =>
    intro v
    rw [hpc]
    by_cases hv : v = .spawned n
    · simp [Stands, hv, hptcb]
    rw [if_neg hv]
    by_cases hw : ∃ k, s.pc v = .joinAsleep (.spawned n) k
    · -- A joiner of the thread, which has exited by now.
      obtain ⟨k, hk⟩ := hw
      have hs := h.stands v
      rw [hk] at hs
      rw [hk, ThreadPc.wake, if_pos rfl]
      exact ⟨⟨hself, hs.1.2.2.1⟩, hs.2⟩
    · rw [ThreadPc.wake_of_ne fun k hk => hw ⟨k, hk⟩]
      refine (h.stands v).congr ?_ ?_ ?_ ?_ ?_ ?_ <;> grind
  case quiet => have := h.quiet; grind
  case linked =>
    refine h.linked.congr ⟨rfl, rfl, rfl, rfl⟩ hunborn fun v => ?_
    grind
  case reported => exact h.reported.congr rfl rfl hexiting (by grind)

/-- Only the threads of a process matter, not whether a main thread goes round its loop. -/
theorem Inv.hang (h : s.Inv J) : ({ s with hung := true }).Inv J := by
  cases h
  constructor <;> assumption

theorem Inv.release (h : s.Inv J) (t : Tid P) :
    ({ s with released := Function.update s.released t true }).Inv J := by
  cases h
  constructor <;> assumption

/-- What a main thread passes to `ThreadExit` nobody can join. -/
theorem Inv.mainExitArg (h : s.Inv J) (p : P) (v : Int) :
    ({ s with exitArg := Function.update s.exitArg (.main p) (some v) }).Inv J := by
  have hjoined := h.joined
  cases h
  constructor
  case joined =>
    simp only [Function.update_apply]
    grind
  all_goals assumption

theorem goto_self {u : Tid P} {x : ThreadPc P} (hu : s.pc u = x) : s.goto u x = s := by
  simp [goto, ← hu]

/-- The main thread finds its list empty, or joins the first thread on it, or spins. -/
theorem Inv.exitLoop (h : s.Inv J) {p : P} (hu : s.pc (.main p) = .running) :
    ∃ J', (s.exitLoop (.main p)).Inv J' := by
  unfold Threads.exitLoop
  split
  · exact ⟨J, by rwa [goto_self hu]⟩
  · rename_i t _ hl
    have ht := (h.list _ t).mp (hl ▸ List.mem_cons_self)
    split
    · exact ⟨J, h.hang⟩
    · rename_i hr
      exact ⟨_, h.startJoin .exit hu (fun _ => ⟨p, rfl⟩) ht.2.1 (by simpa using hr)⟩

/-- A thread that is joined already exits as the one that was woken to be joined does. -/
theorem finishExit_goto {u : Tid P} {x : ThreadPc P} (hu : s.pc u ≠ .exited) (hx : x ≠ .exited) :
    (s.goto u x).finishExit u = s.finishExit u := by
  unfold Threads.finishExit sysThreadDetach
  simp only [goto, Function.update_self, hx, hu, if_false, modify]
  split
  · simp only [broadcastJoin]
    congr 1
    funext v
    by_cases hv : v = u <;> simp [hv]
  · simp

theorem Inv.threadExit (h : s.Inv J) {u : Tid P} (v : Int) (hu : s.pc u = .running) :
    ∃ J', (s.sysThreadExit u v).Inv J' := by
  unfold sysThreadExit
  cases u with
  | main p =>
    simp only [(h.main p).1, if_true]
    exact (h.mainExitArg p v).exitLoop hu
  | spawned n =>
    simp only [reduceCtorEq, if_false]
    split
    · rename_i hd
      exact ⟨J, h.exitDetached v hu (by simpa [modify] using hd)⟩
    · rename_i hd
      have hd : (s.ptcb (.spawned n)).detached = false := by simpa [modify] using hd
      have hcount := h.count (.spawned n)
      split
      · rename_i hw
        have hw : (s.ptcb (.spawned n)).waitingThreads = 0 := by simpa [modify] using hw
        have hJ : J (.spawned n) = [] := List.length_eq_zero_iff.mp (by omega)
        exact ⟨J, h.exitCall v hu hd (.inl ⟨rfl, hJ⟩)⟩
      · rename_i hw
        have hw : (s.ptcb (.spawned n)).waitingThreads ≠ 0 := by simpa [modify] using hw
        have hJ : J (.spawned n) ≠ [] := fun hJ => hw (by simp [hcount, hJ])
        have hi := h.exitCall v hu hd (.inr ⟨rfl, hJ⟩)
        have hf := hi.finishExit (Function.update_self ..)
        rw [finishExit_goto (by simp [modify, hu]) (by simp)] at hf
        exact ⟨J, hf⟩

theorem Inv.resume (h : s.Inv J) {u : Tid P} (hp : s.perform (.resume u) = some s') :
    ∃ J', s'.Inv J' := by
  simp only [perform] at hp
  split at hp
  · exact absurd hp (by simp)
  · split at hp
    · rename_i t store hu
      cases hp
      exact ⟨_, h.finishJoin hu⟩
    · rename_i t hu
      cases hp
      have hf := h.finishJoin hu
      cases u with
      | main p => exact hf.exitLoop (Function.update_self ..)
      | spawned n =>
        obtain ⟨p, hp⟩ := h.exitJoin _ _ (.inr hu)
        exact absurd hp (by simp)
    · rename_i hu
      cases hp
      cases u with
      | main p =>
        have := (h.main p).2.1
        simp [hu, ThreadPc.exiting] at this
      | spawned n => exact ⟨J, h.finishExit hu⟩
    · exact absurd hp (by simp)

/-- **One step** keeps the invariant, if it meets the condition. -/
theorem Inv.perform (h : s.Inv J) {a : ThreadAction P} (hc : s.Sound a)
    (hp : s.perform a = some s') : ∃ J', s'.Inv J' := by
  have hh : s.hung = false := by
    by_contra hh
    simp [Threads.perform, hh] at hp
  cases a with
  | resume u => exact h.resume hp
  | createThread u task =>
    obtain ⟨-, rfl⟩ : s.pc u = .running ∧ s.sysCreateThread u task = s' := by
      simpa [Threads.perform, hh] using hp
    exact ⟨J, h.create task⟩
  | threadExit u v =>
    obtain ⟨hu, rfl⟩ : s.pc u = .running ∧ s.sysThreadExit u v = s' := by
      simpa [Threads.perform, hh] using hp
    exact h.threadExit v hu
  | releaseTCB t =>
    simp only [Threads.perform, hh, Bool.false_eq_true, if_false,
      Option.ite_none_right_eq_some, Option.some.injEq] at hp
    obtain ⟨-, rfl⟩ := hp
    exact ⟨J, hh ▸ h.release t⟩
  | threadJoin u tid store =>
    cases tid with
    | none =>
      obtain ⟨-, rfl⟩ : s.pc u = .running ∧ s = s' := by
        simpa [Threads.perform, hh] using hp
      exact ⟨J, h⟩
    | some t =>
      simp only [Threads.perform, hh, Bool.false_eq_true, if_false,
        Option.ite_none_right_eq_some, Option.some.injEq] at hp
      obtain ⟨hu, rfl⟩ := hp
      split
      · exact ⟨J, h⟩
      · rename_i hr
        exact ⟨_, h.startJoin (.api store) hu (by simp) hc.1 (by simpa using hr)⟩
  | threadDetach u tid =>
    cases tid with
    | none =>
      obtain ⟨-, rfl⟩ : s.pc u = .running ∧ s = s' := by
        simpa [Threads.perform, hh] using hp
      exact ⟨J, h⟩
    | some t =>
      obtain ⟨-, rfl⟩ : s.pc u = .running ∧ s.sysThreadDetach t = s' := by
        simpa [Threads.perform, hh] using hp
      exact ⟨J, h.detach hc.2.2⟩

theorem inductive_inv : (threadSys P).InductiveIf (fun s a => s.Sound a) fun s => ∃ J, s.Inv J where
  init := by
    rintro _ ⟨p, rfl⟩
    exact ⟨_, inv_initial p⟩
  step s a s' h hc hp := h.elim fun _ h => h.perform hc hp

theorem Inv.joins_eq_nil (h : s.Inv J) {t : Tid P} :
    J t = [] ↔ ∀ u, (s.pc u).joins t = false := by
  simp [List.eq_nil_iff_forall_not_mem, h.joiners]

theorem Inv.safe (h : s.Inv J) : s.Safe where
  joined u t e hj := (h.joined u t e hj).2
  freed t := by
    have hf := h.freed t
    split at hf
    · rename_i he
      exact ⟨by omega, fun _ => ⟨he.1, h.joins_eq_nil.mp he.2⟩⟩
    · exact ⟨by omega, fun _ => by omega⟩
  freedThen t he hj := by
    rw [h.freed, if_pos ⟨he, h.joins_eq_nil.mpr hj⟩]
  linked n hn p := by
    rw [h.list]
    exact ⟨fun hl => hl.2.2, fun hl => ⟨⟨n, rfl⟩, hn, hl⟩⟩
  counted p := ⟨h.listNodup p, h.threadCount p⟩

end Threads

/-- **Joining is sound**, in every run in which no thread is detached while somebody waits to join
it and no call names a thread that is gone: every interleaving of the four calls, by the threads of
any number of processes. -/
theorem thread_join_safe (P : Type) [DecidableEq P] (s : Threads P)
    (hr : (threadSys P).ReachIf (fun s a => s.Sound a) s) : s.Safe :=
  Threads.inductive_inv.reachIf hr |>.elim fun _ h => h.safe

/-- Two threads join a third one. It exits with 7, and both get 7. -/
theorem thread_join_safe_run : ∃ s : Threads Unit, s.Safe ∧
    s.joins = [(.main (), .spawned 0, some 7), (.spawned 1, .spawned 0, some 7)] := by
  obtain ⟨s, hr, hp⟩ := Sys.reachIf_of_exec (M := threadSys Unit) (C := fun s a => s.Sound a)
    (fun s a => decide (s.Sound a)) (Threads.initial ())
    [.createThread (.main ()) true, .createThread (.main ()) true,
      .threadJoin (.main ()) (some (.spawned 0)) true,
      .threadJoin (.spawned 1) (some (.spawned 0)) true,
      .threadExit (.spawned 0) 7, .resume (.main ()), .resume (.spawned 1)]
    (fun s => decide (s.joins =
      [(.main (), .spawned 0, some 7), (.spawned 1, .spawned 0, some 7)]))
    (fun s a h => of_decide_eq_true h) ⟨(), rfl⟩ (by decide)
  exact ⟨s, thread_join_safe Unit s hr, of_decide_eq_true hp⟩

/-- The main thread joins a thread that still runs, and a third one detaches it: the join returns
0, though the thread has not called `ThreadExit`, and the main thread frees its PTCB. -/
theorem not_thread_join_safe : ¬ ∀ s : Threads Unit, (threadSys Unit).Reach s → s.Safe := by
  intro hall
  obtain ⟨s, hr, hp⟩ := Sys.reachIf_of_exec (M := threadSys Unit) (C := fun _ _ => True)
    (fun _ _ => true) (Threads.initial ())
    [.createThread (.main ()) true, .createThread (.main ()) true,
      .threadJoin (.main ()) (some (.spawned 0)) true,
      .threadDetach (.spawned 1) (some (.spawned 0)), .resume (.main ())]
    (fun s => decide ((.main (), .spawned 0, some 0) ∈ s.joins ∧ s.exitArg (.spawned 0) = none ∧
      s.pc (.spawned 0) = .running ∧ s.freed (.spawned 0) = 1))
    (fun _ _ _ => trivial) ⟨(), rfl⟩ (by decide)
  obtain ⟨hj, he, -, -⟩ := of_decide_eq_true hp
  obtain ⟨v, hv, -⟩ := (hall s hr).joined _ _ _ hj
  simp [he] at hv

end TinyOS
