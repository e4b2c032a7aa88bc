import Mathlib
import TinyOS.Sched.Invariant

/-!
# A boost of the run queues (`kernel_sched.c`)

Each iteration of `sched_boost` takes the head off a queue, and puts it at the end of the queue above.
The next one takes the head of the queue below. No iteration takes from a queue that a thread has been
put on, so **a thread goes up by one level at most**.

Read one after the other, the queues hold the same threads in the same order as before: a boost only
moves the borders between them. So the sum of the priorities decreases with each boost until all
threads are on the first queue, where they stay.
-/

set_option autoImplicit false

namespace TinyOS

namespace Sched

variable {C : Type} [DecidableEq C] {s : Sched C}

/-! ## Levels -/

/-- The threads on a queue have its priority, and are on it once. -/
structure Leveled (s : Sched C) : Prop where
  nodup : ∀ q < mfqQueues, (s.runQueue q).Nodup
  priority : ∀ q < mfqQueues, ∀ t ∈ s.runQueue q, (s.tcb t).priority = q

omit [DecidableEq C] in
/-- The scheduler keeps its queues so. -/
theorem Inv.leveled (h : s.Inv) : s.Leveled where
  nodup q _ := h.queueNodup q
  priority q _ t ht := ((h.queued q t).mp ht).2.2.2.2.2

/-- The run queues, one after the other. -/
def queuedThreads (s : Sched C) : List (ThreadRef C) :=
  (List.range mfqQueues).flatMap s.runQueue

/-- The sum of their priorities. -/
def level (s : Sched C) : Nat :=
  (s.queuedThreads.map fun t => (s.tcb t).priority).sum

/-- The thread is the first one on a queue below `k`, other than queue 0. -/
def Heads (s : Sched C) (k : Nat) (t : ThreadRef C) : Prop :=
  ∃ q < k, 0 < q ∧ (s.runQueue q).head? = some t

instance (s : Sched C) (k : Nat) (t : ThreadRef C) : Decidable (s.Heads k t) :=
  inferInstanceAs (Decidable (∃ q < k, 0 < q ∧ (s.runQueue q).head? = some t))

/-- What a boost leaves on a queue. -/
def left (s : Sched C) (q : Nat) : List (ThreadRef C) :=
  if q = 0 then s.runQueue 0 else (s.runQueue q).tail

/-- What it takes from it. -/
def taken (s : Sched C) (q : Nat) : List (ThreadRef C) :=
  if q = 0 then [] else (s.runQueue q).head?.toList

/-- The scheduler after `i` iterations of `sched_boost`. -/
def boosted (s : Sched C) (i : Nat) : Sched C :=
  { s with
    tcb := fun t =>
      if s.Heads (i + 1) t then { s.tcb t with priority := (s.tcb t).priority - 1 } else s.tcb t
    runQueue := fun q =>
      if q < i then s.left q ++ s.taken (q + 1) else if q = i then s.left q else s.runQueue q }

omit [DecidableEq C] in
theorem taken_left (s : Sched C) (q : Nat) : s.taken q ++ s.left q = s.runQueue q := by
  by_cases hq : q = 0
  · simp [taken, left, hq]
  · cases hcase : s.runQueue q <;> simp [taken, left, hq, hcase]

omit [DecidableEq C] in
theorem heads_succ {k : Nat} {t : ThreadRef C} (hk : 0 < k) :
    s.Heads (k + 1) t ↔ s.Heads k t ∨ (s.runQueue k).head? = some t := by
  constructor
  · rintro ⟨q, hq, hpos, hhead⟩
    rcases Nat.lt_succ_iff_lt_or_eq.mp hq with hlt | rfl
    · exact .inl ⟨q, hlt, hpos, hhead⟩
    · exact .inr hhead
  · rintro (⟨q, hq, hpos, hhead⟩ | hhead)
    · exact ⟨q, Nat.lt_succ_of_lt hq, hpos, hhead⟩
    · exact ⟨k, Nat.lt_succ_self k, hk, hhead⟩

omit [DecidableEq C] in
/-- A thread is the head of the queue of its priority only. -/
theorem Leveled.heads_priority (hl : s.Leveled) {k : Nat} (hk : k ≤ mfqQueues) {t : ThreadRef C}
    (ht : s.Heads k t) : 0 < (s.tcb t).priority ∧ (s.tcb t).priority < k ∧
      (s.runQueue (s.tcb t).priority).head? = some t := by
  obtain ⟨q, hq, hpos, hhead⟩ := ht
  have hp := hl.priority q (by omega) t (List.mem_of_mem_head? hhead)
  rw [hp]
  exact ⟨hpos, hq, hhead⟩

/-! ## One iteration -/

theorem boosted_zero (s : Sched C) : s.boosted 0 = s := by
  have hheads : ∀ t, ¬ s.Heads 1 t := by
    rintro t ⟨q, hq, hpos, -⟩
    omega
  have hqueue : ∀ q, (if q = 0 then s.left q else s.runQueue q) = s.runQueue q := by
    intro q
    split
    · simp [left, *]
    · rfl
  simp [boosted, hheads, hqueue]

section
variable {i q : Nat}

/-- A queue that is done. -/
theorem boosted_runQueue_lt (s : Sched C) (hq : q < i) :
    (s.boosted i).runQueue q = s.left q ++ s.taken (q + 1) :=
  if_pos hq

/-- The queue from which the last thread was taken. -/
theorem boosted_runQueue_self (s : Sched C) (i : Nat) : (s.boosted i).runQueue i = s.left i := by
  simp [boosted]

/-- A queue that has not been reached. -/
theorem boosted_runQueue_gt (s : Sched C) (hq : i < q) : (s.boosted i).runQueue q = s.runQueue q := by
  have hlt : ¬ q < i := by omega
  have hne : q ≠ i := by omega
  simp [boosted, hlt, hne]

end

/-- The next iteration takes the head of the next queue. -/
theorem Leveled.boostFrom_boosted (hl : s.Leveled) {i : Nat} (hi : i + 1 < mfqQueues) :
    (s.boosted i).boostFrom i = s.boosted (i + 1) := by
  unfold boostFrom
  rw [s.boosted_runQueue_gt (Nat.lt_succ_self i)]
  have hleft : s.left (i + 1) = (s.runQueue (i + 1)).tail := by simp [left]
  have htaken : s.taken (i + 1) = (s.runQueue (i + 1)).head?.toList := by simp [taken]
  cases hcase : s.runQueue (i + 1) with
  | nil =>
    rw [hcase] at hleft htaken
    have htcb : (s.boosted i).tcb = (s.boosted (i + 1)).tcb := by
      funext u
      simp [boosted, heads_succ (Nat.succ_pos i), hcase]
    have hqueue : (s.boosted i).runQueue = (s.boosted (i + 1)).runQueue := by
      funext q
      rcases lt_trichotomy q i with hq | rfl | hq
      · rw [s.boosted_runQueue_lt hq, s.boosted_runQueue_lt (Nat.lt_succ_of_lt hq)]
      · rw [s.boosted_runQueue_self, s.boosted_runQueue_lt (Nat.lt_succ_self q), htaken]
        simp
      · rw [s.boosted_runQueue_gt hq]
        rcases (Nat.succ_le_of_lt hq).eq_or_lt with rfl | hq'
        · rw [s.boosted_runQueue_self, hcase, hleft]
          rfl
        · rw [s.boosted_runQueue_gt hq']
    exact congrArg₂ (fun f g => { s with tcb := f, runQueue := g }) htcb hqueue
  | cons t rest =>
    rw [hcase] at hleft htaken
    have ht : t ∈ s.runQueue (i + 1) := by simp [hcase]
    have hnew : ¬ s.Heads (i + 1) t := by
      intro hheads
      have hlt := (hl.heads_priority (by omega) hheads).2.1
      rw [hl.priority (i + 1) hi t ht] at hlt
      omega
    have htcb : ((s.boosted i).modify t fun b => { b with priority := b.priority - 1 }).tcb =
        (s.boosted (i + 1)).tcb := by
      funext u
      by_cases hu : u = t
      · subst hu
        simp [modify, boosted, heads_succ (Nat.succ_pos i), hcase, hnew]
      · simp [modify, boosted, heads_succ (Nat.succ_pos i), hcase, hu, Ne.symm hu]
    have hqueue : Function.update (Function.update (s.boosted i).runQueue (i + 1) rest) i
        (Function.update (s.boosted i).runQueue (i + 1) rest i ++ [t]) =
        (s.boosted (i + 1)).runQueue := by
      funext q
      rcases lt_trichotomy q i with hq | rfl | hq
      · rw [Function.update_of_ne hq.ne, Function.update_of_ne (by omega), s.boosted_runQueue_lt hq,
          s.boosted_runQueue_lt (Nat.lt_succ_of_lt hq)]
      · rw [Function.update_self, Function.update_of_ne (by omega), s.boosted_runQueue_self,
          s.boosted_runQueue_lt (Nat.lt_succ_self q), htaken]
        rfl
      · rw [Function.update_of_ne hq.ne']
        rcases (Nat.succ_le_of_lt hq).eq_or_lt with rfl | hq'
        · rw [Function.update_self, s.boosted_runQueue_self, hleft]
          rfl
        · rw [Function.update_of_ne hq'.ne', s.boosted_runQueue_gt hq, s.boosted_runQueue_gt hq']
    exact congrArg₂ (fun f g => { s with tcb := f, runQueue := g }) htcb hqueue

theorem Leveled.foldl_boostFrom (hl : s.Leveled) {i : Nat} (hi : i < mfqQueues) :
    (List.range i).foldl boostFrom s = s.boosted i := by
  induction i with
  | zero => exact (boosted_zero s).symm
  | succ i ih =>
    rw [List.range_succ, List.foldl_append, ih (by omega), List.foldl_cons, List.foldl_nil,
      hl.boostFrom_boosted hi]

/-- **The whole boost.** -/
theorem Leveled.schedBoost_eq (hl : s.Leveled) : s.schedBoost = s.boosted (mfqQueues - 1) :=
  hl.foldl_boostFrom (by decide)

/-! ## What it does -/

theorem Leveled.schedBoost_priority (hl : s.Leveled) (t : ThreadRef C) :
    (s.schedBoost.tcb t).priority =
      if s.Heads mfqQueues t then (s.tcb t).priority - 1 else (s.tcb t).priority := by
  have htcb : (s.boosted (mfqQueues - 1)).tcb t = if s.Heads mfqQueues t then
      { s.tcb t with priority := (s.tcb t).priority - 1 } else s.tcb t := rfl
  rw [hl.schedBoost_eq, htcb]
  split <;> rfl

/-- **Each queue** loses its head, and gets that of the queue below. -/
theorem Leveled.schedBoost_runQueue (hl : s.Leveled) {q : Nat} (hq : q < mfqQueues) :
    s.schedBoost.runQueue q =
      s.left q ++ if q + 1 < mfqQueues then s.taken (q + 1) else [] := by
  rw [hl.schedBoost_eq]
  by_cases hlast : q + 1 < mfqQueues
  · rw [s.boosted_runQueue_lt (by omega), if_pos hlast]
  · obtain rfl : q = mfqQueues - 1 := by omega
    rw [s.boosted_runQueue_self, if_neg hlast, List.append_nil]

omit [DecidableEq C] in
theorem mem_taken {q : Nat} {t : ThreadRef C} :
    t ∈ s.taken q ↔ 0 < q ∧ (s.runQueue q).head? = some t := by
  by_cases hq : q = 0
  · simp [taken, hq]
  · simp [taken, hq, Nat.pos_of_ne_zero hq]

omit [DecidableEq C] in
/-- What is left on a queue has not been taken from any. -/
theorem Leveled.mem_left (hl : s.Leveled) {q : Nat} (hq : q < mfqQueues) {t : ThreadRef C}
    (ht : t ∈ s.left q) : t ∈ s.runQueue q ∧ ¬ s.Heads mfqQueues t := by
  have hmem : t ∈ s.runQueue q := by
    rw [← taken_left]
    exact List.mem_append_right _ ht
  refine ⟨hmem, fun hheads => ?_⟩
  obtain ⟨hpos, -, hhead⟩ := hl.heads_priority le_rfl hheads
  rw [hl.priority q hq t hmem] at hpos hhead
  have hnd := hl.nodup q hq
  rw [← taken_left] at hnd
  exact List.disjoint_of_nodup_append hnd (mem_taken.mpr ⟨hpos, hhead⟩) ht

/-- A boost keeps the relation between queues and priorities. -/
theorem Leveled.boost (hl : s.Leveled) : s.schedBoost.Leveled := by
  have hdown : ∀ q, q + 1 < mfqQueues → ∀ t ∈ s.taken (q + 1),
      t ∈ s.runQueue (q + 1) ∧ s.Heads mfqQueues t := by
    intro q hq t ht
    obtain ⟨hpos, hhead⟩ := mem_taken.mp ht
    exact ⟨List.mem_of_mem_head? hhead, q + 1, hq, hpos, hhead⟩
  constructor
  case nodup =>
    intro q hq
    rw [hl.schedBoost_runQueue hq]
    have hleft : (s.left q).Nodup := by
      have hnd := hl.nodup q hq
      rw [← taken_left] at hnd
      exact hnd.of_append_right
    split
    case isFalse => rwa [List.append_nil]
    case isTrue hlast =>
      have htaken : (s.taken (q + 1)).Nodup := by
        have hnd := hl.nodup (q + 1) hlast
        rw [← taken_left] at hnd
        exact hnd.of_append_left
      exact hleft.append htaken fun t ht ht' => (hl.mem_left hq ht).2 (hdown q hlast t ht').2
  case priority =>
    intro q hq t ht
    rw [hl.schedBoost_runQueue hq, List.mem_append] at ht
    rw [hl.schedBoost_priority]
    rcases ht with ht | ht
    · obtain ⟨hmem, hnot⟩ := hl.mem_left hq ht
      rw [if_neg hnot, hl.priority q hq t hmem]
    · split at ht
      · obtain ⟨hmem, hheads⟩ := hdown q ‹_› t ht
        rw [if_pos hheads, hl.priority (q + 1) ‹_› t hmem, Nat.add_sub_cancel]
      · exact absurd ht List.not_mem_nil

omit [DecidableEq C] in
/-- Each head that is taken from a queue is put where it was. -/
theorem flatMap_left_taken (s : Sched C) (k : Nat) :
    ((List.range k).flatMap fun q => s.left q ++ s.taken (q + 1)) =
      (List.range k).flatMap s.runQueue ++ s.taken k := by
  induction k with
  | zero => rfl
  | succ k ih =>
    rw [List.range_succ, List.flatMap_append, List.flatMap_append, ih, List.flatMap_singleton,
      List.flatMap_singleton, List.append_assoc, ← List.append_assoc (s.taken k), taken_left,
      List.append_assoc]

/-- **The queues one after the other** hold the same threads in the same order. -/
theorem Leveled.queuedThreads_schedBoost (hl : s.Leveled) :
    s.schedBoost.queuedThreads = s.queuedThreads := by
  have hrange : List.range mfqQueues = List.range (mfqQueues - 1) ++ [mfqQueues - 1] := by decide
  have hfirst : (List.range (mfqQueues - 1)).flatMap s.schedBoost.runQueue =
      (List.range (mfqQueues - 1)).flatMap fun q => s.left q ++ s.taken (q + 1) := by
    refine List.flatMap_congr fun q hq => ?_
    rw [hl.schedBoost_eq, s.boosted_runQueue_lt (List.mem_range.mp hq)]
  have hlast : s.schedBoost.runQueue (mfqQueues - 1) = s.left (mfqQueues - 1) := by
    rw [hl.schedBoost_eq, s.boosted_runQueue_self]
  rw [queuedThreads, queuedThreads, hrange, List.flatMap_append, List.flatMap_append,
    List.flatMap_singleton, List.flatMap_singleton, hfirst, hlast, flatMap_left_taken,
    List.append_assoc, taken_left]

/-- The threads that are not moved keep their order. -/
theorem Leveled.filter_schedBoost (hl : s.Leveled) {q : Nat} (hq : q < mfqQueues) :
    ((s.schedBoost.runQueue q).filter fun t => ¬ s.Heads mfqQueues t) =
      (s.runQueue q).filter fun t => ¬ s.Heads mfqQueues t := by
  have htaken : ∀ k, k < mfqQueues → ((s.taken k).filter fun t => ¬ s.Heads mfqQueues t) = [] := by
    intro k hk
    refine List.filter_eq_nil_iff.mpr fun t ht => ?_
    obtain ⟨hpos, hhead⟩ := mem_taken.mp ht
    have hheads : s.Heads mfqQueues t := ⟨k, hk, hpos, hhead⟩
    simp [hheads]
  rw [hl.schedBoost_runQueue hq, ← taken_left s q, List.filter_append, List.filter_append,
    htaken q hq, List.nil_append]
  split
  · rw [htaken _ ‹_›, List.append_nil]
  · rw [List.filter_nil, List.append_nil]

/-! ## Boost after boost -/

omit [DecidableEq C] in
theorem mem_queuedThreads {t : ThreadRef C} :
    t ∈ s.queuedThreads ↔ ∃ q < mfqQueues, t ∈ s.runQueue q := by
  simp [queuedThreads]

omit [DecidableEq C] in
/-- Below queue 0 there is a thread if and only if the sum is positive. -/
theorem Leveled.level_pos_iff (hl : s.Leveled) :
    0 < s.level ↔ ∃ q < mfqQueues, 0 < q ∧ s.runQueue q ≠ [] := by
  have hzero : s.level = 0 ↔ ∀ t ∈ s.queuedThreads, (s.tcb t).priority = 0 := by
    rw [level, List.sum_eq_zero_iff]
    simp
  constructor
  · intro hpos
    by_contra hno
    refine hpos.ne' (hzero.mpr fun t ht => ?_)
    obtain ⟨q, hq, hmem⟩ := mem_queuedThreads.mp ht
    rw [hl.priority q hq t hmem]
    by_contra hq0
    exact hno ⟨q, hq, Nat.pos_of_ne_zero hq0, List.ne_nil_of_mem hmem⟩
  · rintro ⟨q, hq, hpos, hne⟩
    obtain ⟨t, ht⟩ := List.exists_mem_of_ne_nil _ hne
    refine Nat.pos_of_ne_zero fun hlevel => hpos.ne' ?_
    rw [← hl.priority q hq t ht]
    exact hzero.mp hlevel t (mem_queuedThreads.mpr ⟨q, hq, ht⟩)

/-- A boost raises no number of a priority. -/
theorem Leveled.schedBoost_priority_le (hl : s.Leveled) (t : ThreadRef C) :
    (s.schedBoost.tcb t).priority ≤ (s.tcb t).priority := by
  rw [hl.schedBoost_priority]
  split
  · exact Nat.sub_le _ 1
  · exact le_rfl

theorem Leveled.level_schedBoost_le (hl : s.Leveled) : s.schedBoost.level ≤ s.level := by
  rw [level, level, hl.queuedThreads_schedBoost]
  exact List.sum_le_sum fun t _ => hl.schedBoost_priority_le t

/-- **Every boost lowers the sum of the priorities**, unless it is 0. -/
theorem Leveled.level_schedBoost_lt (hl : s.Leveled) (hpos : 0 < s.level) :
    s.schedBoost.level < s.level := by
  obtain ⟨q, hq, hq0, hne⟩ := hl.level_pos_iff.mp hpos
  obtain ⟨t, ht⟩ : ∃ t, (s.runQueue q).head? = some t :=
    Option.isSome_iff_exists.mp (List.isSome_head?.mpr hne)
  have hmem : t ∈ s.runQueue q := List.mem_of_mem_head? ht
  have hheads : s.Heads mfqQueues t := ⟨q, hq, hq0, ht⟩
  have hlower : (s.schedBoost.tcb t).priority < (s.tcb t).priority := by
    rw [hl.schedBoost_priority, if_pos hheads, hl.priority q hq t hmem]
    exact Nat.sub_lt hq0 Nat.one_pos
  rw [level, level, hl.queuedThreads_schedBoost]
  exact List.sum_lt_sum _ _ (fun u _ => hl.schedBoost_priority_le u)
    ⟨t, mem_queuedThreads.mpr ⟨q, hq, hmem⟩, hlower⟩

/-- Repeated boosts. -/
theorem Leveled.iterate (hl : s.Leveled) {n : Nat} (hn : s.level ≤ n) :
    (schedBoost^[n] s).Leveled ∧ (schedBoost^[n] s).level = 0 ∧
      (schedBoost^[n] s).queuedThreads = s.queuedThreads := by
  induction n generalizing s with
  | zero => exact ⟨hl, Nat.le_zero.mp hn, rfl⟩
  | succ n ih =>
    have hlower : s.schedBoost.level ≤ n := by
      rcases Nat.eq_zero_or_pos s.level with hzero | hpos
      · have := hl.level_schedBoost_le
        omega
      · have := hl.level_schedBoost_lt hpos
        omega
    obtain ⟨hl', hlevel, hthreads⟩ := ih hl.boost hlower
    exact ⟨hl', hlevel, hthreads.trans hl.queuedThreads_schedBoost⟩

omit [DecidableEq C] in
/-- When all threads are on the first queue. -/
theorem Leveled.runQueue_zero (hl : s.Leveled) (hlevel : s.level = 0) :
    (∀ q, 0 < q → q < mfqQueues → s.runQueue q = []) ∧ s.runQueue 0 = s.queuedThreads := by
  have hempty : ∀ q, 0 < q → q < mfqQueues → s.runQueue q = [] := by
    intro q hpos hq
    by_contra hne
    exact (hl.level_pos_iff.mpr ⟨q, hq, hpos, hne⟩).ne' hlevel
  refine ⟨hempty, ?_⟩
  have hrange : List.range mfqQueues = 0 :: (List.range (mfqQueues - 1)).map (· + 1) := by decide
  have hrest : ((List.range (mfqQueues - 1)).map (· + 1)).flatMap s.runQueue = [] := by
    refine List.flatMap_eq_nil_iff.mpr fun q hq => ?_
    obtain ⟨i, hi, rfl⟩ := List.mem_map.mp hq
    have hi := List.mem_range.mp hi
    exact hempty (i + 1) (Nat.succ_pos i) (by omega)
  rw [queuedThreads, hrange, List.flatMap_cons, hrest, List.append_nil]

/-- **The law of `sched_boost`.** -/
theorem schedBoost_law (s : Sched C) (hl : s.Leveled) :
    s.schedBoost.Leveled ∧
      s.schedBoost.queuedThreads = s.queuedThreads ∧
      (∀ q < mfqQueues, s.schedBoost.runQueue q =
        s.left q ++ if q + 1 < mfqQueues then s.taken (q + 1) else []) ∧
      (∀ t, (s.schedBoost.tcb t).priority =
        if s.Heads mfqQueues t then (s.tcb t).priority - 1 else (s.tcb t).priority) ∧
      (∀ q < mfqQueues, ((s.schedBoost.runQueue q).filter fun t => ¬ s.Heads mfqQueues t) =
        (s.runQueue q).filter fun t => ¬ s.Heads mfqQueues t) ∧
      ∀ n, s.level ≤ n →
        (∀ q, 0 < q → q < mfqQueues → (Sched.schedBoost^[n] s).runQueue q = []) ∧
          (Sched.schedBoost^[n] s).runQueue 0 = s.queuedThreads := by
  refine ⟨hl.boost, hl.queuedThreads_schedBoost, fun q hq => hl.schedBoost_runQueue hq,
    hl.schedBoost_priority, fun q hq => hl.filter_schedBoost hq, fun n hn => ?_⟩
  obtain ⟨hl', hlevel, hthreads⟩ := hl.iterate hn
  obtain ⟨hempty, hfirst⟩ := hl'.runQueue_zero hlevel
  exact ⟨hempty, hfirst.trans hthreads⟩

/-- Two threads on queue 1, and one on queue 14. -/
def threeQueued : Sched Empty where
  tcb t :=
    { type := .normalThread, state := .ready, phase := .ctxClean
      priority := if t = .normal 2 then 14 else 1
      mutexContention := false, prevPriority := 0, wakeupTime := noTimeout, prev := .normal 0 }
  runQueue q :=
    if q = 1 then [.normal 0, .normal 1] else if q = 14 then [.normal 2] else []
  timeoutList := []
  currentThread c := .idle c
  coreAt _ := .running
  timeslices := 0
  spawned := 3
  released _ := 0

theorem schedBoost_law_three : threeQueued.schedBoost.runQueue 0 = [.normal 0] ∧
    threeQueued.schedBoost.runQueue 1 = [.normal 1] ∧
    threeQueued.schedBoost.runQueue 13 = [.normal 2] ∧
    (Sched.schedBoost^[16] threeQueued).runQueue 0 = [.normal 0, .normal 1, .normal 2] := by
  obtain ⟨-, -, hqueue, -, -, hrepeat⟩ := schedBoost_law threeQueued ⟨by decide, by decide⟩
  exact ⟨hqueue 0 (by decide), hqueue 1 (by decide), hqueue 13 (by decide),
    (hrepeat 16 (by decide)).2⟩

end Sched

end TinyOS
