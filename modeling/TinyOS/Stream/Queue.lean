import Mathlib
import TinyOS.Stream.Allotted
import TinyOS.Stream.Refcount

/-!
# The queue of a listener

The requests of a listener are taken in the order in which they came, each by one `Accept`, and
whoever goes on to take one finds one: **as long as no `Accept` overtakes one that was woken**
(`accepts_in_order`). `sys_Accept` sleeps under an `if`. A thread that was woken does not look again
whether there is a request, and a second `Accept` may have taken it in the meantime
(`not_accepts_in_order`).
-/

set_option autoImplicit false

namespace TinyOS

open Transition

namespace Sockets

/-- The threads that were woken in an `Accept` on the SCB `l` and have not gone on yet. -/
def wokenAt (n : Sockets) (l : Nat) : Finset Nat :=
  (Finset.range n.threads).filter fun u => n.pc u = .accepting l true

def woken (n : Sockets) (l : Nat) : Nat := (n.wokenAt l).card

/-- Nothing is queued at the SCB `k`, and nobody was woken to look. -/
def Calm (n : Sockets) (k : Nat) : Prop := (n.scb k).queue = [] ∧ n.woken k = 0

instance (n : Sockets) (k : Nat) : Decidable (n.Calm k) := inferInstanceAs (Decidable (_ ∧ _))

structure Queued (n : Sockets) : Prop where
  /-- There is a request for everyone that was woken, unless the listener was closed. -/
  woken : ∀ l, (n.scb l).refcount ≠ 0 → n.woken l ≤ (n.scb l).queue.length
  listener : ∀ l, (n.scb l).type = .listener → (n.scb l).reqQueue ≠ none

variable {n n' : Sockets} {k l j r u : Nat}

/-! ## Who was woken -/

theorem mem_wokenAt (h : n.Allotted) : u ∈ n.wokenAt l ↔ n.pc u = .accepting l true := by
  simp only [wokenAt, Finset.mem_filter, Finset.mem_range, and_iff_right_iff_imp]
  intro hu
  by_contra hlt
  have hborn := (h.born u).mpr (Nat.le_of_not_lt hlt)
  exact absurd (hu.symm.trans hborn) (by simp)

theorem woken_le (h : n.Allotted)
    (hpc : ∀ u, n'.pc u = .accepting l true → n.pc u = .accepting l true) :
    n'.woken l ≤ n.woken l := by
  refine Finset.card_le_card fun u hu => ?_
  rw [mem_wokenAt h]
  exact hpc u (Finset.mem_filter.mp hu).2

/-- One of them goes on. -/
theorem woken_lt (h : n.Allotted)
    (hpc : ∀ u, n'.pc u = .accepting l true → n.pc u = .accepting l true)
    (hu : n.pc u = .accepting l true) (hu' : n'.pc u ≠ .accepting l true) :
    n'.woken l < n.woken l := by
  refine Finset.card_lt_card ⟨fun v hv => ?_, fun hsub => ?_⟩
  · rw [mem_wokenAt h]
    exact hpc v (Finset.mem_filter.mp hv).2
  · exact hu' (Finset.mem_filter.mp (hsub ((mem_wokenAt h).mpr hu))).2

/-- One thread more was woken, at most. -/
theorem woken_le_succ (h : n.Allotted) (u : Nat)
    (hpc : ∀ v, v ≠ u → n'.pc v = .accepting l true → n.pc v = .accepting l true) :
    n'.woken l ≤ n.woken l + 1 := by
  have hsub : n'.wokenAt l ⊆ insert u (n.wokenAt l) := by
    intro v hv
    by_cases hvu : v = u
    · exact hvu ▸ Finset.mem_insert_self v _
    · exact Finset.mem_insert_of_mem ((mem_wokenAt h).mpr (hpc v hvu (Finset.mem_filter.mp hv).2))
  exact (Finset.card_le_card hsub).trans (Finset.card_insert_le _ _)

/-- Nobody waits at an SCB that was not made yet. -/
theorem woken_new (h : n.Allotted) : n.woken n.scbs = 0 := by
  refine Finset.card_eq_zero.mpr (Finset.eq_empty_of_forall_notMem fun u hu => ?_)
  have hpc := (mem_wokenAt h).mp hu
  have hlt := h.listener u n.scbs (by rw [hpc]; rfl)
  omega

theorem goto_woken {pc : SocketPc} (hpc : ∀ l, pc ≠ .accepting l true) {v : Nat}
    (hv : (n.goto u pc).pc v = .accepting l true) : v ≠ u ∧ n.pc v = .accepting l true := by
  simp only [Sockets.goto, Function.update_apply] at hv
  split at hv
  · exact absurd hv (hpc l)
  · exact ⟨‹_›, hv⟩

theorem wakeConnector_woken {pc : SocketPc} :
    pc.wakeConnector r = .accepting l true ↔ pc = .accepting l true := by
  cases pc with
  | connecting r' w => cases w <;> simp [SocketPc.wakeConnector]
  | _ => simp [SocketPc.wakeConnector]

theorem wakeAcceptor_woken {pc : SocketPc} (hkl : l ≠ k) :
    pc.wakeAcceptor k = .accepting l true ↔ pc = .accepting l true := by
  cases pc with
  | accepting l' ready =>
    simp only [SocketPc.wakeAcceptor, SocketPc.accepting.injEq, Bool.or_eq_true,
      decide_eq_true_eq]
    refine and_congr_right fun hl' => ?_
    rw [hl']
    exact or_iff_left hkl
  | _ => simp [SocketPc.wakeAcceptor]

/-! ## The invariant -/

/-- Nobody is woken, and no queue changes. -/
theorem Queued.keep (h : n.Queued) (ha : n.Allotted)
    (hpc : ∀ l u, n'.pc u = .accepting l true → n.pc u = .accepting l true)
    (hscb : ∀ l, (n'.scb l).type = (n.scb l).type ∧ (n'.scb l).reqQueue = (n.scb l).reqQueue)
    (hrefcount : ∀ l, (n'.scb l).refcount ≠ 0 → (n.scb l).refcount ≠ 0) : n'.Queued := by
  refine ⟨fun l hl => ?_, fun l hl => ?_⟩
  · rw [SCB.queue, (hscb l).2]
    exact (woken_le ha (hpc l)).trans (h.woken l (hrefcount l hl))
  · rw [(hscb l).2]
    exact h.listener l ((hscb l).1 ▸ hl)

theorem Queued.goto (h : n.Queued) (ha : n.Allotted) {pc : SocketPc}
    (hpc : ∀ l, pc ≠ .accepting l true) : (n.goto u pc).Queued :=
  h.keep ha (fun _ _ hu => (goto_woken hpc hu).2) (fun _ => ⟨rfl, rfl⟩) fun _ => id

theorem Queued.create (h : n.Queued) (ha : n.Allotted) (f : Nat) (port fid : Int) :
    (n.create f port fid).Queued := by
  have hblank := (ha.blank n.scbs (Nat.le_refl _)).1
  refine h.keep ha (fun _ _ => id) (fun l => ?_) (fun l hl => ?_)
  · simp only [Sockets.create, Function.update_apply]
    split
    · rename_i he
      rw [he, hblank]
      exact ⟨rfl, rfl⟩
    · exact ⟨rfl, rfl⟩
  · simp only [Sockets.create, Function.update_apply] at hl
    split at hl
    · exact absurd rfl hl
    · exact hl

theorem Queued.listen (h : n.Queued) (hk : n.Calm k) : (n.listen k).Queued := by
  refine ⟨fun l hl => ?_, fun l hl => ?_⟩ <;>
    simp only [Sockets.listen, Sockets.modifySCB, Function.update_apply] at hl ⊢
  · split
    · rename_i he
      rw [he]
      exact hk.2 ▸ Nat.zero_le _
    · rename_i he
      rw [if_neg he] at hl
      exact h.woken l hl
  · split
    · simp
    · rename_i he
      rw [if_neg he] at hl
      exact h.listener l hl

/-- A request of a calm socket is taken off a queue, by a thread that was woken or while there are
more requests than threads that were woken. -/
theorem Queued.popRequest (h : n.Queued) (ha : n.Allotted) {rs : List Nat}
    (hq : (n.scb l).reqQueue = some (r :: rs))
    (hturn : n.pc u = .accepting l true ∨ n.woken l < (n.scb l).queue.length)
    (hcalm : n.Calm (n.req r).socket) : ((n.goto u .busy).popRequest l r rs).Queued := by
  have hpc : ∀ i v, ((n.goto u .busy).popRequest l r rs).pc v = .accepting i true →
      n.pc v = .accepting i true := fun i v hv => (goto_woken (by simp) hv).2
  have hle := fun i => woken_le ha (hpc i)
  refine ⟨fun i hi => ?_, fun i hi => ?_⟩ <;> rw [popRequest_scb] at hi ⊢ <;>
    simp only [SCB.queue] at hi ⊢
  · by_cases hil : i = l
    · subst hil
      have hne : i ≠ (n.req r).socket := by
        rintro he
        have hempty := hcalm.1
        rw [← he, SCB.queue_eq hq] at hempty
        exact absurd hempty (by simp)
      change (if i = (n.req r).socket then (1 : Int) else (n.scb i).refcount) ≠ 0 at hi
      rw [if_neg hne] at hi
      rw [if_pos rfl, Option.getD_some]
      have hlen : (n.scb i).queue.length = rs.length + 1 := by rw [SCB.queue_eq hq]; rfl
      rcases hturn with hu | hlt
      · have hgone : ((n.goto u .busy).popRequest i r rs).pc u ≠ .accepting i true :=
          fun hu' => (goto_woken (by simp) hu').1 rfl
        have hless := woken_lt ha (hpc i) hu hgone
        have := h.woken i hi
        omega
      · have := hle i
        omega
    · rw [if_neg hil]
      change (if i = (n.req r).socket then (1 : Int) else (n.scb i).refcount) ≠ 0 at hi
      by_cases hij : i = (n.req r).socket
      · have hzero := hij ▸ hcalm.2
        have := hle i
        omega
      · rw [if_neg hij] at hi
        exact (hle i).trans (h.woken i hi)
  · split
    · simp
    · exact h.listener i hi

/-- Two SCBs at which nobody was woken become peers. -/
theorem Queued.connectPeers (h : n.Queued) (ha : n.Allotted) (hkj : k ≠ j)
    (hk : n.woken k = 0) (hj : n.woken j = 0) (m : Mallocs) : (n.connectPeers k j r m).Queued := by
  rw [connectPeers_eq n hkj]
  have hle : ∀ i, Sockets.woken { n with pc := fun u => (n.pc u).wakeConnector r } i ≤ n.woken i :=
    fun i => woken_le ha fun u hu => wakeConnector_woken.mp hu
  refine ⟨fun i hi => ?_, fun i hi => ?_⟩ <;> simp only [Function.update_apply] at hi ⊢
  · refine (hle i).trans ?_
    split
    · rename_i he
      rw [he, hj]
      exact Nat.zero_le _
    · rename_i hij
      rw [if_neg hij] at hi
      split
      · rename_i he
        rw [he, hk]
        exact Nat.zero_le _
      · rename_i hik
        rw [if_neg hik] at hi
        exact h.woken i hi
  · split at hi
    · exact absurd hi (by simp)
    · rename_i hij
      rw [if_neg hij]
      split at hi
      · exact absurd hi (by simp)
      · rename_i hik
        rw [if_neg hik]
        exact h.listener i hi

/-- A request wakes one thread at most, and that one waits at its listener. -/
theorem request_woken (n : Sockets) (u k l : Nat) : ∃ w, ∀ i v, (i ≠ l ∨ v ≠ w) →
    (n.request u k l).pc v = .accepting i true → n.pc v = .accepting i true := by
  unfold Sockets.request signalReqs Sockets.modifySCB
  simp only
  split
  · exact ⟨0, fun i v _ hv => (goto_woken (by simp) hv).2⟩
  · rename_i w us _
    refine ⟨w, fun i v hiv hv => ?_⟩
    have hv := (goto_woken (by simp) hv).2
    simp only [Sockets.goto, Function.update_apply] at hv
    split at hv
    · rename_i hvw
      rw [hvw] at hiv ⊢
      exact (wakeAcceptor_woken (hiv.resolve_right fun hne => hne rfl)).mp hv
    · exact hv

theorem Queued.makeRequest (h : n.Queued) (ha : n.Allotted) (hl : (n.scb l).type = .listener) :
    (n.request u k l).Queued := by
  obtain ⟨w, hw⟩ := n.request_woken u k l
  refine ⟨fun i hi => ?_, fun i hi => ?_⟩ <;> rw [request_scb] at hi ⊢ <;>
    simp only [SCB.queue] at hi ⊢
  · by_cases hil : i = l
    · subst hil
      obtain ⟨rs, hrs⟩ := Option.ne_none_iff_exists'.mp (h.listener i hl)
      have hle := woken_le_succ ha w fun v hv => hw i v (.inr hv)
      have hqueue := h.woken i hi
      rw [SCB.queue_eq hrs] at hqueue
      simp only [hrs, Option.map_some, if_true, Option.getD_some, List.length_append,
        List.length_singleton]
      omega
    · rw [if_neg hil]
      exact (woken_le ha fun v => hw i v (.inl hil)).trans (h.woken i hi)
  · split
    · rename_i he
      simpa [he] using h.listener l hl
    · exact h.listener i hi

theorem Queued.shuts (h : n.Queued) (ha : n.Allotted) (hs : Shuts n n') : n'.Queued := by
  refine h.keep ha (fun l u hu => ?_) (fun l => ?_) (fun l hl => ?_)
  · rw [hs.eq] at hu
    exact hu
  · rw [hs.scb l]
    exact ⟨rfl, rfl⟩
  · rw [hs.scb l] at hl
    exact hl

/-- Everyone at a listener that is closed is woken, and finds no reference to it. -/
theorem Queued.listenerClose (h : n.Queued) (ha : n.Allotted) :
    ((n.listenerClose k).freeSCB k).Queued := by
  have hwake : ∀ {i v}, i ≠ k → (n.pc v).wakeAcceptor k = .accepting i true →
      n.pc v = .accepting i true := fun hik hv => (wakeAcceptor_woken hik).mp hv
  have hq : ({ (n.modifySCB k fun b => { b with refcount := 0 }).broadcastReqs k with
      PortMap := ((n.listenerClose k).freeSCB k).PortMap
      freedSCB := ((n.listenerClose k).freeSCB k).freedSCB } : Sockets).Queued := by
    refine ⟨fun i hi => ?_, fun i hi => ?_⟩ <;>
      simp only [broadcastReqs, Sockets.modifySCB, Function.update_apply] at hi ⊢
    · by_cases hik : i = k
      · simp [hik] at hi
      · rw [if_neg hik] at hi ⊢
        exact (woken_le ha fun v => hwake hik).trans (h.woken i hi)
    · split at hi
      · rename_i he
        rw [if_pos he]
        exact h.listener k hi
      · rename_i hik
        rw [if_neg hik]
        exact h.listener i hi
  refine Eq.mp (congrArg Queued ?_) hq
  unfold Sockets.listenerClose
  simp only
  split <;> rfl

theorem Queued.close (h : n.Queued) (ha : n.Allotted) {target : Option Nat}
    (hc : n.close target k = some n') : n'.Queued := by
  unfold Sockets.close at hc
  split at hc
  · cases hc
    exact h.keep ha (fun _ _ => id) (fun _ => ⟨rfl, rfl⟩) fun _ => id
  · cases hc
    exact h.listenerClose ha
  · obtain ⟨n₁, hn₁, rfl⟩ := Option.map_eq_some_iff.mp hc
    unfold Sockets.peerClose at hn₁
    simp only at hn₁
    split at hn₁
    · exact absurd hn₁ (by simp)
    · cases hn₁
      rename_i j hj
      have hs := (shuts_shutDown n .both target).trans (shuts_modifySCB _ j
        (f := fun b => { b with receive := none }) (fun _ => rfl) (fun _ => .inl rfl)
        (fun _ => .inr rfl))
      exact (h.shuts ha hs).keep (ha.shuts hs) (fun _ _ => id) (fun _ => ⟨rfl, rfl⟩) fun _ => id

end Sockets

/-- The requests that were pushed to each listener, and those that were taken from it. -/
structure Requests where
  pushed : Nat → List Nat
  taken : Nat → List Nat

namespace Streams

variable {s s' : Streams} {a : StreamAction} {n : Sockets}

/-! ## Orderly calls -/

/-- An `Accept` that goes on was woken, or leaves a request for everyone that was; and the request
that it takes is of a calm socket. -/
def InTurn (s : Streams) (a : StreamAction) : Prop :=
  match s.pops a with
  | some (u, l, _) =>
    (s.pc u = .accepting l true ∨ s.sockets.woken l < (s.scb l).queue.length) ∧
      ∀ r ∈ (s.scb l).queue.head?, s.sockets.Calm (s.req r).socket
  | none => True

instance (s : Streams) (a : StreamAction) : Decidable (s.InTurn a) := by
  unfold InTurn
  split <;> infer_instance

/-- A `Listen` that passes the tests of `sys_Listen` is on a calm socket. -/
def ListensCalm (s : Streams) : StreamAction → Prop
  | .listen u sock => ∀ k ∈ denoted s.toFileTables (s.owner u) sock,
    (s.scb k).port ≠ 0 → s.PortMap (s.scb k).port = none → (s.scb k).refcount = 0 →
    s.sockets.Calm k
  | _ => True

instance (s : Streams) : (a : StreamAction) → Decidable (s.ListensCalm a)
  | .listen u sock => inferInstanceAs (Decidable (∀ k ∈ denoted s.toFileTables (s.owner u) sock,
      (s.scb k).port ≠ 0 → s.PortMap (s.scb k).port = none → (s.scb k).refcount = 0 →
      s.sockets.Calm k))
  | .openNull .. | .openTerminal .. | .pipe .. | .socket .. | .openInfo .. | .accept .. | .connect ..
  | .shutDown .. | .read .. | .write .. | .close .. | .dup2 .. | .exec .. | .createThread ..
  | .exit .. | .reap .. | .resume .. | .proceed .. | .rxReady | .timeout .. => .isTrue trivial

theorem Takes.queued (h : s.sockets.Queued) (ha : s.sockets.Allotted) (hc : s.InTurn a)
    {u l : Nat} {m : Mallocs} (hp : s.pops a = some (u, l, m))
    (hu : s.pc u = .running ∨ s.pc u = .accepting l true) (ht : s.Takes u l m n) : n.Queued := by
  obtain ⟨r, rs, hq, hcase⟩ := ht
  rw [InTurn, hp] at hc
  have hqueue : (s.scb l).queue = r :: rs := SCB.queue_eq hq
  obtain ⟨hturn, hcalm⟩ := hc
  have hcalm : s.sockets.Calm (s.sockets.req r).socket := hcalm r (by simp [hqueue])
  have hturn : s.sockets.pc u = .accepting l true ∨
      s.sockets.woken l < (s.sockets.scb l).queue.length :=
    hturn.imp_left fun hpc => by
      change (s.pc u).socketPc = _
      rw [hpc]
      rfl
  have hpop := h.popRequest ha hq hturn hcalm
  have hallot := (ha.goto_busy (pops_ne_unborn hu)).popRequest hq
  rcases hcase with ⟨-, rfl⟩ | ⟨-, f, fid, rfl⟩
  · exact hpop.keep hallot (fun _ _ hv => Sockets.wakeConnector_woken.mp hv)
      (fun _ => ⟨rfl, rfl⟩) fun _ => id
  · have hr : (s.req r).socket < s.scbs := ha.req r (ha.queue l r (SCB.mem_queue hq))
    have hwoken : ∀ i, ((((s.sockets.goto u .busy).popRequest l r rs).create f (s.scb l).port
        fid).woken i) ≤ s.sockets.woken i := fun i =>
      Sockets.woken_le ha fun v hv => (Sockets.goto_woken (by simp) hv).2
    refine (hpop.create hallot f _ fid).connectPeers (hallot.create f _ fid) (by omega) ?_ ?_ m
    · exact Nat.le_zero.mp ((Sockets.woken_new ha) ▸ hwoken s.scbs)
    · exact Nat.le_zero.mp (hcalm.2 ▸ hwoken (s.req r).socket)

theorem SocketStep.queued (h : s.sockets.Queued) (ha : s.sockets.Allotted) (hc : s.InTurn a)
    (hl : s.ListensCalm a) (hs : SocketStep s a n) : n.Queued := by
  cases hs with
  | quiet => exact h
  | forget fs => exact h.keep ha (fun _ _ => id) (fun _ => ⟨rfl, rfl⟩) fun _ => id
  | pipe fs => exact h.keep ha (fun _ _ => id) (fun _ => ⟨rfl, rfl⟩) fun _ => id
  | create f port fid _ => exact h.create ha f port fid
  | listen hlisten hk hport hfree hzero =>
    subst hlisten
    exact h.listen (hl _ hk hport hfree hzero)
  | @sleep u l =>
    have hasleep : ∀ i, SocketPc.accepting l false ≠ .accepting i true := by simp
    exact h.keep ha (fun _ _ hv => (Sockets.goto_woken hasleep hv).2)
      (fun _ => ⟨rfl, rfl⟩) fun _ => id
  | refuse hp hu hq hnone => exact Takes.queued h ha hc hp hu ⟨_, _, hq, .inl ⟨hnone, rfl⟩⟩
  | serve f fid hp hu hq hserve =>
    exact Takes.queued h ha hc hp hu ⟨_, _, hq, .inr ⟨hserve, f, fid, rfl⟩⟩
  | leave => exact h.goto ha (by simp)
  | request _ _ _ hlisten _ _ => exact h.makeRequest ha hlisten
  | @answer u r w _ _ =>
    have hgoto := h.goto ha (u := u) (by simp : ∀ i, SocketPc.busy ≠ .accepting i true)
    unfold Sockets.answer
    simp only
    split <;> exact ⟨hgoto.woken, hgoto.listener⟩
  | timeout => exact h.goto ha (by simp)
  | shut => exact h.shuts ha (Sockets.shuts_shutDown ..)
  | close _ _ _ _ hclose => exact h.close ha hclose
  | spawn =>
    exact h.keep ha
      (fun _ _ hv => (Sockets.goto_woken (by simp : ∀ i, SocketPc.busy ≠ .accepting i true) hv).2)
      (fun _ => ⟨rfl, rfl⟩) fun _ => id

/-! ## What happens to the queues -/

/-- An `Accept` takes the head of its listener's queue, and leaves the other queues alone. -/
theorem Takes.queue (ha : s.sockets.Allotted) (hc : s.InTurn a) {u l : Nat} {m : Mallocs}
    (hp : s.pops a = some (u, l, m)) (ht : s.Takes u l m n) : ∃ r rs, (s.scb l).queue = r :: rs ∧
      (∀ i, (n.scb i).queue = if i = l then rs else (s.scb i).queue) ∧ n.reqs = s.reqs := by
  obtain ⟨r, rs, hq, hcase⟩ := ht
  have hqueue : (s.scb l).queue = r :: rs := SCB.queue_eq hq
  rw [InTurn, hp] at hc
  have hcalm : (s.scb (s.req r).socket).queue = [] := (hc.2 r (by simp [hqueue])).1
  have hpop : ∀ i, (((s.sockets.goto u .busy).popRequest l r rs).scb i).queue =
      if i = l then rs else (s.scb i).queue := by
    intro i
    rw [Sockets.popRequest_scb, SCB.queue]
    simp only
    split <;> rfl
  refine ⟨r, rs, hqueue, ?_⟩
  rcases hcase with ⟨-, rfl⟩ | ⟨-, f, fid, rfl⟩
  · exact ⟨hpop, rfl⟩
  · have hr : (s.req r).socket < s.scbs := ha.req r (ha.queue l r (SCB.mem_queue hq))
    have hblank := (ha.blank s.scbs (Nat.le_refl _)).1
    have hl : l ≠ s.scbs := by
      rintro rfl
      exact absurd (hqueue.symm.trans (congrArg SCB.queue hblank)) (by simp [SCB.queue, SCB.blank])
    have hrl : (s.req r).socket ≠ l := by
      rintro he
      exact absurd (hqueue.symm.trans (he ▸ hcalm)) (by simp)
    rw [Sockets.connectPeers_eq _ (by omega)]
    refine ⟨fun i => ?_, rfl⟩
    rw [← hpop i]
    simp only [Function.update_apply]
    split
    · -- The client, whose queue is empty.
      rename_i he
      rw [hpop, he, if_neg hrl, hcalm]
      rfl
    · split
      · -- The new socket.
        rename_i he
        rw [hpop, he, if_neg hl.symm]
        simp only [Sockets.create, sockets, Sockets.popRequest, Sockets.modifySCB, Sockets.goto,
          Function.update_self]
        exact (congrArg SCB.queue hblank).symm
      · rename_i hne
        simp only [Sockets.create]
        rw [Function.update_of_ne (by exact hne)]

/-- A step in which no request is taken leaves the queues alone, or pushes a request. -/
theorem SocketStep.queue (ha : s.sockets.Allotted) (hl : s.ListensCalm a) (hp : s.pops a = none)
    (hs : SocketStep s a n) : ((∀ i, (n.scb i).queue = (s.scb i).queue) ∧ n.reqs = s.reqs) ∨
      ∃ u k l sock port malloc, a = .connect u sock port malloc ∧ s.PortMap port = some l ∧
        (s.scb l).type = .listener ∧ n = s.sockets.request u k l := by
  cases hs with
  | quiet | forget | pipe | sleep | leave | timeout | spawn => exact .inl ⟨fun _ => rfl, rfl⟩
  | create f port fid _ =>
    refine .inl ⟨fun i => ?_, rfl⟩
    have hblank := (ha.blank s.scbs (Nat.le_refl _)).1
    simp only [Sockets.create, Function.update_apply]
    split
    · rename_i he
      rw [he]
      exact (congrArg SCB.queue hblank).symm
    · rfl
  | @listen u k sock hlisten hk hport hfree hzero =>
    subst hlisten
    refine .inl ⟨fun i => ?_, rfl⟩
    simp only [Sockets.listen, Sockets.modifySCB, Function.update_apply]
    split
    · rename_i he
      rw [he]
      exact (hl k hk hport hfree hzero).1.symm
    · rfl
  | refuse hpops => exact absurd (hp.symm.trans hpops) (by simp)
  | serve f fid hpops => exact absurd (hp.symm.trans hpops) (by simp)
  | @request u k l sock port malloc hconnect _ hport htype _ _ =>
    exact .inr ⟨u, k, l, sock, port, malloc, hconnect, hport, htype, rfl⟩
  | answer =>
    unfold Sockets.answer
    simp only
    split <;> exact .inl ⟨fun _ => rfl, rfl⟩
  | @shut u sock how =>
    have hshuts := Sockets.shuts_shutDown s.sockets how
      (denoted s.toFileTables (s.owner u) sock)
    refine .inl ⟨fun i => ?_, by rw [hshuts.eq]; rfl⟩
    rw [hshuts.scb]
    rfl
  | close _ _ _ _ hclose =>
    refine .inl ⟨fun i => ?_, by rw [Sockets.close_eq hclose]; rfl⟩
    rw [Sockets.close_scb hclose]
    rfl

/-! ## The history -/

/-- The listener to which a `Connect` that leads to `s'` has pushed its request. -/
def pushes (s : Streams) (a : StreamAction) (s' : Streams) : Option Nat :=
  match a with
  | .connect _ _ port _ => if s.reqs < s'.reqs then s.PortMap port else none
  | _ => none

def note (s : Streams) (a : StreamAction) (s' : Streams) (h : Requests) : Requests where
  pushed l := if s.pushes a s' = some l then h.pushed l ++ [s.reqs] else h.pushed l
  taken l :=
    match s.pops a with
    | some (_, l', _) => if l' = l then h.taken l ++ (s.scb l).queue.head?.toList else h.taken l
    | none => h.taken l

/-- Each listener's requests were taken in the order in which they were pushed, and none is pushed
twice: so none is taken twice. -/
structure InOrder (s : Streams) (h : Requests) : Prop where
  order : ∀ l, h.pushed l = h.taken l ++ (s.scb l).queue
  once : ∀ l, (h.pushed l).Nodup
  apart : ∀ l l' r, r ∈ h.pushed l → r ∈ h.pushed l' → l' = l
  made : ∀ l, ∀ r ∈ h.pushed l, r < s.reqs

/-- Nothing is pushed if no request was made. -/
theorem pushes_eq_none (h : s'.reqs = s.reqs) : s.pushes a s' = none := by
  unfold pushes
  split
  · rw [if_neg (by omega)]
  · rfl

/-- No request is pushed. -/
theorem InOrder.keep {h h' : Requests} (hi : s.InOrder h) (hpushed : h'.pushed = h.pushed)
    (hreqs : s'.reqs = s.reqs) (horder : ∀ l, h.pushed l = h'.taken l ++ (s'.scb l).queue) :
    s'.InOrder h' := by
  constructor <;> rw [hpushed]
  case order => exact horder
  case once => exact hi.once
  case apart => exact hi.apart
  case made => exact fun l r hr => hreqs ▸ hi.made l r hr

theorem InOrder.step {h : Requests} (hi : s.InOrder h) (hq : s.sockets.Queued)
    (ha : s.sockets.Allotted) (hc : s.InTurn a) (hl : s.ListensCalm a)
    (hs : s.perform a = some s') : s'.InOrder (s.note a s' h) := by
  cases hp : s.pops a with
  | some t =>
    obtain ⟨u, l, m⟩ := t
    obtain ⟨r, rs, hqueue, hqueues, hreqs⟩ := (takes_of_pops hp hs).2.queue ha hc hp
    have hpushed : (s.note a s' h).pushed = h.pushed := by
      simp only [note, pushes_eq_none (a := a) hreqs, if_neg (Option.some_ne_none _).symm]
    refine hi.keep hpushed hreqs fun i => ?_
    have hi' : (s'.scb i).queue = if i = l then rs else (s.scb i).queue := hqueues i
    rw [hi.order i, hi']
    simp only [note, hp]
    by_cases hil : i = l
    · subst hil
      simp [hqueue]
    · rw [if_neg (Ne.symm hil), if_neg hil]
  | none =>
    have htaken : (s.note a s' h).taken = h.taken := by simp only [note, hp]
    rcases (socketStep hs).queue ha hl hp with
      ⟨hqueues, hreqs⟩ | ⟨u, k, l, sock, port, malloc, rfl, hport, htype, hn⟩
    · have hpushed : (s.note a s' h).pushed = h.pushed := by
        simp only [note, pushes_eq_none (a := a) hreqs, if_neg (Option.some_ne_none _).symm]
      refine hi.keep hpushed hreqs fun i => ?_
      have hi' : (s'.scb i).queue = (s.scb i).queue := hqueues i
      rw [htaken, hi', hi.order i]
    · -- The new request has a number that nothing else has.
      have hreqs : s'.reqs = s.reqs + 1 := by
        change s'.sockets.reqs = _
        rw [hn, Sockets.request_eq]
        rfl
      have hpushes : s.pushes (.connect u sock port malloc) s' = some l := by
        simp only [pushes, hreqs, Nat.lt_succ_self, if_true, hport]
      have hpushed : ∀ i, (s.note (.connect u sock port malloc) s' h).pushed i =
          if l = i then h.pushed i ++ [s.reqs] else h.pushed i := fun i => by
        simp only [note, hpushes, Option.some.injEq]
      obtain ⟨rs, hrs⟩ := Option.ne_none_iff_exists'.mp (hq.listener l htype)
      refine ⟨fun i => ?_, fun i => ?_, fun i i' r hr hr' => ?_, fun i r hr => ?_⟩
      · have hi' : (s'.scb i).queue = if i = l then rs ++ [s.reqs] else (s.scb i).queue := by
          change (s'.sockets.scb i).queue = _
          rw [hn, Sockets.request_scb, SCB.queue]
          simp only [hrs]
          split <;> rfl
        rw [hpushed, htaken, hi', hi.order i]
        by_cases hil : i = l
        · subst hil
          have hqueue : (s.scb i).queue = rs := SCB.queue_eq hrs
          simp [hqueue]
        · rw [if_neg (Ne.symm hil), if_neg hil]
      · rw [hpushed]
        split
        · refine List.nodup_append.mpr ⟨hi.once i, List.nodup_singleton _, fun r hr r' hr' => ?_⟩
          have := hi.made i r hr
          have := List.mem_singleton.mp hr'
          omega
        · exact hi.once i
      · have hold : ∀ {i}, r ∈ (s.note (.connect u sock port malloc) s' h).pushed i →
            r ∈ h.pushed i ∨ r = s.reqs ∧ l = i := by
          intro i hr
          rw [hpushed] at hr
          split at hr
          · rename_i hli
            simp only [List.mem_append, List.mem_singleton] at hr
            exact hr.imp_right fun he => ⟨he, hli⟩
          · exact .inl hr
        rcases hold hr with hr | ⟨hr, rfl⟩ <;> rcases hold hr' with hr' | ⟨hr', rfl⟩
        · exact hi.apart i i' r hr hr'
        · have := hi.made i r hr
          omega
        · have := hi.made i' r hr'
          omega
        · rfl
      · rw [hpushed] at hr
        rw [hreqs]
        split at hr
        · simp only [List.mem_append, List.mem_singleton] at hr
          rcases hr with hr | hr
          · exact Nat.lt_succ_of_lt (hi.made i r hr)
          · omega
        · exact Nat.lt_succ_of_lt (hi.made i r hr)

/-- Whoever goes on to pop a request finds one. -/
theorem pops_nonempty (h : s.sockets.Queued) (ha : s.sockets.Allotted) {u l : Nat} {m : Mallocs}
    (hp : s.pops a = some (u, l, m)) : (s.scb l).queue ≠ [] := by
  cases a with
  | accept v lsock m' =>
    simp only [pops] at hp
    split at hp
    · rename_i l' _
      obtain ⟨⟨htype, -, hne⟩, hp⟩ := Option.ite_none_right_eq_some.mp hp
      cases hp
      obtain ⟨rs, hrs⟩ := Option.ne_none_iff_exists'.mp (h.listener l htype)
      have hrs : (s.scb l).reqQueue = some rs := hrs
      rw [SCB.queue_eq hrs]
      rintro rfl
      exact hne hrs
    · exact absurd hp (by simp)
  | resume v data m' =>
    simp only [pops] at hp
    split at hp
    · rename_i l' hv
      obtain ⟨hone, hp⟩ := Option.ite_none_left_eq_some.mp hp
      cases hp
      have hwoken : u ∈ s.sockets.wokenAt l := by
        rw [Sockets.mem_wokenAt ha]
        exact congrArg StreamPc.socketPc hv
      have hpos : 0 < s.sockets.woken l := Finset.card_pos.mpr ⟨u, hwoken⟩
      have hle : s.sockets.woken l ≤ (s.scb l).queue.length := h.woken l hone
      exact List.ne_nil_of_length_pos (Nat.lt_of_lt_of_le hpos hle)
    · exact absurd hp (by simp)
  | _ => exact absurd hp (by simp [pops])

/-- The calls of `Accept` and `Listen` are orderly. A listener may be closed meanwhile, also under an
`Accept` that sleeps; its SCB is then taken to keep its refcount of 0 until that `Accept` has looked at
it, as in `Stream/Basic.lean`. -/
def Orderly (s : Streams) (a : StreamAction) : Prop := s.InTurn a ∧ s.ListensCalm a

instance (s : Streams) (a : StreamAction) : Decidable (s.Orderly a) :=
  inferInstanceAs (Decidable (_ ∧ _))

/-- The streams with the history of the requests. -/
abbrev recorded : Sys (Streams × Requests) StreamAction :=
  streamSys.record { pushed := fun _ => [], taken := fun _ => [] } note

theorem queued (hr : streamSys.ReachIf Orderly s) : s.sockets.Queued := by
  induction hr with
  | init hi =>
    obtain ⟨serialPorts, rfl⟩ := hi
    constructor <;> simp [sockets, Streams.initial]
  | step hr hc hs ih => exact (socketStep hs).queued ih (allotted hr) hc.1 hc.2

theorem in_order {x : Streams × Requests} (hr : recorded.ReachIf (fun x a => x.1.Orderly a) x) :
    x.1.InOrder x.2 := by
  induction hr with
  | init hi =>
    obtain ⟨⟨serialPorts, hx⟩, hh⟩ := hi
    rw [hx, hh]
    constructor <;> simp [Streams.initial, SCB.queue]
  | step hr hc hs ih =>
    obtain ⟨s', hs', rfl⟩ := Option.map_eq_some_iff.mp hs
    have hr := hr.of_record
    exact ih.step (queued hr) (allotted hr) hc.1 hc.2 hs'

end Streams

/-- **Requests are taken in order, each once, and no `Accept` goes on in vain**, in every run whose
calls of `Accept` and `Listen` are orderly. -/
theorem accepts_in_order (x : Streams × Requests)
    (hr : Streams.recorded.ReachIf (fun x a => x.1.Orderly a) x) :
    x.1.InOrder x.2 ∧ ∀ a u l m, x.1.pops a = some (u, l, m) → (x.1.scb l).queue ≠ [] :=
  ⟨Streams.in_order hr, fun _ _ _ _ hp =>
    Streams.pops_nonempty (Streams.queued hr.of_record) (Streams.allotted hr.of_record) hp⟩

/-- Two `Accept`s sleep, two requests come, and the `Accept` that was woken last goes on first. -/
theorem accepts_in_order_run : ∃ x : Streams × Requests, x.1.InOrder x.2 ∧
    x.2.pushed 0 = [0, 1] ∧ x.2.taken 0 = [0] ∧ x.1.pc 1 = .accepting 0 true := by
  obtain ⟨x, hr, hp⟩ := Sys.reachIf_of_exec (M := Streams.recorded)
    (C := fun x a => x.1.Orderly a) (fun x a => decide (x.1.Orderly a))
    (Streams.initial 0, { pushed := fun _ => [], taken := fun _ => [] })
    [.socket 0 7 true, .listen 0 0, .socket 0 0 true, .socket 0 0 true, .createThread 0,
      .createThread 0, .createThread 0, .accept 1 0 ⟨true, true, true⟩,
      .accept 2 0 ⟨true, true, true⟩, .connect 0 1 7 true, .connect 3 2 7 true,
      .resume 2 false ⟨true, true, true⟩]
    (fun x => decide (x.2.pushed 0 = [0, 1] ∧ x.2.taken 0 = [0] ∧ x.1.pc 1 = .accepting 0 true))
    (fun s a h => of_decide_eq_true h) ⟨⟨0, rfl⟩, rfl⟩ (by decide)
  exact ⟨x, (accepts_in_order x hr).1, of_decide_eq_true hp⟩

/-- A request wakes a sleeping `Accept`, and a second `Accept` is faster. -/
theorem not_accepts_in_order : ¬ ∀ s, streamSys.ReachIf (fun s a => s.Alive a) s →
    ∀ a u l m, s.pops a = some (u, l, m) → (s.scb l).queue ≠ [] := by
  intro hall
  obtain ⟨s, hr, hp⟩ := Sys.reachIf_of_exec (M := streamSys) (C := fun s a => s.Alive a)
    (fun s a => decide (s.Alive a)) (Streams.initial 0)
    [.socket 0 7 true, .listen 0 0, .socket 0 0 true, .createThread 0, .createThread 0,
      .accept 1 0 ⟨true, true, true⟩, .connect 2 1 7 true, .accept 0 0 ⟨true, true, true⟩]
    (fun s => decide (s.pops (.resume 1 false ⟨true, true, true⟩) =
      some (1, 0, ⟨true, true, true⟩) ∧ (s.scb 0).queue = []))
    (fun s a h => of_decide_eq_true h) ⟨0, rfl⟩ (by decide)
  obtain ⟨hpops, hqueue⟩ := of_decide_eq_true hp
  exact hall s hr _ _ _ _ hpops hqueue

end TinyOS
