import Mathlib
import TinyOS.Stream.Agreement
import TinyOS.Stream.Holding
import TinyOS.Stream.Ports

/-!
# No freed socket is touched

SCBs point at each other: a peer at its peer, a request in a queue at its client, a thread asleep in
`Accept` at its listener. `socket_close` frees the SCB of the last reference and looks at none of
these. **Where it is called on sockets only that nothing else points at, no SCB is used after it was
freed** (`scbs_live`). A listener that is closed while a thread sleeps in `Accept` is read by this
thread afterwards (`not_scbs_live`).

The invariant (`Linked`) says that what is pointed at is live. What fids denote is live by
`Named.denoted_live`, and what `PortMap` holds by `Ported.entry`.
-/

set_option autoImplicit false

namespace TinyOS

open Transition

namespace Sockets

structure Linked (n : Sockets) : Prop where
  peer : ∀ k j, n.freedSCB k = 0 → (n.scb k).type = .peer → (n.scb k).peer = some j →
    n.freedSCB j = 0
  request : ∀ l, n.freedSCB l = 0 → ∀ r ∈ (n.scb l).queue, n.freedSCB (n.req r).socket = 0
  pending : ∀ u r, (n.pc u).connection = some (r, .asleep) →
    ∃ l, n.freedSCB l = 0 ∧ (n.scb l).type = .listener ∧ r ∈ (n.scb l).queue
  accept : ∀ u l, (n.pc u).listener = some l → n.freedSCB l = 0
  queue : ∀ l, (n.scb l).type = .listener → (n.scb l).reqQueue ≠ none

/-- Nothing points at `k` that would be left if it were freed. -/
structure Unlinked (n : Sockets) (k : Nat) : Prop where
  peer : ∀ j, n.freedSCB j = 0 → (n.scb j).type = .peer → (n.scb j).peer ≠ some k
  request : ∀ l, n.freedSCB l = 0 → ∀ r ∈ (n.scb l).queue, (n.req r).socket ≠ k
  pending : ∀ u r, (n.pc u).connection = some (r, .asleep) → r ∉ (n.scb k).queue
  accept : ∀ u, (n.pc u).listener ≠ some k

variable {n n' : Sockets} {i k l r u : Nat}

/-- No pointer changes, and threads leave `Accept` and `Connect`, if anything. -/
theorem Linked.keep (h : n.Linked) (hfreed : n'.freedSCB = n.freedSCB) (hreq : n'.req = n.req)
    (hscb : ∀ k, (n'.scb k).type = (n.scb k).type ∧ (n'.scb k).peer = (n.scb k).peer ∧
      (n'.scb k).reqQueue = (n.scb k).reqQueue)
    (hpc : ∀ u r, (n'.pc u).connection = some (r, .asleep) →
      (n.pc u).connection = some (r, .asleep))
    (hlistener : ∀ u l, (n'.pc u).listener = some l → (n.pc u).listener = some l) :
    n'.Linked := by
  have htype := fun k => (hscb k).1
  have hpeer := fun k => (hscb k).2.1
  have hqueue : ∀ k, (n'.scb k).queue = (n.scb k).queue := fun k => by
    rw [SCB.queue, SCB.queue, (hscb k).2.2]
  constructor <;> simp only [hfreed, hreq, htype, hpeer, hqueue]
  case peer => exact h.peer
  case request => exact h.request
  case pending => exact fun u r hu => h.pending u r (hpc u r hu)
  case accept => exact fun u l hu => h.accept u l (hlistener u l hu)
  case queue =>
    intro l hl
    rw [(hscb l).2.2]
    exact h.queue l hl

theorem Linked.goto (h : n.Linked) {pc : SocketPc}
    (hpc : ∀ r, pc.connection = some (r, .asleep) → (n.pc u).connection = some (r, .asleep))
    (hlistener : ∀ l, pc.listener = some l → (n.pc u).listener = some l) :
    (n.goto u pc).Linked := by
  refine h.keep rfl rfl (fun _ => ⟨rfl, rfl, rfl⟩) (fun v r hv => ?_) fun v l hv => ?_ <;>
    simp only [Sockets.goto, Function.update_apply] at hv <;> split at hv
  · rename_i he
    exact he ▸ hpc r hv
  · exact hv
  · rename_i he
    exact he ▸ hlistener l hv
  · exact hv

theorem Linked.create (h : n.Linked) (ha : n.Allotted) (f : Nat) (port fid : Int) :
    (n.create f port fid).Linked := by
  refine h.keep rfl rfl (fun k => ?_) (fun _ _ => id) fun _ _ => id
  simp only [Sockets.create, Function.update_apply]
  split
  · rename_i he
    rw [he, (ha.blank n.scbs (Nat.le_refl _)).1]
    exact ⟨rfl, rfl, rfl⟩
  · exact ⟨rfl, rfl, rfl⟩

/-- An UNBOUND socket becomes a listener. -/
theorem Linked.listen (h : n.Linked) (hk : (n.scb k).type = .unbound) : (n.listen k).Linked := by
  have hother : ∀ l, l ≠ k → (n.listen k).scb l = n.scb l := fun l hl => by
    simp only [Sockets.listen, Sockets.modifySCB, Function.update_of_ne hl]
  have hself : (n.listen k).scb k = { n.scb k with
      reqQueue := some [], peer := none, send := none, receive := none
      refcount := (n.scb k).refcount + 1, type := .listener } := by
    simp only [Sockets.listen, Sockets.modifySCB, Function.update_self]
  constructor
  case peer =>
    intro i j hi htype hpeer
    by_cases hik : i = k
    · rw [hik, hself] at hpeer
      exact absurd hpeer (by simp)
    · rw [hother i hik] at htype hpeer
      exact h.peer i j hi htype hpeer
  case request =>
    intro l hl r hr
    by_cases hlk : l = k
    · rw [hlk, hself] at hr
      exact absurd hr List.not_mem_nil
    · rw [hother l hlk] at hr
      exact h.request l hl r hr
  case pending =>
    intro u r hu
    obtain ⟨l, hl, htype, hr⟩ := h.pending u r hu
    have hlk : l ≠ k := by
      rintro rfl
      simp [hk] at htype
    exact ⟨l, hl, by rw [hother l hlk, htype], by rwa [hother l hlk]⟩
  case accept => exact h.accept
  case queue =>
    intro l hl
    by_cases hlk : l = k
    · rw [hlk, hself]
      simp
    · rw [hother l hlk] at hl ⊢
      exact h.queue l hl

/-- A thread goes to sleep in `Accept`. -/
theorem Linked.sleep (h : n.Linked) (hl : n.freedSCB l = 0) : (n.sleep u l).Linked := by
  constructor
  case peer => exact h.peer
  case request => exact h.request
  case pending =>
    intro v r hv
    refine h.pending v r ?_
    simp only [Sockets.sleep, Sockets.goto, Function.update_apply] at hv
    split at hv
    · exact absurd hv (by simp [SocketPc.connection])
    · exact hv
  case accept =>
    intro v i hv
    simp only [Sockets.sleep, Sockets.goto, Function.update_apply] at hv
    split at hv
    · exact Option.some.inj hv ▸ hl
    · exact h.accept v i hv
  case queue => exact h.queue

/-- One that is still asleep waits for another request. -/
theorem asleep_of_wakeConnector {pc : SocketPc}
    (h : (pc.wakeConnector r).connection = some (i, .asleep)) :
    pc.connection = some (i, .asleep) ∧ i ≠ r := by
  obtain ⟨w, hw, hor, hwoken⟩ := SocketPc.of_connection_wakeConnector h
  obtain rfl := hor.resolve_right fun hs => absurd hs.1 (by simp)
  exact ⟨hw, fun hi => absurd (hwoken hi rfl) (by simp)⟩

/-- The request that is taken off the queue of `l` was not that of a thread that is still asleep. -/
theorem mem_rest {rs : List Nat} (hq : (n.scb l).reqQueue = some (r :: rs)) (hi : i ≠ r)
    (hmem : i ∈ (n.scb l).queue) : i ∈ rs := by
  rw [SCB.queue_eq hq] at hmem
  exact (List.mem_cons.mp hmem).resolve_left hi

/-- A request is taken off, and its `Connect` is told that there is no fid. -/
theorem Linked.refuse (h : n.Linked) {rs : List Nat} (hq : (n.scb l).reqQueue = some (r :: rs)) :
    ((n.popRequest l r rs).signalConn r).Linked := by
  have hscb := fun k => n.popRequest_scb l r k rs
  have hqueue : ∀ k, ((n.popRequest l r rs).scb k).queue =
      if k = l then rs else (n.scb k).queue := by
    intro k
    rw [SCB.queue, hscb]
    simp only
    split <;> rfl
  have hsub : ∀ k, ((n.popRequest l r rs).scb k).queue ⊆ (n.scb k).queue := by
    intro k
    rw [hqueue]
    split
    · rename_i hk
      rw [hk, SCB.queue_eq hq]
      exact List.subset_cons_self r rs
    · exact List.Subset.refl _
  constructor
  case peer =>
    intro i j hi htype hpeer
    change ((n.popRequest l r rs).scb i).type = _ at htype
    change ((n.popRequest l r rs).scb i).peer = _ at hpeer
    rw [hscb] at htype hpeer
    exact h.peer i j hi htype hpeer
  case request => exact fun i hi j hj => h.request i hi j (hsub i hj)
  case pending =>
    -- Who still sleeps made another request, which is still queued.
    intro v i hv
    obtain ⟨hv, hir⟩ := asleep_of_wakeConnector hv
    obtain ⟨j, hj, htype, hmem⟩ := h.pending v i hv
    refine ⟨j, hj, ?_, ?_⟩
    · change ((n.popRequest l r rs).scb j).type = _
      rw [hscb]
      exact htype
    · change i ∈ ((n.popRequest l r rs).scb j).queue
      rw [hqueue]
      split
      · rename_i hjl
        exact mem_rest hq hir (hjl ▸ hmem)
      · exact hmem
  case accept =>
    intro v i hv
    change ((n.pc v).wakeConnector r).listener = some i at hv
    rw [SocketPc.listener_wakeConnector] at hv
    exact h.accept v i hv
  case queue =>
    intro j hj
    change ((n.popRequest l r rs).scb j).type = _ at hj
    change ((n.popRequest l r rs).scb j).reqQueue ≠ none
    rw [hscb] at hj ⊢
    simp only
    split
    · simp
    · exact h.queue j hj

/-- A request is served whose client is live, and no listener. -/
theorem Linked.serve (h : n.Linked) (ha : n.Allotted) {rs : List Nat} {f : Nat} {port fid : Int}
    {m : Mallocs} (hq : (n.scb l).reqQueue = some (r :: rs)) (hl : n.freedSCB l = 0)
    (hclient : (n.scb (n.req r).socket).type ≠ .listener) (hu : (n.pc u).connection = none) :
    (n.serve u l r rs f port fid m).Linked := by
  have hmem : r ∈ (n.scb l).queue := SCB.mem_queue hq
  have hr : (n.req r).socket < n.scbs := ha.req r (ha.queue l r hmem)
  have hlive : n.freedSCB (n.req r).socket = 0 := h.request l hl r hmem
  have hnew : n.freedSCB n.scbs = 0 := (ha.blank n.scbs (Nat.le_refl _)).2
  have hfreed : (n.serve u l r rs f port fid m).freedSCB = n.freedSCB := by
    rw [serve_eq hr]
  have hpc : ∀ v, (n.serve u l r rs f port fid m).pc v =
      ((n.goto u .busy).pc v).wakeConnector r := fun v => by rw [serve_eq hr]
  -- Neither of the two new peers is a listener.
  have hlistener : ∀ i, (n.scb i).type = .listener →
      (n.serve u l r rs f port fid m).scb i =
        { n.scb i with reqQueue := if i = l then some rs else (n.scb i).reqQueue } := by
    intro i hi
    refine serve_scb hr (fun he => hclient (he ▸ hi)) fun he => ?_
    rw [he, (ha.blank n.scbs (Nat.le_refl _)).1] at hi
    simp [SCB.blank] at hi
  constructor
  case peer =>
    intro i j hi htype hpeer
    rw [hfreed] at hi ⊢
    by_cases hboth : i = (n.req r).socket ∨ i = n.scbs
    · rcases (serve_peers hr hboth).2.2.2 j hpeer with rfl | rfl
      · exact hlive
      · exact hnew
    · obtain ⟨hir, his⟩ := not_or.mp hboth
      rw [serve_scb hr hir his] at htype hpeer
      exact h.peer i j hi htype hpeer
  case request =>
    intro i hi j hj
    rw [serve_socket hr, hfreed]
    exact h.request i (hfreed ▸ hi) j (serve_queue hr hq i hj)
  case pending =>
    intro v i hv
    rw [hpc] at hv
    obtain ⟨hv, hir⟩ := asleep_of_wakeConnector hv
    rw [goto_connection (hu.trans rfl)] at hv
    obtain ⟨j, hj, htype, hmem⟩ := h.pending v i hv
    refine ⟨j, hfreed ▸ hj, by rw [hlistener j htype, htype], ?_⟩
    rw [hlistener j htype, SCB.queue]
    by_cases hjl : j = l
    · simp only [hjl, if_true, Option.getD_some]
      exact mem_rest hq hir (hjl ▸ hmem)
    · simp only [if_neg hjl]
      exact hmem
  case accept =>
    intro v i hv
    rw [hpc, SocketPc.listener_wakeConnector] at hv
    rw [hfreed]
    simp only [Sockets.goto, Function.update_apply] at hv
    split at hv
    · exact absurd hv (by simp [SocketPc.listener])
    · exact h.accept v i hv
  case queue =>
    intro i hi
    by_cases hboth : i = (n.req r).socket ∨ i = n.scbs
    · exact absurd ((serve_peers hr hboth).1.symm.trans hi) (by simp)
    · obtain ⟨hir, his⟩ := not_or.mp hboth
      rw [serve_scb hr hir his] at hi ⊢
      simp only
      split
      · simp
      · exact h.queue i hi

/-- A live socket makes a request at a live listener. -/
theorem Linked.makeRequest (h : n.Linked) (hk : n.freedSCB k = 0)
    (hl : n.freedSCB l = 0) (htype : (n.scb l).type = .listener) : (n.request u k l).Linked := by
  have heq := n.request_eq u k l
  have hfreed : (n.request u k l).freedSCB = n.freedSCB := by rw [heq]
  have hreq : (n.request u k l).req =
      Function.update n.req n.reqs { socket := k, accepted := false } := by rw [heq]
  have hpc := n.request_connection u k l
  have hscb := fun i => n.request_scb u k l i
  have hqueue : ∀ i, ((n.request u k l).scb i).queue =
      if i = l then (n.scb l).queue ++ [n.reqs] else (n.scb i).queue := by
    intro i
    rw [SCB.queue, hscb]
    simp only
    split
    · obtain ⟨q, hq⟩ := Option.ne_none_iff_exists'.mp (h.queue l htype)
      rw [SCB.queue_eq hq, hq]
      rfl
    · rfl
  have hold : ∀ i, ∀ r ∈ (n.scb i).queue, r ∈ ((n.request u k l).scb i).queue := by
    intro i r hr
    rw [hqueue]
    split
    · rename_i hi
      exact List.mem_append_left _ (hi ▸ hr)
    · exact hr
  constructor
  case peer =>
    intro i j hi hi' hpeer
    rw [hscb] at hi' hpeer
    rw [hfreed] at hi ⊢
    exact h.peer i j hi hi' hpeer
  case request =>
    -- The new request is of the live socket `k`; an older one was in the queue before.
    intro i hi r hr
    rw [hfreed] at hi ⊢
    rw [hreq]
    by_cases hnew : r = n.reqs
    · rw [hnew, Function.update_self]
      exact hk
    · rw [Function.update_of_ne hnew]
      refine h.request i hi r ?_
      rw [hqueue] at hr
      split at hr
      · rename_i hil
        rw [hil]
        exact (List.mem_append.mp hr).resolve_right fun hr => hnew (List.mem_singleton.mp hr)
      · exact hr
  case pending =>
    intro v r hv
    rw [hpc] at hv
    split at hv
    · obtain ⟨rfl, -⟩ := Prod.mk.inj (Option.some.inj hv)
      refine ⟨l, hfreed ▸ hl, by rw [hscb, htype], ?_⟩
      rw [hqueue, if_pos rfl]
      exact List.mem_append_right _ (List.mem_singleton_self _)
    · obtain ⟨j, hj, hj', hmem⟩ := h.pending v r hv
      exact ⟨j, hfreed ▸ hj, by rw [hscb, hj'], hold j r hmem⟩
  case accept =>
    intro v i hv
    rw [hfreed]
    refine h.accept v i ?_
    unfold Sockets.request at hv
    simp only [Sockets.goto, Function.update_apply] at hv
    split at hv
    · exact absurd hv (by simp [SocketPc.listener])
    · rw [(waits_signalReqs _ l).listener] at hv
      exact hv
  case queue =>
    intro i hi
    rw [hscb] at hi ⊢
    simp only
    split
    · exact fun he => h.queue l htype (Option.map_eq_none_iff.mp he)
    · exact h.queue i hi

/-- A socket is closed that nothing points at. -/
theorem Linked.close (h : n.Linked) {target : Option Nat} (hc : n.close target k = some n')
    (hk : n.Unlinked k) : n'.Linked := by
  have hscb := fun i => close_scb hc i
  have hreq : n'.req = n.req := by rw [close_eq hc]
  have hqueue : ∀ i, (n'.scb i).queue = (n.scb i).queue := fun i => by
    rw [SCB.queue, hscb]
    rfl
  have hpc := close_connection hc
  have hlistener : ∀ v, (n'.pc v).listener = (n.pc v).listener := by
    intro v
    rcases close_pc hc v with he | he <;> rw [he]
    exact SocketPc.listener_wakeAcceptor k
  -- What is live was, and is not `k`.
  have hlive : ∀ i, n'.freedSCB i = 0 → n.freedSCB i = 0 := by
    intro i hi
    rw [close_freed hc, Function.update_apply] at hi
    split at hi
    · omega
    · exact hi
  have hkept : ∀ i, i ≠ k → n.freedSCB i = 0 → n'.freedSCB i = 0 := by
    intro i hi hfreed
    rw [close_freed hc, Function.update_of_ne hi]
    exact hfreed
  constructor
  case peer =>
    intro i j hi htype hpeer
    rw [hscb] at htype hpeer
    refine hkept j (fun he => ?_) (h.peer i j (hlive i hi) htype hpeer)
    exact hk.peer i (hlive i hi) htype (he ▸ hpeer)
  case request =>
    intro i hi r hr
    rw [hqueue] at hr
    rw [hreq]
    exact hkept _ (hk.request i (hlive i hi) r hr) (h.request i (hlive i hi) r hr)
  case pending =>
    intro v r hv
    rw [hpc] at hv
    obtain ⟨j, hj, htype, hmem⟩ := h.pending v r hv
    refine ⟨j, hkept j (fun he => ?_) hj, by rw [hscb, htype], by rwa [hqueue]⟩
    exact hk.pending v r hv (he ▸ hmem)
  case accept =>
    intro v i hv
    rw [hlistener] at hv
    exact hkept i (fun he => hk.accept v (he ▸ hv)) (h.accept v i hv)
  case queue =>
    intro i hi
    rw [hscb] at hi ⊢
    exact h.queue i hi

end Sockets

namespace Streams

variable {s s' : Streams} {a : StreamAction} {n : Sockets} {k l u : Nat}

theorem listener_of_pc {ready : Bool} (hu : s.pc u = .accepting l ready) :
    (s.sockets.pc u).listener = some l := by
  change (s.pc u).socketPc.listener = some l
  rw [hu]
  rfl

/-- The listener of an `Accept` that goes on is live. -/
theorem pops_live (h : s.sockets.Linked) {m : Mallocs}
    (hdenoted : ∀ p fd k, denoted s.toFileTables p fd = some k → s.freedSCB k = 0)
    (hp : s.pops a = some (u, l, m)) : s.freedSCB l = 0 := by
  cases a with
  | accept v lsock m' =>
    simp only [pops] at hp
    split at hp
    · rename_i hl
      obtain ⟨-, hp⟩ := Option.ite_none_right_eq_some.mp hp
      cases hp
      exact hdenoted _ _ _ hl
    · exact absurd hp (by simp)
  | resume v data m' =>
    simp only [pops] at hp
    split at hp
    · rename_i hv
      obtain ⟨-, hp⟩ := Option.ite_none_left_eq_some.mp hp
      cases hp
      exact h.accept u l (listener_of_pc hv)
    · exact absurd hp (by simp)
  | _ => exact absurd hp (by simp [pops])

theorem SocketStep.linked (h : s.sockets.Linked) (ha : s.sockets.Allotted)
    (hp : s.sockets.Ported) (hfree : s.ListensFree a)
    (hdenoted : ∀ p fd k, denoted s.toFileTables p fd = some k → s.freedSCB k = 0)
    (hs : SocketStep s a n) (hclose : ∀ k, n.freedSCB k ≠ s.freedSCB k → s.sockets.Unlinked k) :
    n.Linked := by
  have hsame : ∀ n : Sockets, n.scb = s.scb → n.freedSCB = s.freedSCB → n.req = s.req →
      n.pc = s.sockets.pc → n.Linked := by
    intro n hscb hfreed hreq hpc
    refine h.keep hfreed hreq (fun k => ?_) (fun v r hv => hpc ▸ hv) fun v l hv => hpc ▸ hv
    rw [hscb]
    exact ⟨rfl, rfl, rfl⟩
  have hbusy : ∀ u, (s.sockets.goto u .busy).Linked := fun u =>
    h.goto (by simp [SocketPc.connection]) (by simp [SocketPc.listener])
  cases hs with
  | quiet => exact h
  | forget | pipe => exact hsame _ rfl rfl rfl rfl
  | create f port fid _ => exact h.create ha f port fid
  | @listen u k sock hl hk hport hnone hzero =>
    subst hl
    refine h.listen ?_
    -- A listener is in `PortMap`, and a peer is referred to; `sys_Listen` has tested for both.
    cases htype : (s.scb k).type with
    | unbound => exact htype
    | listener =>
      have hentry := hp.listener k htype (hdenoted _ _ _ hk)
      exact absurd (hnone.symm.trans hentry) (by simp)
    | peer => exact absurd hzero (hp.peer k htype)
  | sleep _ hl => exact h.sleep (hdenoted _ _ _ hl)
  | @refuse u l r m rs _ _ hq _ => exact (hbusy u).refuse hq
  | @serve u l r m rs f fid hpops hu hq _ =>
    exact h.serve ha hq (pops_live h hdenoted hpops) (hp.client l r (SCB.mem_queue hq))
      (connection_eq_none hu)
  | @leave u => exact hbusy u
  | request _ _ hport htype hk _ =>
    exact h.makeRequest (hdenoted _ _ _ hk) (hp.entry _ _ hport).2.1 htype
  | @answer u r w _ _ =>
    unfold Sockets.answer
    simp only
    split <;>
      exact (hbusy u).keep rfl rfl (fun _ => ⟨rfl, rfl, rfl⟩) (fun _ _ => id) fun _ _ => id
  | timeout _ _ => exact h.goto (by simp [SocketPc.connection]) (by simp [SocketPc.listener])
  | @shut u sock how =>
    have hs := Sockets.shuts_shutDown s.sockets how (denoted s.toFileTables (s.owner u) sock)
    refine h.keep (by rw [hs.eq]) (by rw [hs.eq]) (fun k => ?_) (fun v r hv => ?_) fun v l hv => ?_
    · rw [hs.scb k]
      exact ⟨rfl, rfl, rfl⟩
    · rw [hs.eq] at hv
      exact hv
    · rw [hs.eq] at hv
      exact hv
  | @close u f k n _ _ _ _ hc =>
    refine h.close hc (hclose k ?_)
    rw [Sockets.close_freed hc, Function.update_self]
    exact Nat.succ_ne_self _
  | spawn =>
    exact (hbusy s.threads).keep rfl rfl (fun _ => ⟨rfl, rfl, rfl⟩) (fun _ _ => id) fun _ _ => id

/-! ## Where the code looks at an SCB -/

theorem touched_signalReqs (s : Streams) (k : Nat) :
    (s.signalReqs k).touchedFreed = s.touchedFreed := by
  unfold signalReqs
  split <;> rfl

theorem touched_writerClose (s : Streams) (q : Nat) :
    (s.writerClose q).touchedFreed = s.touchedFreed := by
  unfold writerClose
  split <;> rfl

theorem touched_readerClose (s : Streams) (q : Nat) :
    (s.readerClose q).touchedFreed = s.touchedFreed := by
  unfold readerClose
  split
  · rfl
  · exact touched_writerClose _ q

theorem touched_listenerClose (s : Streams) (k : Nat) :
    (s.listenerClose k).touchedFreed = s.touchedFreed := by
  unfold listenerClose
  simp only
  split <;> rfl

theorem touched_connectPeers (s : Streams) (k j r : Nat) (m : Mallocs) :
    (s.connectPeers k j r m).touchedFreed = s.touchedFreed := by
  obtain ⟨scb, receive, send⟩ := m
  cases receive <;> cases send <;> rfl

theorem touched_sysSocket {s₁ : Streams} {p : Nat} {port : Int} {malloc : Bool} {o : Option Int}
    (h : s.sysSocket p port malloc = (o, s₁)) : s₁.touchedFreed = s.touchedFreed := by
  unfold sysSocket at h
  split at h
  · cases h
    rfl
  split at h
  · split at h <;> cases h <;> rfl
  · cases h
    rfl

theorem touched_openStream (s : Streams) (p : Nat) (device : Option Stream) :
    (s.openStream p device).touchedFreed = s.touchedFreed := by
  unfold openStream
  split
  · split <;> rfl
  · rfl

theorem touched_sysPipe {p : Nat} {malloc : Bool} (h : s.sysPipe p malloc = some s') :
    s'.touchedFreed = s.touchedFreed := by
  unfold sysPipe at h
  split at h
  · cases malloc with
    | false => exact absurd h (by simp [newPipe])
    | true =>
      cases h
      rfl
  · cases h
    rfl

theorem touched_pipeReadStretch (s : Streams) (u f q size : Nat) :
    (s.pipeReadStretch u f q size).touchedFreed = s.touchedFreed := by
  unfold pipeReadStretch
  split
  · rfl
  · simp only
    split <;> rfl

theorem touched_endWrite (s : Streams) (u f q : Nat) (buf : List Byte) (size : Nat)
    (w : WriteStretch) : (s.endWrite u f q buf size w).touchedFreed = s.touchedFreed := by
  unfold endWrite
  split
  · rfl
  · simp only
    split <;> rfl

theorem touched_serialReadStretch (s : Streams) (u f size : Nat) (data : Bool) :
    (s.serialReadStretch u f size data).touchedFreed = s.touchedFreed := by
  unfold serialReadStretch
  split <;> rfl

/-- What the code reaches an SCB by is live. -/
structure Live (s : Streams) : Prop where
  linked : s.sockets.Linked
  denoted : ∀ p fd k, denoted s.toFileTables p fd = some k → s.freedSCB k = 0
  port : ∀ p l, s.PortMap p = some l → s.freedSCB l = 0
  closing : ∀ a k, s.closing a = some (.socket k) → s.freedSCB k = 0

theorem touched_shutRead {j : Nat} (hj : s.freedSCB j = 0) :
    (s.shutRead k j).touchedFreed = s.touchedFreed := by
  unfold shutRead
  split
  · rfl
  · rename_i q _
    have hfreed : (s.readerClose q).freedSCB = s.freedSCB :=
      congrArg Sockets.freedSCB (s.sockets_readerClose q)
    have hlive : ((s.readerClose q).modifySCB k fun b => { b with receive := none }).freedSCB j =
        0 := by
      change (s.readerClose q).freedSCB j = 0
      rw [hfreed, hj]
    simp only [access_live hlive]
    exact touched_readerClose s q

theorem touched_shutWrite (s : Streams) (k : Nat) :
    (s.shutWrite k).touchedFreed = s.touchedFreed := by
  unfold shutWrite
  split
  · rfl
  · exact touched_writerClose s _

theorem touched_sysShutDown (h : s.sockets.Linked) {p : Nat} {sock : Int} (how : ShutdownMode)
    (hk : ∀ k, denoted s.toFileTables p sock = some k → s.freedSCB k = 0) :
    (s.sysShutDown p sock how).touchedFreed = s.touchedFreed := by
  unfold sysShutDown
  split
  · rename_i k hst
    have hlive : s.freedSCB k = 0 := hk k (by rw [denoted, hst]; rfl)
    simp only [access_live hlive]
    split
    · rename_i j htype hj
      have hread : (if how = .read ∨ how = .both then s.shutRead k j else s).touchedFreed =
          s.touchedFreed := by
        split
        · exact touched_shutRead (h.peer k j hlive htype hj)
        · rfl
      split
      · rw [touched_shutWrite, hread]
      · exact hread
    · rfl
  · rfl

theorem touched_socketClose (h : s.sockets.Linked) {p : Nat} (hk : s.freedSCB k = 0)
    (hfid : ∀ j, denoted s.toFileTables p (s.scb k).fid = some j → s.freedSCB j = 0)
    (hs : s.socketClose p k = some s') : s'.touchedFreed = s.touchedFreed := by
  unfold socketClose at hs
  simp only [access_live hk] at hs
  split at hs
  · cases hs
    rfl
  split at hs
  · cases hs
    rfl
  · cases hs
    exact touched_listenerClose s k
  · rename_i htype
    obtain ⟨s₁, hs₁, rfl⟩ := Option.map_eq_some_iff.mp hs
    unfold peerClose at hs₁
    have hshut := touched_sysShutDown h .both hfid
    have hsockets := s.sockets_sysShutDown p (s.scb k).fid .both
    have hshuts := Sockets.shuts_shutDown s.sockets .both
      (denoted s.toFileTables p (s.scb k).fid)
    rw [← hsockets] at hshuts
    have hfreed : (s.sysShutDown p (s.scb k).fid .both).freedSCB = s.freedSCB :=
      congrArg Sockets.freedSCB hshuts.eq
    have hpeer : ((s.sysShutDown p (s.scb k).fid .both).scb k).peer = (s.scb k).peer :=
      (congrArg SCB.peer (hshuts.scb k)).trans rfl
    simp only [hpeer] at hs₁
    split at hs₁
    · exact absurd hs₁ (by simp)
    · rename_i j hj
      cases hs₁
      have hlive : (s.sysShutDown p (s.scb k).fid .both).freedSCB j = 0 := by
        rw [hfreed]
        exact h.peer k j hk htype hj
      simp only [access_live hlive]
      exact hshut

theorem touched_decrefFCB (h : s.sockets.Linked) {p f : Nat}
    (hk : ∀ k, (s.FT f).refcount = 1 → (s.FT f).stream = some (.socket k) → s.freedSCB k = 0 ∧
      ∀ j, denoted s.toFileTables p (s.scb k).fid = some j → s.freedSCB j = 0)
    (hs : s.decrefFCB p f = some s') : s'.touchedFreed = s.touchedFreed := by
  unfold decrefFCB at hs
  simp only [FileTables.decrementFCB_stream, FileTables.decrementFCB_refcount, if_true] at hs
  split at hs
  · rename_i hlast
    split at hs
    · exact absurd hs (by simp)
    rename_i st hst
    obtain ⟨s₁, hs₁, rfl⟩ := Option.map_eq_some_iff.mp hs
    change s₁.touchedFreed = s.touchedFreed
    cases st with
    | null | serial | info =>
      cases hs₁
      rfl
    | reader q =>
      cases hs₁
      exact touched_readerClose _ q
    | writer q =>
      cases hs₁
      exact touched_writerClose _ q
    | socket k =>
      obtain ⟨hlive, hfid⟩ := hk k (by omega) hst
      have hdenoted := s.denoted_decrementFCB p f
      have hlinked : ({ s with toFileTables := s.decrementFCB f } : Streams).sockets.Linked :=
        s.sockets_decrementFCB f ▸ h
      have hclosed := touched_socketClose hlinked hlive
        (fun j hj => hfid j ((hdenoted _).symm.trans hj)) hs₁
      exact hclosed
  · cases hs
    rfl

theorem touched_acceptRequest (h : s.sockets.Linked) {p l : Nat} {m : Mallocs}
    (hl : s.freedSCB l = 0) (hs : s.acceptRequest p l m = some s') :
    s'.touchedFreed = s.touchedFreed := by
  unfold acceptRequest at hs
  split at hs
  case h_2 => exact absurd hs (by simp)
  rename_i r rs hq
  have hclient : s.freedSCB (s.req r).socket = 0 := h.request l hl r (SCB.mem_queue hq)
  have hpop : (s.popRequest l r rs).touchedFreed = s.touchedFreed := by
    unfold popRequest
    simp only
    rw [access_live (by exact hclient)]
    rfl
  simp only at hs
  split at hs
  · rename_i s₁ hsock
    cases hs
    exact (touched_sysSocket hsock).trans hpop
  · rename_i fid s₁ hsock
    split at hs
    · cases hs
      rw [touched_connectPeers, touched_sysSocket hsock, hpop]
    · exact absurd hs (by simp)

theorem touched_sysAccept (h : s.Live) {lsock : Int} {m : Mallocs}
    (hs : s.sysAccept u lsock m = some s') : s'.touchedFreed = s.touchedFreed := by
  unfold sysAccept at hs
  simp only at hs
  split at hs
  · rename_i l hst
    have hl : s.freedSCB l = 0 := h.denoted (s.owner u) lsock l (by rw [denoted, hst]; rfl)
    rw [access_live hl] at hs
    split at hs
    · cases hs
      rfl
    split at hs
    · cases hs
      rfl
    · exact touched_acceptRequest h.linked hl hs
  · cases hs
    rfl

theorem touched_resumeAccept (h : s.Live) {m : Mallocs} (hu : s.pc u = .accepting l true)
    (hs : s.resumeAccept u l m = some s') : s'.touchedFreed = s.touchedFreed := by
  have hl : s.freedSCB l = 0 := h.linked.accept u l (listener_of_pc hu)
  have hgoto : (s.goto u .running).sockets.Linked := by
    rw [sockets_goto]
    exact h.linked.goto (by simp [StreamPc.socketPc, SocketPc.connection])
      (by simp [StreamPc.socketPc, SocketPc.listener])
  unfold resumeAccept at hs
  simp only [access_live hl] at hs
  split at hs
  · cases hs
    rfl
  · exact (touched_acceptRequest hgoto hl hs).trans rfl

theorem touched_sysConnect (h : s.Live) {sock port : Int} {malloc : Bool}
    (hs : s.sysConnect u sock port malloc = some s') : s'.touchedFreed = s.touchedFreed := by
  unfold sysConnect at hs
  split at hs
  · cases hs
    rfl
  split at hs
  · cases hs
    rfl
  rename_i l hport
  simp only [access_live (h.port port l hport)] at hs
  split at hs
  · cases hs
    rfl
  split at hs
  · cases hs
    rfl
  rename_i f hf
  split at hs
  · exact absurd hs (by simp)
  · exact absurd hs (by simp)
  case h_7 k hk =>
    have hlive : s.freedSCB k = 0 := h.denoted (s.owner u) sock k (by
      rw [denoted, hf, Option.bind_some, hk]
      rfl)
    rw [access_live hlive] at hs
    split at hs
    · cases hs
      rfl
    · cases hs
      exact touched_signalReqs _ l
  -- Another kind of stream.
  all_goals
    cases hs
    obtain ⟨b, hb⟩ := s.connectOther_eq f malloc
    rw [hb]

theorem touched_sysRead (h : s.Live) {fd : Int} {size : Nat} {data : Bool}
    (hs : s.sysRead u fd size data = some s') : s'.touchedFreed = s.touchedFreed := by
  unfold sysRead at hs
  split at hs
  · cases hs
    rfl
  rename_i f hf
  simp only at hs
  split at hs
  · exact absurd hs (by simp)
  · cases hs
    rfl
  · cases hs
    rfl
  · obtain ⟨index, hi⟩ := infoRead_eq { s with toFileTables := s.increfFCB f } f size
    rw [hi] at hs
    cases hs
    rfl
  · cases hs
    exact touched_serialReadStretch ..
  · cases hs
    exact touched_pipeReadStretch ..
  · rename_i k hk
    have hlive : s.freedSCB k = 0 := h.denoted (s.owner u) fd k (by
      rw [denoted, hf, Option.bind_some, hk]
      rfl)
    rw [access_live (by exact hlive)] at hs
    split at hs
    · cases hs
      exact touched_pipeReadStretch ..
    · cases hs
      rfl

theorem touched_sysWrite (h : s.Live) {fd : Int} {buf : List Byte} {size : Nat}
    (hs : s.sysWrite u fd buf size = some s') : s'.touchedFreed = s.touchedFreed := by
  unfold sysWrite at hs
  split at hs
  · cases hs
    rfl
  rename_i f hf
  simp only at hs
  split at hs
  · exact absurd hs (by simp)
  · cases hs
    rfl
  · cases hs
    rfl
  · cases hs
    rfl
  · cases hs
    rfl
  · cases hs
    exact touched_endWrite ..
  · rename_i k hk
    have hlive : s.freedSCB k = 0 := h.denoted (s.owner u) fd k (by
      rw [denoted, hf, Option.bind_some, hk]
      rfl)
    rw [access_live (by exact hlive)] at hs
    split at hs
    · cases hs
      exact touched_endWrite ..
    · cases hs
      rfl

/-- A call that drops no reference. -/
theorem touched_call (h : s.Live) (ha : caller a = some u) (hu : closer a = none)
    (hs : s.call u a = some s') : s'.touchedFreed = s.touchedFreed := by
  cases a with
  | openNull | openTerminal =>
    cases hs
    exact touched_openStream ..
  | pipe v malloc => exact touched_sysPipe hs
  | socket v port malloc =>
    cases hs
    exact touched_sysSocket rfl
  | openInfo v info table copied =>
    obtain ⟨r, hr, rfl⟩ := Option.map_eq_some_iff.mp hs
    rcases sysOpenInfo_cases hr with ⟨index, h⟩ | ⟨-, h⟩
    · rw [h]
      exact touched_openStream ..
    · rw [h]
  | listen v sock =>
    cases hs
    unfold sysListen
    split
    · rename_i k hst
      have hlive : s.freedSCB k = 0 := h.denoted (s.owner u) sock k (by rw [denoted, hst]; rfl)
      simp only [access_live hlive]
      split <;> rfl
    · rfl
  | accept v lsock m => exact touched_sysAccept h hs
  | connect v sock port malloc => exact touched_sysConnect h hs
  | shutDown v sock how =>
    cases hs
    exact touched_sysShutDown h.linked how (h.denoted _ _)
  | read v fd size data => exact touched_sysRead h hs
  | write v fd buf size => exact touched_sysWrite h hs
  | close | dup2 => exact absurd hu (by simp [closer])
  | exec v q call =>
    obtain ⟨-, hs⟩ := Option.ite_none_right_eq_some.mp hs
    cases hs
    unfold sysExec
    simp only
    split <;> rfl
  | createThread v =>
    cases hs
    rfl
  | exit v =>
    cases hs
    rfl
  | reap | resume | proceed | rxReady | timeout => exact absurd ha (by simp [caller])

/-- **No step looks at an SCB that was freed.** -/
theorem touched_perform (h : s.Live) (hs : s.perform a = some s') :
    s'.touchedFreed = s.touchedFreed := by
  cases hu : closer a with
  | none =>
    rcases perform_cases hs with ⟨p, rfl, -, rfl⟩ | ⟨v, data, m, rfl, -, hs⟩ |
      ⟨v, rfl, -, -⟩ | ⟨rfl, rfl⟩ | ⟨v, r, rfl, -, rfl⟩ | ⟨v, hv, -, -, hs⟩
    · rfl
    · unfold Streams.resume at hs
      split at hs
      · cases hs
        exact touched_pipeReadStretch ..
      · cases hs
        exact touched_endWrite ..
      · cases hs
        exact touched_serialReadStretch ..
      · rename_i l hv
        exact touched_resumeAccept h hv hs
      · cases hs
        unfold resumeConnect
        simp only
        split <;> rfl
      · cases hs
        unfold resumeConnect
        simp only
        split <;> rfl
      · exact absurd hs (by simp)
    · exact absurd hu (by simp [closer])
    · rfl
    · rfl
    · exact touched_call h hv hu hs
  | some u =>
    rcases drop_spec hs hu with ⟨-, hb⟩ | ⟨f, s₀, s₁, hf, h₀, hcount, hfound, hd, h₁⟩
    · exact hb.touchedFreed
    have hfreed : s₀.freedSCB = s.freedSCB := congrArg Sockets.freedSCB h₀.sockets
    have hscb : s₀.scb = s.scb := congrArg Sockets.scb h₀.sockets
    -- Two SCBs are looked at: the one that is closed, and the one that its `fid` denotes.
    rw [h₁.touchedFreed, ← h₀.touchedFreed]
    refine touched_decrefFCB (h₀.sockets ▸ h.linked) (fun k hlast hst => ⟨?_, fun j hj => ?_⟩) hd
    · rw [hfreed]
      rw [hcount] at hlast
      rw [h₀.stream] at hst
      exact h.closing a k (closing_eq hf hlast hst)
    · rw [hfreed]
      rw [hscb, hfound] at hj
      unfold found at hj
      split at hj
      · split at hj
        · exact absurd hj (by simp)
        · exact h.denoted _ _ j hj
      · exact h.denoted _ _ j hj
      · exact h.denoted _ _ j hj
      · exact absurd hj (by simp)

/-! ## The runs that free no socket that is pointed at -/

/-- Nobody sleeps in `Accept` at the socket `k`, no live peer has it as its peer, no queue of a live
socket holds a request of it, and its own queue none whose `Connect` is asleep. -/
def Loose (s : Streams) (k : Nat) : Prop :=
  (∀ u < s.threads, (s.pc u).socketPc.listener ≠ some k) ∧
  (∀ j < s.scbs, s.freedSCB j = 0 → (s.scb j).type = .peer → (s.scb j).peer ≠ some k) ∧
  (∀ l < s.scbs, s.freedSCB l = 0 → ∀ r ∈ (s.scb l).queue, (s.req r).socket ≠ k) ∧
  ∀ r ∈ (s.scb k).queue, ∀ u < s.threads, s.pc u ≠ .connecting r .asleep

instance (s : Streams) (k : Nat) : Decidable (s.Loose k) :=
  inferInstanceAs (Decidable (_ ∧ _ ∧ _ ∧ _))

/-- A step that closes a socket closes a loose one. -/
def ClosesLoose (s : Streams) (a : StreamAction) : Prop :=
  ∀ st ∈ s.closing a, ∀ k ∈ st.socket?, s.Loose k

instance (s : Streams) (a : StreamAction) : Decidable (s.ClosesLoose a) :=
  inferInstanceAs (Decidable (∀ st ∈ s.closing a, ∀ k ∈ st.socket?, s.Loose k))

/-- A step that meets the conditions. -/
structure Careful (s : Streams) (a : StreamAction) : Prop where
  sound : s.Sound a
  listens : s.ListensFree a
  closes : s.ClosesLoose a

instance (s : Streams) (a : StreamAction) : Decidable (s.Careful a) :=
  decidable_of_iff (s.Sound a ∧ s.ListensFree a ∧ s.ClosesLoose a)
    ⟨fun h => ⟨h.1, h.2.1, h.2.2⟩, fun h => ⟨h.1, h.2, h.3⟩⟩

theorem Loose.unlinked (h : s.Loose k) (ha : s.sockets.Allotted) : s.sockets.Unlinked k := by
  obtain ⟨haccept, hpeer, hrequest, hpending⟩ := h
  have hblank : ∀ j, s.scbs ≤ j → s.sockets.scb j = .blank := fun j hj => (ha.blank j hj).1
  constructor
  case peer =>
    intro j hj htype
    refine hpeer j ?_ hj htype
    by_contra hlt
    have := hblank j (Nat.le_of_not_lt hlt)
    simp [this, SCB.blank] at htype
  case request =>
    intro l hl r hr
    refine hrequest l ?_ hl r hr
    by_contra hlt
    rw [hblank l (Nat.le_of_not_lt hlt)] at hr
    exact List.not_mem_nil hr
  case pending =>
    intro u r hu hr
    refine hpending r hr u ?_ ?_
    · by_contra hlt
      rw [(ha.born u).mpr (Nat.le_of_not_lt hlt)] at hu
      simp [SocketPc.connection] at hu
    · change (s.pc u).socketPc.connection = _ at hu
      cases hpc : s.pc u with
      | connecting i w =>
        rw [hpc] at hu
        obtain ⟨rfl, rfl⟩ := Prod.mk.inj (Option.some.inj hu)
        rfl
      | _ =>
        rw [hpc] at hu
        simp [StreamPc.socketPc, SocketPc.connection] at hu
  case accept =>
    intro u hu
    refine haccept u ?_ hu
    by_contra hlt
    rw [(ha.born u).mpr (Nat.le_of_not_lt hlt)] at hu
    simp [SocketPc.listener] at hu

theorem live (hr : streamSys.ReachIf Careful s) (h : s.sockets.Linked) : s.Live := by
  obtain ⟨object, hn⟩ := named hr
  obtain ⟨R, hi⟩ := inductive_inv.reachIf (hr.mono fun _ _ hc => hc.sound)
  have hp := ported (hr.mono fun _ _ hc => hc.listens)
  exact ⟨h, fun _ _ _ => hn.denoted_live hi, fun _ _ hl => (hp.entry _ _ hl).2.1,
    fun _ _ => hn.closing_live hi⟩

theorem linked (hr : streamSys.ReachIf Careful s) : s.sockets.Linked := by
  induction hr with
  | init hi =>
    obtain ⟨serialPorts, rfl⟩ := hi
    have hpc : ∀ u, ((Streams.initial serialPorts).sockets.pc u).connection = none ∧
        ((Streams.initial serialPorts).sockets.pc u).listener = none := by
      intro u
      simp only [sockets, Streams.initial]
      split <;> exact ⟨rfl, rfl⟩
    constructor
    case pending => exact fun u r hu => absurd ((hpc u).1 ▸ hu) (by simp)
    case accept => exact fun u l hu => absurd ((hpc u).2 ▸ hu) (by simp)
    all_goals simp [sockets, Streams.initial, SCB.queue]
  | @step s s' a hr hc hs ih =>
    have ha := allotted hr
    refine (socketStep hs).linked ih ha (ported (hr.mono fun _ _ hc => hc.listens)) hc.listens
      (live hr ih).denoted fun k hk => ?_
    exact (hc.closes _ (closing_of_freed hs hk) k rfl).unlinked ha

theorem untouched (hr : streamSys.ReachIf Careful s) : s.touchedFreed = false := by
  induction hr with
  | init hi =>
    obtain ⟨serialPorts, rfl⟩ := hi
    rfl
  | step hr _ hs ih => exact (touched_perform (live hr (linked hr)) hs).trans ih

/-- No freed SCB was looked at, and what SCBs and threads point at is live. -/
structure ScbsLive (s : Streams) : Prop where
  untouched : s.touchedFreed = false
  peer : ∀ k j, s.freedSCB k = 0 → (s.scb k).type = .peer → (s.scb k).peer = some j →
    s.freedSCB j = 0
  request : ∀ l, s.freedSCB l = 0 → ∀ r ∈ (s.scb l).queue, s.freedSCB (s.req r).socket = 0
  pending : ∀ u r, s.pc u = .connecting r .asleep →
    ∃ l, s.freedSCB l = 0 ∧ (s.scb l).type = .listener ∧ r ∈ (s.scb l).queue
  accept : ∀ u l ready, s.pc u = .accepting l ready → s.freedSCB l = 0

end Streams

/-- **No SCB is used after it was freed**, in every run that frees only sockets that nothing points
at, in which `Listen` is called on free sockets only and no `Socket` or `OpenInfo` fails in its
`malloc`. -/
theorem scbs_live (s : Streams) (hr : streamSys.ReachIf (fun s a => s.Careful a) s) :
    s.ScbsLive := by
  have h := Streams.linked hr
  exact ⟨Streams.untouched hr, h.peer, h.request,
    fun u r hu => h.pending u r (Streams.connection_of_pc hu),
    fun u l _ hu => h.accept u l (Streams.listener_of_pc hu)⟩

/-- A client is accepted, a second thread sleeps in `Accept` at another listener, and the first
listener is closed. -/
theorem scbs_live_run : ∃ s : Streams, s.ScbsLive ∧ s.freedSCB 0 = 1 ∧
    (s.scb 1).peer = some 3 ∧ s.pc 2 = .accepting 2 false := by
  obtain ⟨s, hr, hp⟩ := Sys.reachIf_of_exec (M := streamSys) (C := fun s a => s.Careful a)
    (fun s a => decide (s.Careful a)) (Streams.initial 0)
    [.socket 0 7 true, .listen 0 0, .socket 0 0 true, .socket 0 8 true, .listen 0 2,
      .createThread 0, .createThread 0, .connect 1 1 7 true, .accept 2 2 ⟨true, true, true⟩,
      .accept 0 0 ⟨true, true, true⟩, .close 0 0]
    (fun s => decide (s.freedSCB 0 = 1 ∧ (s.scb 1).peer = some 3 ∧
      s.pc 2 = .accepting 2 false))
    (fun s a h => of_decide_eq_true h) ⟨0, rfl⟩ (by decide)
  exact ⟨s, scbs_live s hr, of_decide_eq_true hp⟩

/-- A listener is closed while a thread sleeps in `Accept`, which then looks at its `refcount`. -/
theorem not_scbs_live : ¬ ∀ s, streamSys.ReachIf (fun s a => s.Alive a) s → s.ScbsLive := by
  intro hall
  obtain ⟨s, hr, hp⟩ := Sys.reachIf_of_exec (M := streamSys) (C := fun s a => s.Alive a)
    (fun s a => decide (s.Alive a)) (Streams.initial 0)
    [.socket 0 7 true, .listen 0 0, .createThread 0, .accept 1 0 ⟨true, true, true⟩, .close 0 0,
      .resume 1 false ⟨true, true, true⟩]
    (fun s => s.touchedFreed)
    (fun s a h => of_decide_eq_true h) ⟨0, rfl⟩ (by decide)
  exact absurd (hp.symm.trans (hall s hr).untouched) (by simp)

end TinyOS
