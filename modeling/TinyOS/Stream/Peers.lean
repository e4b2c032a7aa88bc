import TinyOS.Stream.Allotted
import TinyOS.Stream.Refcount

/-!
# Peers come in pairs

As long as no socket is closed, the peer relation is a perfect matching, and each pair has pipes of
its own. **`Accept` must not be handed a client that has a peer already** (`peers_match`). It does
not look: a client that connects twice at the same time, or again after its `Connect` has timed out,
leaves two requests, and the second `Accept` takes it away from its first peer (`not_peers_match`).
-/

set_option autoImplicit false

namespace TinyOS

open Transition

namespace Sockets

/-- The pipe `q` is an end of the SCB `k`. -/
def Ends (n : Sockets) (k q : Nat) : Prop := (n.scb k).send = some q ∨ (n.scb k).receive = some q

structure Paired (n : Sockets) : Prop where
  peer : ∀ a, (n.scb a).type = .peer → ∃ b, (n.scb a).peer = some b ∧ (n.scb b).type = .peer ∧
    (n.scb b).peer = some a ∧ a ≠ b ∧ ((n.scb a).send = none ∨ (n.scb a).send = (n.scb b).receive)
  refcount : ∀ a, (n.scb a).type = .peer → (n.scb a).refcount ≠ 0
  /-- Only peers have pipes. -/
  alone : ∀ a, (n.scb a).type ≠ .peer → (n.scb a).send = none ∧ (n.scb a).receive = none
  pipes : ∀ a c q, n.Ends a q → n.Ends c q → c = a ∨ (n.scb a).peer = some c

variable {n n' : Sockets} {k l j r : Nat}

theorem Paired.congr (h : n.Paired) (hscb : ∀ k, (n'.scb k).type = (n.scb k).type ∧
      (n'.scb k).peer = (n.scb k).peer ∧ (n'.scb k).send = (n.scb k).send ∧
      (n'.scb k).receive = (n.scb k).receive)
    (hrefcount : ∀ k, (n.scb k).refcount ≠ 0 → (n'.scb k).refcount ≠ 0) : n'.Paired := by
  have htype := fun k => (hscb k).1
  have hpeer := fun k => (hscb k).2.1
  have hsend := fun k => (hscb k).2.2.1
  have hreceive := fun k => (hscb k).2.2.2
  constructor <;> simp only [Ends, htype, hpeer, hsend, hreceive]
  case peer => exact h.peer
  case refcount => exact fun a ha => hrefcount a (h.refcount a ha)
  case alone => exact h.alone
  case pipes => exact h.pipes

theorem Paired.create (h : n.Paired) (ha : n.Allotted) (f : Nat) (port fid : Int) :
    (n.create f port fid).Paired := by
  have hblank := (ha.blank n.scbs (Nat.le_refl _)).1
  have hnew : (n.scb n.scbs).type ≠ .peer := by simp [hblank, SCB.blank]
  constructor <;> simp only [Ends, Sockets.create, Function.update_apply]
  case peer => have := h.peer; grind
  case refcount => have := h.refcount; grind
  case alone => have := h.alone; grind
  case pipes => have := h.pipes; simp only [Ends] at this; grind

theorem Paired.listen (h : n.Paired) (hzero : (n.scb k).refcount = 0) : (n.listen k).Paired := by
  have hk : (n.scb k).type ≠ .peer := fun hp => h.refcount k hp hzero
  constructor <;> simp only [Ends, Sockets.listen, Sockets.modifySCB, Function.update_apply]
  case peer => have := h.peer; grind
  case refcount => have := h.refcount; grind
  case alone => have := h.alone; grind
  case pipes => have := h.pipes; simp only [Ends] at this; grind

/-- Two SCBs without peers become peers. -/
theorem Paired.connectPeers (h : n.Paired) (ha : n.Allotted) (hkj : k ≠ j)
    (hk : (n.scb k).type ≠ .peer) (hj : (n.scb j).type ≠ .peer) (hone : (n.scb j).refcount ≠ 0)
    (m : Mallocs) : (n.connectPeers k j r m).Paired := by
  have hsend := ha.send
  have hreceive := ha.receive
  have hnew : ∀ q, n.sendPipe m = some q ∨ n.receivePipe m = some q → n.pipes ≤ q := by
    intro q hq
    unfold sendPipe receivePipe at hq
    grind
  rw [connectPeers_eq n hkj]
  constructor <;> simp only [Ends, Function.update_apply]
  case peer => have := h.peer; grind
  case refcount => have := h.refcount; grind
  case alone => have := h.alone; grind
  case pipes => have := h.pipes; simp only [Ends] at this; grind

theorem Paired.shutRead (h : n.Paired) (hk : (n.scb k).type = .peer)
    (hj : (n.scb k).peer = some j) : (n.shutRead k j).Paired := by
  unfold Sockets.shutRead
  split
  · exact h
  · constructor <;> simp only [Ends, Sockets.modifySCB, Function.update_apply]
    case peer => have := h.peer; grind
    case refcount => have := h.refcount; grind
    case alone => have := h.alone; grind
    case pipes => have := h.pipes; simp only [Ends] at this; grind

theorem Paired.shutWrite (h : n.Paired) : (n.shutWrite k).Paired := by
  unfold Sockets.shutWrite
  split
  · exact h
  · constructor <;> simp only [Ends, Sockets.modifySCB, Function.update_apply]
    case peer => have := h.peer; grind
    case refcount => have := h.refcount; grind
    case alone => have := h.alone; grind
    case pipes => have := h.pipes; simp only [Ends] at this; grind

theorem Paired.shutDown (h : n.Paired) (how : ShutdownMode) (target : Option Nat) :
    (n.shutDown how target).Paired := by
  unfold Sockets.shutDown
  cases target with
  | none => exact h
  | some k =>
    simp only
    split
    · rename_i j hk hj
      have hr : (if how = .read ∨ how = .both then n.shutRead k j else n).Paired := by
        split
        · exact h.shutRead hk hj
        · exact h
      split
      · exact hr.shutWrite
      · exact hr
    · exact h

theorem Paired.popRequest (h : n.Paired) (l r : Nat) (rs : List Nat) :
    (n.popRequest l r rs).Paired := by
  refine h.congr (fun k => ?_) (fun k hk => ?_) <;> rw [popRequest_scb]
  · exact ⟨rfl, rfl, rfl, rfl⟩
  · simp only
    split
    · simp
    · exact hk

theorem Paired.makeRequest (h : n.Paired) (u k l : Nat) : (n.request u k l).Paired := by
  refine h.congr (fun i => ?_) (fun i hi => ?_) <;> rw [request_scb]
  · exact ⟨rfl, rfl, rfl, rfl⟩
  · exact hi

end Sockets

namespace Streams

variable {s s' : Streams} {a : StreamAction} {n : Sockets}

/-- An `Accept` that answers a fid was handed a client that has no peer. -/
def AcceptsSingle (s : Streams) (a : StreamAction) : Prop :=
  ∀ r ∈ s.served a, (s.scb (s.req r).socket).type ≠ .peer

instance (s : Streams) (a : StreamAction) : Decidable (s.AcceptsSingle a) := by
  unfold AcceptsSingle
  infer_instance

/-- A step that frees no socket. -/
theorem SocketStep.paired (h : s.sockets.Paired) (ha : s.sockets.Allotted)
    (hc : s.AcceptsSingle a) (hs : SocketStep s a n) (hfreed : n.freedSCB = s.freedSCB) :
    n.Paired := by
  have hsame : ∀ n : Sockets, n.scb = s.scb → n.Paired := by
    intro n hscb
    refine h.congr (fun k => ?_) (fun k => ?_) <;> rw [hscb]
    · exact ⟨rfl, rfl, rfl, rfl⟩
    · exact id
  cases hs with
  | quiet => exact h
  | forget fs => exact hsame _ rfl
  | pipe fs => exact hsame _ rfl
  | create f port fid _ => exact h.create ha f port fid
  | listen _ _ _ _ hzero => exact h.listen hzero
  | sleep => exact hsame _ rfl
  | @refuse u l r m rs _ _ hq _ =>
    have hpop := (hsame (s.sockets.goto u .busy) rfl).popRequest l r rs
    exact hpop.congr (fun _ => ⟨rfl, rfl, rfl, rfl⟩) fun _ => id
  | @serve u l r m rs f fid hp hu hq hserve =>
    have hallot := (ha.goto_busy (pops_ne_unborn hu)).popRequest hq
    have hcreate := ((hsame (s.sockets.goto u .busy) rfl).popRequest l r rs).create hallot f
      (s.scb l).port fid
    have hmem : r ∈ (s.sockets.scb l).queue := SCB.mem_queue hq
    have hr : (s.req r).socket < s.scbs := ha.req r (ha.queue l r hmem)
    have hscb := (s.sockets.goto u .busy).popRequest_scb l r (s.req r).socket rs
    refine hcreate.connectPeers (hallot.create f _ fid) (by omega) ?_ ?_ ?_ m
    · simp [Sockets.create, sockets, Sockets.popRequest, Sockets.modifySCB, Sockets.goto]
    · simp only [Sockets.create]
      rw [Function.update_of_ne (by exact Nat.ne_of_lt hr), hscb]
      exact hc r (mem_served hp hq hserve)
    · simp only [Sockets.create]
      rw [Function.update_of_ne (by exact Nat.ne_of_lt hr), hscb]
      simp [sockets, Sockets.goto]
  | leave => exact hsame _ rfl
  | request => exact h.makeRequest ..
  | answer =>
    unfold Sockets.answer
    simp only
    split <;> exact hsame _ rfl
  | timeout => exact hsame _ rfl
  | shut => exact h.shutDown ..
  | @close u f k n _ _ _ _ hclose =>
    have := congrFun (Sockets.close_freed hclose) k
    rw [hfreed, Function.update_self] at this
    change s.freedSCB k = s.freedSCB k + 1 at this
    omega
  | spawn => exact hsame _ rfl

/-- **A peer keeps its peer.** -/
theorem SocketStep.keeps_peer (h : s.sockets.Paired) (ha : s.sockets.Allotted)
    (hc : s.AcceptsSingle a) (hs : SocketStep s a n) {k : Nat} (hk : (s.scb k).type = .peer) :
    (n.scb k).peer = (s.scb k).peer := by
  cases hs with
  | quiet | forget | pipe | sleep | leave | timeout | spawn => rfl
  | create f port fid _ =>
    have hne : k ≠ s.scbs := by
      rintro rfl
      have htype : (s.sockets.scb s.scbs).type = .peer := hk
      simp [(ha.blank s.scbs (Nat.le_refl _)).1, SCB.blank] at htype
    simp only [Sockets.create]
    rw [Function.update_of_ne (by exact hne)]
    rfl
  | @listen u j sock _ _ _ _ hzero =>
    have hne : k ≠ j := by
      rintro rfl
      exact h.refcount k hk hzero
    simp [Sockets.listen, Sockets.modifySCB, hne, sockets]
  | @refuse u l r m rs _ _ _ _ =>
    have hpop := congrArg SCB.peer ((s.sockets.goto u .busy).popRequest_scb l r k rs)
    exact hpop
  | @serve u l r m rs f fid hp hu hq hserve =>
    have hmem : r ∈ (s.sockets.scb l).queue := SCB.mem_queue hq
    have hr : (s.req r).socket < s.scbs := ha.req r (ha.queue l r hmem)
    have hkr : k ≠ (s.req r).socket := by
      rintro rfl
      exact hc r (mem_served hp hq hserve) hk
    have hks : k ≠ s.scbs := by
      rintro rfl
      have htype : (s.sockets.scb s.scbs).type = .peer := hk
      simp [(ha.blank s.scbs (Nat.le_refl _)).1, SCB.blank] at htype
    rw [Sockets.connectPeers_eq _ (by omega)]
    simp only [Function.update_of_ne hkr, Function.update_of_ne hks, Sockets.create]
    rw [Function.update_of_ne (by exact hks)]
    have hpop := congrArg SCB.peer ((s.sockets.goto u .busy).popRequest_scb l r k rs)
    exact hpop
  | request =>
    rw [Sockets.request_scb]
    rfl
  | answer =>
    unfold Sockets.answer
    simp only
    split <;> rfl
  | shut =>
    rw [(Sockets.shuts_shutDown ..).scb]
    rfl
  | close _ _ _ _ hclose =>
    rw [Sockets.close_scb hclose k]
    rfl

/-- The peer relation is a perfect matching, and no two pairs share a pipe. -/
structure PeersMatch (s : Streams) : Prop where
  peer : ∀ a, (s.scb a).type = .peer → ∃ b, (s.scb a).peer = some b ∧ (s.scb b).type = .peer ∧
    (s.scb b).peer = some a ∧ a ≠ b ∧
    ((s.scb a).send = none ∨ (s.scb a).send = (s.scb b).receive) ∧
    ((s.scb b).send = none ∨ (s.scb b).send = (s.scb a).receive)
  pipes : ∀ a c q, s.sockets.Ends a q → s.sockets.Ends c q → c = a ∨ (s.scb a).peer = some c

/-- Every step from `s` that meets `C` leaves peers their peers. -/
def KeepsPeers (C : Streams → StreamAction → Prop) (s : Streams) : Prop :=
  ∀ a s', C s a → s.perform a = some s' → ∀ k, (s.scb k).type = .peer →
    (s'.scb k).peer = (s.scb k).peer

theorem paired (hr : streamSys.ReachIf (fun s a => s.AcceptsSingle a) s)
    (hopen : ∀ k, s.freedSCB k = 0) : s.sockets.Paired := by
  induction hr with
  | init hi =>
    obtain ⟨serialPorts, rfl⟩ := hi
    constructor <;> simp [Sockets.Ends, sockets, Streams.initial]
  | @step s s' a hr hc hs ih =>
    have hstep := socketStep hs
    -- What was freed would still be.
    have hfreed : s'.freedSCB = s.freedSCB := by
      rcases hstep.freed with hf | ⟨-, k, -, hf⟩
      · exact hf
      · have hk : s'.freedSCB k = s.freedSCB k + 1 := by
          change s'.sockets.freedSCB k = _
          rw [hf, Function.update_self]
        rw [hopen k] at hk
        omega
    exact hstep.paired (ih fun k => hfreed ▸ hopen k) (allotted hr) hc hfreed

end Streams

/-- **Peers come in pairs with pipes of their own**, in every state that is reached before a socket
is closed, if no `Accept` answers a fid for a client that has a peer. -/
theorem peers_match (s : Streams) (hr : streamSys.ReachIf (fun s a => s.AcceptsSingle a) s)
    (hopen : ∀ k < s.scbs, s.freedSCB k = 0) :
    s.PeersMatch ∧ s.KeepsPeers fun s a => s.AcceptsSingle a := by
  have h := Streams.paired hr fun k => by
    by_cases hk : k < s.scbs
    · exact hopen k hk
    · exact ((Streams.allotted hr).blank k (Nat.le_of_not_lt hk)).2
  refine ⟨⟨fun a ha => ?_, h.pipes⟩, fun a s' hc hs k hk => ?_⟩
  · obtain ⟨b, hb, htype, hback, hne, hsend⟩ := h.peer a ha
    obtain ⟨a', ha', -, -, -, hsend'⟩ := h.peer b htype
    obtain rfl := Option.some.inj (ha'.symm.trans hback)
    exact ⟨b, hb, htype, hback, hne, hsend, hsend'⟩
  · exact (Streams.socketStep hs).keeps_peer h (Streams.allotted hr) hc hk

/-- Two clients connect, and one of the two pairs is shut down in one direction. -/
theorem peers_match_run : ∃ s, Streams.PeersMatch s ∧ (s.scb 1).peer = some 3 ∧
    (s.scb 2).peer = some 4 ∧ (s.scb 3).send = none ∧ (s.scb 3).receive = some 0 := by
  obtain ⟨s, hr, hp⟩ := Sys.reachIf_of_exec (M := streamSys) (C := fun s a => s.AcceptsSingle a)
    (fun s a => decide (s.AcceptsSingle a)) (Streams.initial 0)
    [.socket 0 7 true, .listen 0 0, .socket 0 0 true, .socket 0 0 true, .createThread 0,
      .createThread 0, .connect 1 1 7 true, .connect 2 2 7 true, .accept 0 0 ⟨true, true, true⟩,
      .accept 0 0 ⟨true, true, true⟩, .shutDown 0 3 .write]
    (fun s => decide ((∀ k < s.scbs, s.freedSCB k = 0) ∧ (s.scb 1).peer = some 3 ∧
      (s.scb 2).peer = some 4 ∧ (s.scb 3).send = none ∧ (s.scb 3).receive = some 0))
    (fun s a h => of_decide_eq_true h) ⟨0, rfl⟩ (by decide)
  obtain ⟨hopen, hp⟩ := of_decide_eq_true hp
  exact ⟨s, (peers_match s hr hopen).1, hp⟩

/-- Two threads connect the same socket at the same time, and both requests are accepted. -/
theorem not_peers_match : ¬ ∀ s, streamSys.ReachIf (fun s a => s.Alive a) s →
    (∀ k < s.scbs, s.freedSCB k = 0) → s.PeersMatch ∧ s.KeepsPeers fun s a => s.Alive a := by
  intro hall
  obtain ⟨s, hr, hp⟩ := Sys.reachIf_of_exec (M := streamSys) (C := fun s a => s.Alive a)
    (fun s a => decide (s.Alive a)) (Streams.initial 0)
    [.socket 0 7 true, .listen 0 0, .socket 0 0 true, .createThread 0, .createThread 0,
      .connect 1 1 7 true, .connect 2 1 7 true, .accept 0 0 ⟨true, true, true⟩,
      .accept 0 0 ⟨true, true, true⟩]
    (fun s => decide ((∀ k < s.scbs, s.freedSCB k = 0) ∧ (s.scb 2).type = .peer ∧
      (s.scb 2).peer = some 1 ∧ (s.scb 1).peer = some 3))
    (fun s a h => of_decide_eq_true h) ⟨0, rfl⟩ (by decide)
  obtain ⟨hopen, htype, hpeer, hother⟩ := of_decide_eq_true hp
  obtain ⟨b, hb, -, hback, -⟩ := (hall s hr hopen).1.peer 2 htype
  obtain rfl := Option.some.inj (hpeer.symm.trans hb)
  simp [hother] at hback

end TinyOS
