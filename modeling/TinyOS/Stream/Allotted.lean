import TinyOS.Stream.SocketSteps

/-!
# Nothing is named that was not allotted

SCBs, requests, pipes and threads are numbered in the order in which they were made. **Whatever names
one of them names one that was made**, whether or not it was freed since, and an SCB that was not
made yet is blank. This holds in every run (`allotted`); it is what makes a new number new.
-/

set_option autoImplicit false

namespace TinyOS

open Transition

namespace SocketPc

/-- The request whose answer a thread in `Connect` waits for. -/
def request : SocketPc → Option Nat
  | .connecting r _ => some r
  | _ => none

/-- The SCB at which a thread in `Accept` waits. -/
def listener : SocketPc → Option Nat
  | .accepting k _ => some k
  | _ => none

variable {pc : SocketPc}

@[simp] theorem request_wakeAcceptor (k : Nat) : (pc.wakeAcceptor k).request = pc.request := by
  cases pc <;> rfl

@[simp] theorem listener_wakeAcceptor (k : Nat) : (pc.wakeAcceptor k).listener = pc.listener := by
  cases pc <;> rfl

@[simp] theorem wakeAcceptor_unborn (k : Nat) : pc.wakeAcceptor k = .unborn ↔ pc = .unborn := by
  cases pc <;> simp [wakeAcceptor]

@[simp] theorem request_wakeConnector (r : Nat) : (pc.wakeConnector r).request = pc.request := by
  cases pc with
  | connecting r' w => cases w <;> rfl
  | _ => rfl

@[simp] theorem listener_wakeConnector (r : Nat) :
    (pc.wakeConnector r).listener = pc.listener := by
  cases pc with
  | connecting r' w => cases w <;> rfl
  | _ => rfl

@[simp] theorem wakeConnector_unborn (r : Nat) : pc.wakeConnector r = .unborn ↔ pc = .unborn := by
  cases pc with
  | connecting r' w => cases w <;> simp [wakeConnector]
  | _ => simp [wakeConnector]

end SocketPc

/-- An SCB that nobody has set up. -/
def SCB.blank : SCB where
  refcount := 0
  port := 0
  type := .unbound
  reqQueue := none
  peer := none
  send := none
  receive := none
  fid := 0

namespace Sockets

structure Allotted (n : Sockets) : Prop where
  blank : ∀ k, n.scbs ≤ k → n.scb k = .blank ∧ n.freedSCB k = 0
  socket : ∀ f k, n.socket f = some k → k < n.scbs
  port : ∀ p k, n.PortMap p = some k → k < n.scbs
  queue : ∀ l, ∀ r ∈ (n.scb l).queue, r < n.reqs
  req : ∀ r < n.reqs, (n.req r).socket < n.scbs
  request : ∀ u r, (n.pc u).request = some r → r < n.reqs
  listener : ∀ u l, (n.pc u).listener = some l → l < n.scbs
  peer : ∀ k j, (n.scb k).peer = some j → j < n.scbs
  send : ∀ k q, (n.scb k).send = some q → q < n.pipes
  receive : ∀ k q, (n.scb k).receive = some q → q < n.pipes
  born : ∀ u, n.pc u = .unborn ↔ n.threads ≤ u

variable {n n' : Sockets}

/-! ## What the wake-ups leave alone -/

theorem signalReqs_eq (n : Sockets) (k : Nat) :
    n.signalReqs k = { n with
      pc := (n.signalReqs k).pc, acceptors := (n.signalReqs k).acceptors
      accepted := (n.signalReqs k).accepted, connected := (n.signalReqs k).connected
      refused := (n.signalReqs k).refused } := by
  unfold signalReqs
  split <;> rfl

theorem signalReqs_pc (n : Sockets) (k v : Nat) :
    (n.signalReqs k).pc v = n.pc v ∨ (n.signalReqs k).pc v = (n.pc v).wakeAcceptor k := by
  unfold signalReqs
  split
  · exact .inl rfl
  · rename_i u us _
    by_cases hv : v = u
    · subst hv
      simp [goto]
    · simp [goto, hv]

/-- Where the threads wait, whether or not they were woken. -/
structure Waits (n n' : Sockets) : Prop where
  request : ∀ u, (n'.pc u).request = (n.pc u).request
  listener : ∀ u, (n'.pc u).listener = (n.pc u).listener
  born : ∀ u, n'.pc u = .unborn ↔ n.pc u = .unborn

theorem waits_signalReqs (n : Sockets) (k : Nat) : Waits n (n.signalReqs k) := by
  constructor <;> intro u <;> rcases n.signalReqs_pc k u with h | h <;> simp [h]

theorem waits_broadcastReqs (n : Sockets) (k : Nat) : Waits n (n.broadcastReqs k) := by
  constructor <;> intro u <;> simp [broadcastReqs]

theorem waits_signalConn (n : Sockets) (r : Nat) : Waits n (n.signalConn r) := by
  constructor <;> intro u <;> simp [signalConn]

/-! ## What the operations come to -/

theorem request_eq (n : Sockets) (u k l : Nat) : n.request u k l = { n with
    scb := Function.update n.scb l
      { n.scb l with reqQueue := (n.scb l).reqQueue.map (· ++ [n.reqs]) }
    req := Function.update n.req n.reqs { socket := k, accepted := false }
    reqs := n.reqs + 1
    pc := (n.request u k l).pc
    acceptors := (n.request u k l).acceptors } := by
  unfold request signalReqs modifySCB
  simp only
  split <;> rfl

theorem request_scb (n : Sockets) (u k l i : Nat) : (n.request u k l).scb i = { n.scb i with
    reqQueue := if i = l then (n.scb l).reqQueue.map (· ++ [n.reqs]) else (n.scb i).reqQueue } := by
  rw [request_eq]
  simp only [Function.update_apply]
  split
  · rename_i hi
    rw [hi]
  · rfl

theorem popRequest_scb (n : Sockets) (l r i : Nat) (rs : List Nat) :
    (n.popRequest l r rs).scb i = { n.scb i with
      refcount := if i = (n.req r).socket then 1 else (n.scb i).refcount
      reqQueue := if i = l then some rs else (n.scb i).reqQueue } := by
  unfold popRequest modifySCB
  by_cases hj : i = (n.req r).socket
  · subst hj
    by_cases hl : (n.req r).socket = l
    · subst hl
      simp
    · simp [hl]
  · by_cases hl : i = l
    · subst hl
      simp [hj]
    · simp [hj, hl]

/-- The pipes that a connection gets, as the server's ends. -/
def receivePipe (n : Sockets) (m : Mallocs) : Option Nat :=
  if m.receive then some n.pipes else none

def sendPipe (n : Sockets) (m : Mallocs) : Option Nat :=
  if m.send then some (if m.receive then n.pipes + 1 else n.pipes) else none

theorem connectPeers_eq (n : Sockets) {k j : Nat} (hkj : k ≠ j) (r : Nat) (m : Mallocs) :
    n.connectPeers k j r m = { n with
      scb := Function.update (Function.update n.scb k
          { n.scb k with
            refcount := 1, type := .peer, peer := some j
            send := n.sendPipe m, receive := n.receivePipe m }) j
          { n.scb j with
            type := .peer, peer := some k, reqQueue := none
            send := n.receivePipe m, receive := n.sendPipe m }
      pipes := (n.connectPeers k j r m).pipes
      req := Function.update n.req r { n.req r with accepted := true }
      pc := fun u => (n.pc u).wakeConnector r
      accepted := n.accepted ++ [r] } := by
  obtain ⟨scb, receive, send⟩ := m
  cases receive <;> cases send <;>
    simp [connectPeers, createPipe, newPipe, modifySCB, setAccepted, signalConn, receivePipe,
      sendPipe, Function.update_of_ne hkj.symm, Function.update_comm hkj]

section

variable {i l r u f : Nat} {rs : List Nat} {port fid : Int} {m : Mallocs}

/-- The sockets after `Accept` has taken the request `r` off the queue of `l` and made a server's
socket for it. -/
abbrev serve (n : Sockets) (u l r : Nat) (rs : List Nat) (f : Nat) (port fid : Int) (m : Mallocs) :
    Sockets :=
  (((n.goto u .busy).popRequest l r rs).create f port fid).connectPeers n.scbs
    (n.req r).socket r m

theorem serve_eq (hr : (n.req r).socket < n.scbs) : n.serve u l r rs f port fid m = { n with
    scb := (n.serve u l r rs f port fid m).scb
    scbs := n.scbs + 1
    pipes := (n.serve u l r rs f port fid m).pipes
    req := Function.update n.req r { n.req r with accepted := true }
    pc := fun v => ((n.goto u .busy).pc v).wakeConnector r
    socket := Function.update n.socket f (some n.scbs)
    accepted := n.accepted ++ [r] } := by
  rw [serve, connectPeers_eq _ (Nat.ne_of_gt hr)]
  rfl

/-- It is the same socket that made a request. -/
theorem serve_socket (hr : (n.req r).socket < n.scbs) (i : Nat) :
    ((n.serve u l r rs f port fid m).req i).socket = (n.req i).socket := by
  rw [serve_eq hr]
  simp only [Function.update_apply]
  split
  · rename_i hi
    rw [hi]
  · rfl

/-- The two sockets become peers of each other. -/
theorem serve_peers (hr : (n.req r).socket < n.scbs) (hi : i = (n.req r).socket ∨ i = n.scbs) :
    ((n.serve u l r rs f port fid m).scb i).type = .peer ∧
      ((n.serve u l r rs f port fid m).scb i).refcount = 1 ∧
      ((n.serve u l r rs f port fid m).scb i).reqQueue = none ∧
      ∀ j, ((n.serve u l r rs f port fid m).scb i).peer = some j →
        j = (n.req r).socket ∨ j = n.scbs := by
  rw [serve, connectPeers_eq _ (Nat.ne_of_gt hr)]
  rcases hi with rfl | rfl
  · have hpop := congrArg SCB.refcount
      ((n.goto u .busy).popRequest_scb l r (n.req r).socket rs)
    simp only [Function.update_self, Sockets.create, true_and]
    rw [Function.update_of_ne (by exact Nat.ne_of_lt hr), hpop]
    exact ⟨if_pos rfl, fun j hj => .inr (Option.some.inj hj).symm⟩
  · simp only [Function.update_of_ne (Nat.ne_of_gt hr), Function.update_self, true_and]
    refine ⟨?_, fun j hj => .inl (Option.some.inj hj).symm⟩
    simp [Sockets.create, Sockets.popRequest, Sockets.modifySCB, Sockets.goto]

/-- Of the others only the listener changes. -/
theorem serve_scb (hr : (n.req r).socket < n.scbs) (hi : i ≠ (n.req r).socket)
    (hi' : i ≠ n.scbs) : (n.serve u l r rs f port fid m).scb i =
      { n.scb i with reqQueue := if i = l then some rs else (n.scb i).reqQueue } := by
  have hpop := (n.goto u .busy).popRequest_scb l r i rs
  rw [if_neg (show i ≠ ((n.goto u .busy).req r).socket from hi)] at hpop
  rw [serve, connectPeers_eq _ (Nat.ne_of_gt hr)]
  simp only [Function.update_of_ne hi, Function.update_of_ne hi', Sockets.create]
  rw [Function.update_of_ne (by exact hi')]
  exact hpop

/-- No queue gets a request. -/
theorem serve_queue (hr : (n.req r).socket < n.scbs) (hq : (n.scb l).reqQueue = some (r :: rs))
    (i : Nat) : ((n.serve u l r rs f port fid m).scb i).queue ⊆ (n.scb i).queue := by
  by_cases hi : i = (n.req r).socket
  · rw [SCB.queue, (serve_peers hr (.inl hi)).2.2.1]
    exact List.nil_subset _
  by_cases hi' : i = n.scbs
  · rw [SCB.queue, (serve_peers hr (.inr hi')).2.2.1]
    exact List.nil_subset _
  rw [serve_scb hr hi hi', SCB.queue]
  by_cases hl : i = l
  · simp only [hl, SCB.queue_eq hq]
    exact List.subset_cons_self r rs
  · simp only [if_neg hl]
    exact List.Subset.refl _

end

/-- An end that is left was there before. -/
theorem eq_of_lost {o o' : Option Nat} {q : Nat} (h : o' = o ∨ o' = none) (hq : o' = some q) :
    o = some q := by
  rcases h with rfl | rfl
  · exact hq
  · exact absurd hq (by simp)

/-- SCBs have lost pipes, and nothing else has changed. -/
structure Shuts (n n' : Sockets) : Prop where
  eq : n' = { n with scb := n'.scb }
  scb : ∀ k, n'.scb k =
    { n.scb k with send := (n'.scb k).send, receive := (n'.scb k).receive }
  send : ∀ k, (n'.scb k).send = (n.scb k).send ∨ (n'.scb k).send = none
  receive : ∀ k, (n'.scb k).receive = (n.scb k).receive ∨ (n'.scb k).receive = none

@[refl] theorem Shuts.refl (n : Sockets) : Shuts n n :=
  ⟨rfl, fun _ => rfl, fun _ => .inl rfl, fun _ => .inl rfl⟩

theorem Shuts.trans {n n' n'' : Sockets} (h : Shuts n n') (h' : Shuts n' n'') : Shuts n n'' where
  eq := by
    rw [h'.eq, h.eq]
  scb k := by
    rw [h'.scb k, h.scb k]
  send k := by
    rcases h'.send k with he | he
    · rw [he]
      exact h.send k
    · exact .inr he
  receive k := by
    rcases h'.receive k with he | he
    · rw [he]
      exact h.receive k
    · exact .inr he

theorem shuts_modifySCB (n : Sockets) (k : Nat) {f : SCB → SCB}
    (hf : ∀ b, f b = { b with send := (f b).send, receive := (f b).receive })
    (hsend : ∀ b, (f b).send = b.send ∨ (f b).send = none)
    (hreceive : ∀ b, (f b).receive = b.receive ∨ (f b).receive = none) :
    Shuts n (n.modifySCB k f) := by
  have hscb : ∀ j, (n.modifySCB k f).scb j = if j = k then f (n.scb k) else n.scb j := fun j => by
    simp only [modifySCB, Function.update_apply]
  refine ⟨rfl, fun j => ?_, fun j => ?_, fun j => ?_⟩ <;> rw [hscb] <;> by_cases hj : j = k
  · subst hj
    rw [if_pos rfl]
    exact hf _
  · rw [if_neg hj]
  · subst hj
    rw [if_pos rfl]
    exact hsend _
  · rw [if_neg hj]
    exact .inl rfl
  · subst hj
    rw [if_pos rfl]
    exact hreceive _
  · rw [if_neg hj]
    exact .inl rfl

theorem shuts_shutRead (n : Sockets) (k j : Nat) : Shuts n (n.shutRead k j) := by
  unfold shutRead
  split
  · rfl
  · refine Shuts.trans (shuts_modifySCB n k ?_ ?_ ?_) (shuts_modifySCB _ j ?_ ?_ ?_) <;>
      intro b <;> simp

theorem shuts_shutWrite (n : Sockets) (k : Nat) : Shuts n (n.shutWrite k) := by
  unfold shutWrite
  split
  · rfl
  · refine shuts_modifySCB n k ?_ ?_ ?_ <;> intro b <;> simp

theorem shuts_shutDown (n : Sockets) (how : ShutdownMode) (target : Option Nat) :
    Shuts n (n.shutDown how target) := by
  unfold shutDown
  cases target with
  | none => rfl
  | some k =>
    simp only
    split
    · rename_i j _ _
      have hr : Shuts n (if how = .read ∨ how = .both then n.shutRead k j else n) := by
        split
        · exact shuts_shutRead n k j
        · rfl
      split
      · exact hr.trans (shuts_shutWrite _ k)
      · exact hr
    · rfl

/-- A close frees the SCB, and no other one. -/
theorem close_freed {target : Option Nat} {k : Nat} (hc : n.close target k = some n') :
    n'.freedSCB = Function.update n.freedSCB k (n.freedSCB k + 1) := by
  unfold close at hc
  split at hc
  · cases hc
    rfl
  · cases hc
    unfold listenerClose
    simp only
    split <;> rfl
  · obtain ⟨n₁, hn₁, rfl⟩ := Option.map_eq_some_iff.mp hc
    unfold peerClose at hn₁
    have hs := (shuts_shutDown n .both target).eq
    simp only at hn₁
    split at hn₁
    · exact absurd hn₁ (by simp)
    · cases hn₁
      simp only [freeSCB, modifySCB]
      rw [hs]

theorem close_eq {target : Option Nat} {k : Nat} (hc : n.close target k = some n') : n' = { n with
    scb := n'.scb, freedSCB := n'.freedSCB, PortMap := n'.PortMap
    acceptors := n'.acceptors, pc := n'.pc } := by
  unfold close at hc
  split at hc
  · cases hc
    rfl
  · cases hc
    unfold listenerClose
    simp only
    split <;> rfl
  · obtain ⟨n₁, hn₁, rfl⟩ := Option.map_eq_some_iff.mp hc
    unfold peerClose at hn₁
    have hs := (shuts_shutDown n .both target).eq
    simp only at hn₁
    split at hn₁
    · exact absurd hn₁ (by simp)
    · cases hn₁
      simp only [freeSCB, modifySCB]
      rw [hs]

/-- What it leaves alone. -/
theorem close_scb {target : Option Nat} {k : Nat} (hc : n.close target k = some n') (i : Nat) :
    n'.scb i = { n.scb i with
      refcount := (n'.scb i).refcount, send := (n'.scb i).send
      receive := (n'.scb i).receive } := by
  unfold close at hc
  split at hc
  · cases hc
    rfl
  · cases hc
    simp only [freeSCB, listenerClose]
    split <;> simp only [modifySCB, broadcastReqs, Function.update_apply] <;> split <;> simp_all
  · obtain ⟨n₁, hn₁, rfl⟩ := Option.map_eq_some_iff.mp hc
    unfold peerClose at hn₁
    have hs := (shuts_shutDown n .both target).scb
    simp only at hn₁
    split at hn₁
    · exact absurd hn₁ (by simp)
    · cases hn₁
      simp only [freeSCB, modifySCB, Function.update_apply]
      split
      · rename_i he
        rw [← he, hs]
      · rw [hs]

/-- It moves no thread, and wakes those in `Accept`. -/
theorem close_pc {target : Option Nat} {k : Nat} (hc : n.close target k = some n') (u : Nat) :
    n'.pc u = n.pc u ∨ n'.pc u = (n.pc u).wakeAcceptor k := by
  unfold close at hc
  split at hc
  · cases hc
    exact .inl rfl
  · cases hc
    simp only [freeSCB, listenerClose]
    split <;> exact .inr rfl
  · obtain ⟨n₁, hn₁, rfl⟩ := Option.map_eq_some_iff.mp hc
    unfold peerClose at hn₁
    have hs := (shuts_shutDown n .both target).eq
    simp only at hn₁
    split at hn₁
    · exact absurd hn₁ (by simp)
    · cases hn₁
      simp only [freeSCB, modifySCB]
      rw [hs]
      exact .inl rfl

/-! ## The invariant is kept -/

/-- Only the threads changed, and were woken. -/
theorem Allotted.waits (h : n.Allotted) (hw : Waits n n')
    (he : n' = { n with
      pc := n'.pc, acceptors := n'.acceptors, accepted := n'.accepted
      connected := n'.connected, refused := n'.refused }) : n'.Allotted := by
  obtain ⟨hrequest, hlistener, hborn⟩ := hw
  rw [he]
  constructor <;> simp only [hrequest, hlistener, hborn]
  case blank => exact h.blank
  case socket => exact h.socket
  case port => exact h.port
  case queue => exact h.queue
  case req => exact h.req
  case request => exact h.request
  case listener => exact h.listener
  case peer => exact h.peer
  case send => exact h.send
  case receive => exact h.receive
  case born => exact h.born

/-- A thread that was born goes to another place. -/
theorem Allotted.goto (h : n.Allotted) {u : Nat} {pc : SocketPc} (hu : n.pc u ≠ .unborn)
    (hpc : pc ≠ .unborn) (hrequest : ∀ r, pc.request = some r → r < n.reqs)
    (hlistener : ∀ l, pc.listener = some l → l < n.scbs) : (n.goto u pc).Allotted := by
  constructor <;> simp only [Sockets.goto, Function.update_apply]
  case blank => exact h.blank
  case socket => exact h.socket
  case port => exact h.port
  case queue => exact h.queue
  case req => exact h.req
  case request =>
    intro v r hr
    split at hr
    · exact hrequest r hr
    · exact h.request v r hr
  case listener =>
    intro v l hl
    split at hl
    · exact hlistener l hl
    · exact h.listener v l hl
  case peer => exact h.peer
  case send => exact h.send
  case receive => exact h.receive
  case born =>
    intro v
    by_cases hv : v = u
    · subst hv
      simpa [hpc, h.born] using hu
    · rw [if_neg hv, h.born]

theorem Allotted.goto_busy (h : n.Allotted) {u : Nat} (hu : n.pc u ≠ .unborn) :
    (n.goto u .busy).Allotted :=
  h.goto hu (by simp) (by simp [SocketPc.request]) (by simp [SocketPc.listener])

/-- An SCB that was allotted changes; what it names was allotted too. -/
theorem Allotted.modifySCB (h : n.Allotted) {k : Nat} {f : SCB → SCB} (hk : k < n.scbs)
    (hqueue : ∀ r ∈ (f (n.scb k)).queue, r < n.reqs)
    (hpeer : ∀ j, (f (n.scb k)).peer = some j → j < n.scbs)
    (hsend : ∀ q, (f (n.scb k)).send = some q → q < n.pipes)
    (hreceive : ∀ q, (f (n.scb k)).receive = some q → q < n.pipes) :
    (n.modifySCB k f).Allotted := by
  constructor <;> simp only [Sockets.modifySCB, Function.update_apply]
  case blank =>
    intro j hj
    rw [if_neg (by omega)]
    exact h.blank j hj
  case socket => exact h.socket
  case port => exact h.port
  case queue =>
    intro l r hr
    split at hr
    · exact hqueue r hr
    · exact h.queue l r hr
  case req => exact h.req
  case request => exact h.request
  case listener => exact h.listener
  case peer =>
    intro l j hj
    split at hj
    · exact hpeer j hj
    · exact h.peer l j hj
  case send =>
    intro l q hq
    split at hq
    · exact hsend q hq
    · exact h.send l q hq
  case receive =>
    intro l q hq
    split at hq
    · exact hreceive q hq
    · exact h.receive l q hq
  case born => exact h.born

/-- The same, if no more is named than before. -/
theorem Allotted.modifySCB' (h : n.Allotted) {k : Nat} {f : SCB → SCB} (hk : k < n.scbs)
    (hqueue : (f (n.scb k)).queue ⊆ (n.scb k).queue)
    (hpeer : (f (n.scb k)).peer = (n.scb k).peer ∨ (f (n.scb k)).peer = none)
    (hsend : (f (n.scb k)).send = (n.scb k).send ∨ (f (n.scb k)).send = none)
    (hreceive : (f (n.scb k)).receive = (n.scb k).receive ∨ (f (n.scb k)).receive = none) :
    (n.modifySCB k f).Allotted := by
  refine h.modifySCB hk (fun r hr => h.queue k r (hqueue hr)) (fun j hj => ?_) (fun q hq => ?_)
    (fun q hq => ?_)
  · rcases hpeer with he | he <;> rw [he] at hj
    · exact h.peer k j hj
    · exact absurd hj (by simp)
  · rcases hsend with he | he <;> rw [he] at hq
    · exact h.send k q hq
    · exact absurd hq (by simp)
  · rcases hreceive with he | he <;> rw [he] at hq
    · exact h.receive k q hq
    · exact absurd hq (by simp)

theorem Allotted.newPipe (h : n.Allotted) (malloc : Bool) : (n.newPipe malloc).2.Allotted ∧
    n.pipes ≤ (n.newPipe malloc).2.pipes ∧
    ∀ q, (n.newPipe malloc).1 = some q → q < (n.newPipe malloc).2.pipes := by
  unfold Sockets.newPipe
  split
  · refine ⟨?_, Nat.le_succ _, by simp⟩
    constructor <;> simp only
    case blank => exact h.blank
    case socket => exact h.socket
    case port => exact h.port
    case queue => exact h.queue
    case req => exact h.req
    case request => exact h.request
    case listener => exact h.listener
    case peer => exact h.peer
    case send => exact fun k q hq => Nat.lt_succ_of_lt (h.send k q hq)
    case receive => exact fun k q hq => Nat.lt_succ_of_lt (h.receive k q hq)
    case born => exact h.born
  · exact ⟨h, Nat.le_refl _, by simp⟩

theorem Allotted.forget (h : n.Allotted) (fs : List Nat) : (n.forget fs).Allotted := by
  constructor <;> simp only [Sockets.forget]
  case socket =>
    intro f k hf
    split at hf
    · exact absurd hf (by simp)
    · exact h.socket f k hf
  case blank => exact h.blank
  case port => exact h.port
  case queue => exact h.queue
  case req => exact h.req
  case request => exact h.request
  case listener => exact h.listener
  case peer => exact h.peer
  case send => exact h.send
  case receive => exact h.receive
  case born => exact h.born

theorem Allotted.create (h : n.Allotted) (f : Nat) (port fid : Int) :
    (n.create f port fid).Allotted := by
  constructor <;> simp only [Sockets.create, Function.update_apply]
  case blank =>
    intro k hk
    rw [if_neg (by omega)]
    exact h.blank k (by omega)
  case socket =>
    intro g k hg
    split at hg
    · have := Option.some.inj hg
      omega
    · exact Nat.lt_succ_of_lt (h.socket g k hg)
  case port => exact fun p k hp => Nat.lt_succ_of_lt (h.port p k hp)
  case queue =>
    intro l r hr
    split at hr
    · simp [SCB.queue] at hr
    · exact h.queue l r hr
  case req => exact fun r hr => Nat.lt_succ_of_lt (h.req r hr)
  case request => exact h.request
  case listener => exact fun u l hu => Nat.lt_succ_of_lt (h.listener u l hu)
  case peer =>
    intro k j hj
    split at hj
    · simp at hj
    · exact Nat.lt_succ_of_lt (h.peer k j hj)
  case send =>
    intro k q hq
    split at hq
    · simp at hq
    · exact h.send k q hq
  case receive =>
    intro k q hq
    split at hq
    · simp at hq
    · exact h.receive k q hq
  case born => exact h.born

theorem Allotted.setPort (h : n.Allotted) (p : Int) {o : Option Nat}
    (ho : ∀ k, o = some k → k < n.scbs) :
    ({ n with PortMap := Function.update n.PortMap p o } : Sockets).Allotted := by
  refine ⟨h.blank, h.socket, fun q k hq => ?_, h.queue, h.req, h.request, h.listener, h.peer,
    h.send, h.receive, h.born⟩
  simp only [Function.update_apply] at hq
  split at hq
  · exact ho k hq
  · exact h.port q k hq

theorem Allotted.freeSCB (h : n.Allotted) {k : Nat} (hk : k < n.scbs) : (n.freeSCB k).Allotted := by
  refine ⟨fun j hj => ?_, h.socket, h.port, h.queue, h.req, h.request, h.listener, h.peer,
    h.send, h.receive, h.born⟩
  simp only [Sockets.freeSCB] at hj ⊢
  rw [Function.update_of_ne (by omega)]
  exact h.blank j hj

theorem Allotted.popRequest (h : n.Allotted) {l r : Nat} {rs : List Nat}
    (hq : (n.scb l).reqQueue = some (r :: rs)) : (n.popRequest l r rs).Allotted := by
  have hqueue := SCB.queue_eq hq
  have hl : l < n.scbs := by
    by_contra hlt
    simp [(h.blank l (by omega)).1, SCB.blank, SCB.queue] at hqueue
  have hr := h.req r (h.queue l r (by simp [hqueue]))
  refine Allotted.modifySCB' (Allotted.modifySCB' h hl ?_ (.inl rfl) (.inl rfl) (.inl rfl)) hr
    (List.Subset.refl _) (.inl rfl) (.inl rfl) (.inl rfl)
  rw [hqueue]
  exact List.subset_cons_self r rs

theorem Allotted.createPipe (h : n.Allotted) {k j : Nat} (hk : k < n.scbs) (hj : j < n.scbs)
    (m : Mallocs) : (n.createPipe k j m).Allotted := by
  have hscbs : ∀ (n : Sockets) (malloc : Bool), (n.newPipe malloc).2.scbs = n.scbs :=
    fun n malloc => by cases malloc <;> rfl
  obtain ⟨h₁, hle, hreceive⟩ := h.newPipe m.receive
  obtain ⟨h₂, hle', hsend⟩ := h₁.newPipe m.send
  unfold Sockets.createPipe
  simp only
  refine Allotted.modifySCB (Allotted.modifySCB h₂ ?_ (h₂.queue k) (h₂.peer k) hsend ?_) ?_
    (Allotted.queue ?_ j) (Allotted.peer ?_ j) ?_ ?_
  · rwa [hscbs, hscbs]
  · exact fun q hq => Nat.lt_of_lt_of_le (hreceive q hq) hle'
  · rwa [Sockets.modifySCB, hscbs, hscbs]
  · refine Allotted.modifySCB h₂ (by rwa [hscbs, hscbs]) (h₂.queue k) (h₂.peer k) hsend ?_
    exact fun q hq => Nat.lt_of_lt_of_le (hreceive q hq) hle'
  · refine Allotted.modifySCB h₂ (by rwa [hscbs, hscbs]) (h₂.queue k) (h₂.peer k) hsend ?_
    exact fun q hq => Nat.lt_of_lt_of_le (hreceive q hq) hle'
  · exact fun q hq => Nat.lt_of_lt_of_le (hreceive q hq) hle'
  · exact hsend

theorem Allotted.setAccepted (h : n.Allotted) (r : Nat) : (n.setAccepted r).Allotted := by
  refine ⟨h.blank, h.socket, h.port, h.queue, fun r' hr' => ?_, h.request, h.listener, h.peer,
    h.send, h.receive, h.born⟩
  simp only [Sockets.setAccepted, Function.update_apply]
  split
  · rename_i he
    subst he
    exact h.req r' hr'
  · exact h.req r' hr'

theorem Allotted.connectPeers (h : n.Allotted) {k j : Nat} (hk : k < n.scbs) (hj : j < n.scbs)
    (r : Nat) (m : Mallocs) : (n.connectPeers k j r m).Allotted := by
  have hpeer : ∀ {n : Sockets} {k j : Nat} {f : SCB → SCB}, n.Allotted → k < n.scbs → j < n.scbs →
      (f (n.scb k)).queue ⊆ (n.scb k).queue → (f (n.scb k)).peer = some j →
      (f (n.scb k)).send = (n.scb k).send → (f (n.scb k)).receive = (n.scb k).receive →
      (n.modifySCB k f).Allotted := by
    intro n k j f h hk hj hqueue hp hs hr
    refine h.modifySCB hk (fun r hr => h.queue k r (hqueue hr)) (fun i hi => ?_)
      (by rw [hs]; exact h.send k) (by rw [hr]; exact h.receive k)
    obtain rfl := Option.some.inj (hp.symm.trans hi)
    exact hj
  have h₁ := hpeer (f := fun b => { b with refcount := 1, type := .peer, peer := some j }) h hk hj
    (List.Subset.refl _) rfl rfl rfl
  have h₂ := hpeer (f := fun b => { b with type := .peer, peer := some k, reqQueue := none })
    h₁ hj hk (by simp [SCB.queue]) rfl rfl rfl
  have h₃ := (h₂.createPipe hk hj m).setAccepted r
  exact h₃.waits (waits_signalConn _ r) rfl

theorem Allotted.shuts (h : n.Allotted) (hs : Shuts n n') : n'.Allotted := by
  have hscb := hs.scb
  have hsend := hs.send
  have hreceive := hs.receive
  rw [hs.eq]
  constructor
  case blank =>
    intro k hk
    obtain ⟨hblank, hfreed⟩ := h.blank k hk
    refine ⟨?_, hfreed⟩
    have hs := hsend k
    have hr := hreceive k
    simp only [hblank, SCB.blank, or_self] at hs hr
    simp only
    rw [hscb k, hs, hr, hblank]
    rfl
  case socket => exact h.socket
  case port => exact h.port
  case queue =>
    intro l r hr
    simp only at hr
    rw [hscb l] at hr
    exact h.queue l r hr
  case req => exact h.req
  case request => exact h.request
  case listener => exact h.listener
  case peer =>
    intro k j hj
    simp only at hj
    rw [hscb k] at hj
    exact h.peer k j hj
  case send => exact fun k q hq => h.send k q (eq_of_lost (hsend k) hq)
  case receive => exact fun k q hq => h.receive k q (eq_of_lost (hreceive k) hq)
  case born => exact h.born

theorem Allotted.listenerClose (h : n.Allotted) {k : Nat} (hk : k < n.scbs) :
    (n.listenerClose k).Allotted := by
  have h₁ := Allotted.modifySCB' (f := fun b => { b with refcount := 0 }) h hk
    (List.Subset.refl _) (.inl rfl) (.inl rfl) (.inl rfl)
  have h₂ := h₁.waits (waits_broadcastReqs _ k) rfl
  unfold Sockets.listenerClose
  simp only
  split
  · exact h₂.setPort _ (by simp)
  · exact h₂

theorem Allotted.close (h : n.Allotted) {target : Option Nat} {k : Nat} (hk : k < n.scbs)
    (hc : n.close target k = some n') : n'.Allotted := by
  unfold Sockets.close at hc
  split at hc
  · cases hc
    exact h.freeSCB hk
  · cases hc
    refine (h.listenerClose hk).freeSCB ?_
    unfold Sockets.listenerClose
    simp only
    split <;> exact hk
  · obtain ⟨n₁, hn₁, rfl⟩ := Option.map_eq_some_iff.mp hc
    unfold Sockets.peerClose at hn₁
    have hs := shuts_shutDown n .both target
    have h₁ := h.shuts hs
    simp only at hn₁
    split at hn₁
    · exact absurd hn₁ (by simp)
    · rename_i j hj
      cases hn₁
      refine Allotted.freeSCB (h₁.modifySCB' (h₁.peer k j hj) (List.Subset.refl _) (.inl rfl) (.inl rfl)
        (.inr rfl)) ?_
      change k < (n.shutDown .both target).scbs
      rwa [hs.eq]

theorem Allotted.makeRequest (h : n.Allotted) {u k l : Nat} (hu : n.pc u ≠ .unborn) (hk : k < n.scbs)
    (hl : l < n.scbs) : (n.request u k l).Allotted := by
  have h₁ : ({ n with
      req := Function.update n.req n.reqs { socket := k, accepted := false }
      reqs := n.reqs + 1 } : Sockets).Allotted := by
    refine ⟨h.blank, h.socket, h.port, fun l r hr => Nat.lt_succ_of_lt (h.queue l r hr),
      fun r hr => ?_, fun u r hr => Nat.lt_succ_of_lt (h.request u r hr), h.listener, h.peer,
      h.send, h.receive, h.born⟩
    simp only [Function.update_apply]
    split
    · exact hk
    · have hr : r < n.reqs + 1 := hr
      exact h.req r (by omega)
  have h₂ := h₁.modifySCB (f := fun b => { b with reqQueue := b.reqQueue.map (· ++ [n.reqs]) }) hl
    (fun r hr => ?_) (h₁.peer l) (h₁.send l) (h₁.receive l)
  · obtain ⟨n₂, hn₂⟩ : ∃ n₂, n₂ = ({ n with
        req := Function.update n.req n.reqs { socket := k, accepted := false }
        reqs := n.reqs + 1 } : Sockets).modifySCB l fun b =>
          { b with reqQueue := b.reqQueue.map (· ++ [n.reqs]) } := ⟨_, rfl⟩
    have hreqs : (n₂.signalReqs l).reqs = n.reqs + 1 := by rw [signalReqs_eq, hn₂]; rfl
    rw [← hn₂] at h₂
    have h₃ := h₂.waits (waits_signalReqs n₂ l) (signalReqs_eq n₂ l)
    rw [Sockets.request, ← hn₂]
    refine h₃.goto (fun hb => hu ?_) (by simp) (fun r hr' => ?_) (by simp [SocketPc.listener])
    · have hb₂ := ((waits_signalReqs n₂ l).born u).mp hb
      rwa [hn₂] at hb₂
    · obtain rfl := Option.some.inj hr'
      rw [hreqs]
      exact Nat.lt_succ_self n.reqs
  · have hm : r ∈ (n.scb l).queue ∨ r = n.reqs := by
      simp only [SCB.queue] at hr ⊢
      cases hq : (n.scb l).reqQueue with
      | none => simp [hq] at hr
      | some q => simpa [hq] using hr
    rcases hm with hm | rfl
    · exact Nat.lt_succ_of_lt (h.queue l r hm)
    · exact Nat.lt_succ_self n.reqs

theorem Allotted.spawn (h : n.Allotted) : n.spawn.Allotted := by
  constructor <;> simp only [Sockets.spawn, Sockets.goto, Function.update_apply]
  case blank => exact h.blank
  case socket => exact h.socket
  case port => exact h.port
  case queue => exact h.queue
  case req => exact h.req
  case request =>
    intro v r hr
    split at hr
    · simp [SocketPc.request] at hr
    · exact h.request v r hr
  case listener =>
    intro v l hl
    split at hl
    · simp [SocketPc.listener] at hl
    · exact h.listener v l hl
  case peer => exact h.peer
  case send => exact h.send
  case receive => exact h.receive
  case born =>
    intro v
    have hb := h.born v
    split
    · simp [*]
    · rw [hb]
      omega

end Sockets

namespace Streams

variable {s : Streams} {a : StreamAction} {n : Sockets}

/-- What a fid denotes is the socket of an FCB. -/
theorem denoted_lt (h : s.sockets.Allotted) {p k : Nat} {sock : Int}
    (hk : denoted s.toFileTables p sock = some k) : k < s.scbs := by
  unfold denoted at hk
  obtain ⟨st, hst, hk⟩ := Option.bind_eq_some_iff.mp hk
  obtain ⟨f, -, hf⟩ := Option.bind_eq_some_iff.mp hst
  exact h.socket f k (Option.bind_eq_some_iff.mpr ⟨st, hf, hk⟩)

/-- A thread that pops a request was born. -/
theorem busy_ne_unborn {u : Nat} {pc : StreamPc} (hu : s.pc u = pc) (hpc : pc ≠ .unborn) :
    s.sockets.pc u ≠ .unborn := by
  change (s.pc u).socketPc ≠ .unborn
  rw [hu]
  cases pc <;> simp_all [StreamPc.socketPc]

theorem pops_ne_unborn {u l : Nat} (hu : s.pc u = .running ∨ s.pc u = .accepting l true) :
    s.sockets.pc u ≠ .unborn := by
  rcases hu with hu | hu <;> exact busy_ne_unborn hu (by simp)

theorem SocketStep.allotted (h : s.sockets.Allotted) (hs : SocketStep s a n) : n.Allotted := by
  cases hs with
  | quiet => exact h
  | forget fs => exact h.forget fs
  | pipe fs => exact (h.newPipe true).1.forget fs
  | create f port fid _ => exact h.create f port fid
  | @listen u k sock _ hk =>
    have hk := denoted_lt h hk
    exact (h.modifySCB' hk (by simp [SCB.queue]) (.inr rfl) (.inr rfl) (.inr rfl)).setPort _
      (fun j hj => Option.some.inj hj ▸ hk)
  | @sleep u l sock hu hl =>
    have hl := denoted_lt h hl
    have hgoto : (s.sockets.goto u (.accepting l false)).Allotted :=
      h.goto (busy_ne_unborn hu (by simp)) (by simp) (by simp [SocketPc.request])
        (fun j hj => Option.some.inj hj ▸ hl)
    exact hgoto.waits ⟨fun _ => rfl, fun _ => rfl, fun _ => Iff.rfl⟩ rfl
  | @refuse u l r m rs _ hu hq _ =>
    have hgoto := h.goto_busy (pops_ne_unborn hu)
    exact (hgoto.popRequest hq).waits (Sockets.waits_signalConn _ r) rfl
  | @serve u l r m rs f fid _ hu hq _ =>
    have hgoto := h.goto_busy (pops_ne_unborn hu)
    have hcreate := (hgoto.popRequest hq).create f (s.scb l).port fid
    have hr := h.req r (h.queue l r ?_)
    · exact hcreate.connectPeers (Nat.lt_succ_self _) (Nat.lt_succ_of_lt hr) r m
    · exact SCB.mem_queue hq
  | leave hu _ => exact h.goto_busy (busy_ne_unborn hu (by simp))
  | @request u k l sock port malloc _ hu hport _ hk _ =>
    exact h.makeRequest (busy_ne_unborn hu (by simp)) (denoted_lt h hk) (h.port port l hport)
  | @answer u r w hu hw =>
    have hgoto := h.goto_busy (busy_ne_unborn hu (by simp))
    unfold Sockets.answer
    simp only
    split <;> exact hgoto.waits ⟨fun _ => rfl, fun _ => rfl, fun _ => Iff.rfl⟩ rfl
  | @timeout u r _ hu =>
    refine h.goto (busy_ne_unborn hu (by simp)) (by simp) (fun r' hr' => ?_)
      (by simp [SocketPc.listener])
    refine h.request u r' ?_
    change (s.pc u).socketPc.request = some r'
    rw [hu]
    exact hr'
  | shut => exact h.shuts (Sockets.shuts_shutDown ..)
  | @close u f k n _ _ hst _ hc =>
    refine h.close (h.socket f k ?_) hc
    change (s.FT f).stream.bind Stream.socket? = some k
    rw [hst]
    rfl
  | spawn => exact h.spawn

/-- A step frees one SCB at most. -/
theorem SocketStep.freed (hs : SocketStep s a n) : n.freedSCB = s.freedSCB ∨ ∃ u k,
    closer a = some u ∧ n.freedSCB = Function.update s.freedSCB k (s.freedSCB k + 1) := by
  cases hs with
  | quiet | forget | pipe | create | listen | sleep | refuse | leave | timeout | spawn =>
    exact .inl rfl
  | @serve u l r m =>
    refine .inl ?_
    obtain ⟨scb, receive, send⟩ := m
    cases receive <;> cases send <;> rfl
  | request =>
    rw [Sockets.request_eq]
    exact .inl rfl
  | answer =>
    unfold Sockets.answer
    simp only
    split <;> exact .inl rfl
  | shut =>
    rw [(Sockets.shuts_shutDown ..).eq]
    exact .inl rfl
  | @close u f k n hu _ _ _ hc => exact .inr ⟨u, k, hu, Sockets.close_freed hc⟩

theorem allotted_initial (serialPorts : Nat) : (Streams.initial serialPorts).sockets.Allotted := by
  have hpc : ∀ u, (Streams.initial serialPorts).sockets.pc u = if u = 0 then .busy else .unborn := by
    intro u
    change (if u = 0 then StreamPc.running else .unborn).socketPc = _
    split <;> rfl
  constructor
  case request =>
    intro u r hr
    rw [hpc] at hr
    split at hr <;> simp [SocketPc.request] at hr
  case listener =>
    intro u l hl
    rw [hpc] at hl
    split at hl <;> simp [SocketPc.listener] at hl
  case born =>
    intro u
    rw [hpc]
    change _ ↔ 1 ≤ u
    split <;> simp <;> omega
  all_goals simp [sockets, Streams.initial, FileTables.initializeFiles, SCB.blank, SCB.queue]

/-- **In every run, nothing is named that was not allotted.** -/
theorem allotted {C : Streams → StreamAction → Prop} {s : Streams}
    (hr : streamSys.ReachIf C s) : s.sockets.Allotted := by
  induction hr with
  | init hi =>
    obtain ⟨serialPorts, rfl⟩ := hi
    exact allotted_initial serialPorts
  | step _ _ hs ih => exact (socketStep hs).allotted ih

end Streams

end TinyOS
