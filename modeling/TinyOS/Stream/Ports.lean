import Mathlib
import TinyOS.Stream.Holding

/-!
# Listeners and ports

`PortMap` and the types of the SCBs agree: a port that is taken has one live listener, and every
live listener has its port. A socket is given a type at most once.

This holds **as long as `Listen` leaves the clients alone, and so does `Close`** (`ports_agree`).
`sys_Listen` looks at the `refcount` of a socket, which `Connect` does not raise, so a socket whose
request waits in a queue can still become a listener; and the `Accept` that takes the request makes
it a peer (`not_ports_agree`). A client that is closed while its request waits leaves a pointer to
its SCB in the queue, and the next `Socket` may be given the block. What the peers of closed sockets
still do to the blocks is to set a `send` or a `receive`, of which nothing is said here.
-/

set_option autoImplicit false

namespace TinyOS

open Transition

namespace Sockets

structure Ported (n : Sockets) : Prop where
  entry : ∀ p k, n.PortMap p = some k →
    p ≠ 0 ∧ n.freedSCB k = 0 ∧ (n.scb k).type = .listener ∧ (n.scb k).port = p
  listener : ∀ k, (n.scb k).type = .listener → n.freedSCB k = 0 →
    n.PortMap (n.scb k).port = some k
  peer : ∀ k, (n.scb k).type = .peer → (n.scb k).refcount ≠ 0
  /-- No request is from a listener. -/
  client : ∀ l, ∀ r ∈ (n.scb l).queue, (n.scb (n.req r).socket).type ≠ .listener

variable {n n' : Sockets} {k l r : Nat}

/-- Nothing changes that matters here, or a socket that is no listener is referred to. -/
theorem Ported.congr (h : n.Ported) (htype : ∀ k, (n'.scb k).type = (n.scb k).type)
    (hport : ∀ k, (n'.scb k).port = (n.scb k).port)
    (hrefcount : ∀ k, (n.scb k).refcount ≠ 0 → (n'.scb k).refcount ≠ 0)
    (hqueue : ∀ k, (n'.scb k).queue ⊆ (n.scb k).queue) (hfreed : n'.freedSCB = n.freedSCB)
    (hmap : n'.PortMap = n.PortMap) (hreq : ∀ r, (n'.req r).socket = (n.req r).socket) :
    n'.Ported := by
  constructor <;> simp only [htype, hport, hfreed, hmap, hreq]
  case entry => exact h.entry
  case listener => exact h.listener
  case peer => exact fun k hk => hrefcount k (h.peer k hk)
  case client => exact fun l r hr => h.client l r (hqueue l hr)

theorem Ported.shuts (h : n.Ported) (hs : Shuts n n') : n'.Ported := by
  have hscb := hs.scb
  refine h.congr (fun k => ?_) (fun k => ?_) (fun k => ?_) (fun k => ?_) (by rw [hs.eq])
    (by rw [hs.eq]) (fun r => by rw [hs.eq]) <;> rw [hscb k]
  · exact id
  · exact List.Subset.refl _

theorem Ported.popRequest (h : n.Ported) {rs : List Nat}
    (hq : (n.scb l).reqQueue = some (r :: rs)) : (n.popRequest l r rs).Ported := by
  have hscb := fun k => n.popRequest_scb l r k rs
  refine h.congr (fun k => ?_) (fun k => ?_) (fun k hk => ?_) (fun k => ?_) rfl rfl fun _ => rfl <;>
    rw [hscb k]
  · simp only
    split
    · simp
    · exact hk
  · rw [SCB.queue]
    simp only
    split
    · rename_i hkl
      rw [hkl, SCB.queue_eq hq]
      exact List.subset_cons_self r rs
    · exact List.Subset.refl _

theorem Ported.create (h : n.Ported) (ha : n.Allotted) (f : Nat) (port fid : Int) :
    (n.create f port fid).Ported := by
  have hlt : ∀ p k, n.PortMap p = some k → k < n.scbs := ha.port
  have hblank := (ha.blank n.scbs (Nat.le_refl _)).1
  have hreq : ∀ l, ∀ r ∈ (n.scb l).queue, (n.req r).socket < n.scbs := fun l r hr =>
    ha.req r (ha.queue l r hr)
  constructor <;> simp only [Sockets.create, Function.update_apply]
  case entry =>
    intro p k hp
    have := hlt p k hp
    rw [if_neg (by omega)]
    exact h.entry p k hp
  case listener => have := h.listener; grind
  case peer => have := h.peer; grind
  case client =>
    intro l r hr
    split at hr
    · simp [SCB.queue] at hr
    · have := hreq l r hr
      rw [if_neg (by omega)]
      exact h.client l r hr

/-- A live socket that no request is from becomes a listener. -/
theorem Ported.listen (h : n.Ported) (hport : (n.scb k).port ≠ 0)
    (hfree : n.PortMap (n.scb k).port = none) (hlive : n.freedSCB k = 0)
    (hclient : ∀ l, ∀ r ∈ (n.scb l).queue, (n.req r).socket ≠ k) :
    (n.listen k).Ported := by
  constructor <;> simp only [Sockets.listen, Sockets.modifySCB, Function.update_apply]
  case entry => have := h.entry; grind
  case listener => have := h.listener; have := h.entry; grind
  case peer => have := h.peer; grind
  case client =>
    intro l r hr
    split at hr
    · simp [SCB.queue] at hr
    · rw [if_neg (hclient l r hr)]
      exact h.client l r hr

theorem Ported.connectPeers (h : n.Ported) {j : Nat} (hkj : k ≠ j)
    (hk : (n.scb k).type ≠ .listener) (hj : (n.scb j).type ≠ .listener)
    (hone : (n.scb j).refcount ≠ 0) (m : Mallocs) : (n.connectPeers k j r m).Ported := by
  rw [connectPeers_eq n hkj]
  constructor <;> simp only [Function.update_apply]
  case entry => have := h.entry; grind
  case listener => have := h.listener; grind
  case peer => have := h.peer; grind
  case client =>
    intro l r' hr'
    have hmem : r' ∈ (n.scb l).queue := by
      split at hr'
      · simp [SCB.queue] at hr'
      · split at hr'
        · rename_i hlk
          rw [hlk]
          exact hr'
        · exact hr'
    have hc := h.client l r' hmem
    have hsocket : (if r' = r then { n.req r with accepted := true } else n.req r').socket =
        (n.req r').socket := by
      split
      · rename_i he
        rw [he]
      · rfl
    rw [hsocket]
    split
    · simp
    · split
      · simp
      · exact hc

theorem Ported.makeRequest (h : n.Ported) (u : Nat)
    (hk : (n.scb k).type = .unbound) : (n.request u k l).Ported := by
  have htype : ∀ i, ((n.request u k l).scb i).type = (n.scb i).type := fun i => by rw [request_scb]
  have hport : ∀ i, ((n.request u k l).scb i).port = (n.scb i).port := fun i => by rw [request_scb]
  have hmap : (n.request u k l).PortMap = n.PortMap := by rw [request_eq]
  have hfreed : (n.request u k l).freedSCB = n.freedSCB := by rw [request_eq]
  constructor <;> simp only [htype, hport, hmap, hfreed]
  case entry => exact h.entry
  case listener => exact h.listener
  case peer =>
    intro i hi
    rw [request_scb]
    exact h.peer i hi
  case client =>
    intro i r hr
    rw [request_eq] at hr ⊢
    simp only [Function.update_apply] at hr ⊢
    split
    · simp [hk]
    · rename_i hne
      refine h.client i r ?_
      split at hr
      · rename_i hil
        subst hil
        simp only [SCB.queue] at hr ⊢
        cases hq : (n.scb i).reqQueue with
        | none => simp [hq] at hr
        | some q => simpa [hq, hne] using hr
      · exact hr

/-- An SCB that has no port is freed. -/
theorem Ported.freeSCB (h : n.Ported) (hk : ∀ p, n.PortMap p ≠ some k) : (n.freeSCB k).Ported := by
  constructor <;> simp only [Sockets.freeSCB, Function.update_apply]
  case entry =>
    intro p i hp
    have hne : i ≠ k := fun he => hk p (he ▸ hp)
    rw [if_neg hne]
    exact h.entry p i hp
  case listener =>
    intro i hi hfreed
    have hne : i ≠ k := by
      rintro rfl
      rw [if_pos rfl] at hfreed
      omega
    rw [if_neg hne] at hfreed
    exact h.listener i hi hfreed
  case peer => exact h.peer
  case client => exact h.client

/-- The close of a listener gives its port back. -/
theorem Ported.listenerClose (h : n.Ported) (hk : (n.scb k).type = .listener) :
    ((n.listenerClose k).freeSCB k).Ported := by
  unfold Sockets.listenerClose
  simp only [Sockets.modifySCB, broadcastReqs, Function.update_self]
  split
  · rename_i hentry
    constructor <;> simp only [Sockets.freeSCB, Function.update_apply]
    case entry => have := h.entry; grind
    case listener => have := h.listener; grind
    case peer => have := h.peer; grind
    case client => have := h.client; grind [SCB.queue]
  · rename_i hentry
    constructor <;> simp only [Sockets.freeSCB, Function.update_apply]
    case entry => have := h.entry; grind
    case listener => have := h.listener; grind
    case peer => have := h.peer; grind
    case client => have := h.client; grind [SCB.queue]

theorem Ported.close (h : n.Ported) {target : Option Nat} (hc : n.close target k = some n') :
    n'.Ported := by
  have hport : ∀ p, (n.scb k).type ≠ .listener → n.PortMap p ≠ some k := fun p hk hp =>
    hk (h.entry p k hp).2.2.1
  unfold Sockets.close at hc
  split at hc
  · rename_i hk
    cases hc
    exact h.freeSCB fun p => hport p (by simp [hk])
  · rename_i hk
    cases hc
    exact h.listenerClose hk
  · rename_i hk
    obtain ⟨n₁, hn₁, rfl⟩ := Option.map_eq_some_iff.mp hc
    unfold Sockets.peerClose at hn₁
    have hs := shuts_shutDown n .both target
    simp only at hn₁
    split at hn₁
    · exact absurd hn₁ (by simp)
    · cases hn₁
      refine Ported.freeSCB (k := k) ?_ fun p => ?_
      · exact h.shuts (hs.trans (shuts_modifySCB _ _ (fun _ => rfl) (fun _ => .inl rfl)
          (fun _ => .inr rfl)))
      · change (n.shutDown .both target).PortMap p ≠ some k
        rw [hs.eq]
        exact hport p (by simp [hk])

end Sockets

namespace Streams

variable {s s' : Streams} {a : StreamAction} {n : Sockets}

/-- The socket `k` is live, and no request is from it. -/
def Free (s : Streams) (k : Nat) : Prop :=
  s.freedSCB k = 0 ∧ ∀ r < s.reqs, (s.req r).socket = k →
    (∀ l < s.scbs, r ∉ (s.scb l).queue) ∧ ∀ u < s.threads, (s.pc u).socketPc.request ≠ some r

instance (s : Streams) (k : Nat) : Decidable (s.Free k) := by
  unfold Free
  infer_instance

/-- A `Listen` that passes the tests of `sys_Listen` is on a free socket: its SCB was not freed, no
request of the socket is queued, and no `Connect` of it waits. -/
def ListensFree (s : Streams) : StreamAction → Prop
  | .listen u sock =>
    match denoted s.toFileTables (s.owner u) sock with
    | some k => (s.scb k).port ≠ 0 → s.PortMap (s.scb k).port = none → (s.scb k).refcount = 0 →
      s.Free k
    | none => True
  | _ => True

instance (s : Streams) : (a : StreamAction) → Decidable (s.ListensFree a)
  | .listen u sock =>
    (match denoted s.toFileTables (s.owner u) sock with
    | some k => inferInstanceAs (Decidable ((s.scb k).port ≠ 0 → s.PortMap (s.scb k).port = none →
        (s.scb k).refcount = 0 → s.Free k))
    | none => .isTrue trivial :
      Decidable (match denoted s.toFileTables (s.owner u) sock with
        | some k => (s.scb k).port ≠ 0 → s.PortMap (s.scb k).port = none →
            (s.scb k).refcount = 0 → s.Free k
        | none => True))
  | .openNull .. | .openTerminal .. | .pipe .. | .socket .. | .openInfo .. | .accept .. | .connect ..
  | .shutDown .. | .read .. | .write .. | .close .. | .dup2 .. | .exec .. | .createThread ..
  | .exit .. | .reap .. | .resume .. | .proceed .. | .rxReady | .timeout .. => .isTrue trivial

/-- A step that leaves the clients alone. -/
structure SparesClients (s : Streams) (a : StreamAction) : Prop where
  sound : s.Sound a
  listens : s.ListensFree a
  closes : s.ClosesUnsought a

instance (s : Streams) (a : StreamAction) : Decidable (s.SparesClients a) :=
  decidable_of_iff (s.Sound a ∧ s.ListensFree a ∧ s.ClosesUnsought a)
    ⟨fun h => ⟨h.1, h.2.1, h.2.2⟩, fun h => ⟨h.1, h.2, h.3⟩⟩

theorem SocketStep.ported (h : s.sockets.Ported) (ha : s.sockets.Allotted)
    (hc : s.ListensFree a) (hs : SocketStep s a n) : n.Ported := by
  have hsame : ∀ n : Sockets, n.scb = s.scb → n.freedSCB = s.freedSCB → n.PortMap = s.PortMap →
      n.req = s.req → n.Ported := by
    intro n hscb hfreed hmap hreq
    refine h.congr (fun k => ?_) (fun k => ?_) (fun k => ?_) (fun k => ?_) hfreed hmap
      (fun r => ?_) <;> simp only [hscb, hreq]
    · rfl
    · rfl
    · exact id
    · exact List.Subset.refl _
    · rfl
  cases hs with
  | quiet => exact h
  | forget fs => exact hsame _ rfl rfl rfl rfl
  | pipe fs => exact hsame _ rfl rfl rfl rfl
  | create f port fid _ => exact h.create ha f port fid
  | @listen u k sock hl hk hport hfree hzero =>
    subst hl
    simp only [ListensFree, hk] at hc
    obtain ⟨hlive, hclient⟩ := hc hport hfree hzero
    refine h.listen hport hfree hlive fun l r hr => ?_
    have hlt : l < s.scbs := by
      by_contra hlt
      have hblank : (s.sockets.scb l).queue = [] := by
        rw [(ha.blank l (Nat.le_of_not_lt hlt)).1]
        rfl
      simp [hblank] at hr
    exact fun he => (hclient r (ha.queue l r hr) he).1 l hlt hr
  | sleep => exact hsame _ rfl rfl rfl rfl
  | @refuse u l r m rs _ _ hq _ =>
    have hpop := (hsame (s.sockets.goto u .busy) rfl rfl rfl rfl).popRequest hq
    exact hpop.congr (fun _ => rfl) (fun _ => rfl) (fun _ => id) (fun _ => List.Subset.refl _)
      rfl rfl fun _ => rfl
  | @serve u l r m rs f fid _ hu hq _ =>
    have hgoto := hsame (s.sockets.goto u .busy) rfl rfl rfl rfl
    have hpop := hgoto.popRequest hq
    have hallot := (ha.goto_busy (pops_ne_unborn hu)).popRequest hq
    have hcreate := hpop.create hallot f (s.scb l).port fid
    have hmem : r ∈ (s.sockets.scb l).queue := SCB.mem_queue hq
    have hr : (s.req r).socket < s.scbs := ha.req r (ha.queue l r hmem)
    have hscb := (s.sockets.goto u .busy).popRequest_scb l r (s.req r).socket rs
    refine hcreate.connectPeers (by omega) ?_ ?_ ?_ m
    · simp [Sockets.create, sockets, Sockets.popRequest, Sockets.modifySCB, Sockets.goto]
    · simp only [Sockets.create]
      rw [Function.update_of_ne (by exact Nat.ne_of_lt hr), hscb]
      exact h.client l r hmem
    · simp only [Sockets.create]
      rw [Function.update_of_ne (by exact Nat.ne_of_lt hr), hscb]
      simp [sockets, Sockets.goto]
  | leave => exact hsame _ rfl rfl rfl rfl
  | @request u k l sock port malloc _ _ _ _ _ hk => exact h.makeRequest u hk
  | answer =>
    unfold Sockets.answer
    simp only
    split <;> exact hsame _ rfl rfl rfl rfl
  | timeout => exact hsame _ rfl rfl rfl rfl
  | shut => exact h.shuts (Sockets.shuts_shutDown ..)
  | close _ _ _ _ hc => exact h.close hc
  | spawn => exact hsame _ rfl rfl rfl rfl

/-- **A step gives a type to an UNBOUND socket, if to any**, and makes no listener of a socket whose
`Connect` waits. -/
theorem SocketStep.type_changes (h : s.sockets.Ported) (ha : s.sockets.Allotted)
    (hc : s.ListensFree a) (hs : SocketStep s a n) {k : Nat}
    (hk : (n.scb k).type ≠ (s.scb k).type) : (s.scb k).type = .unbound ∧
      ((n.scb k).type = .listener → ∀ u r, (s.pc u).socketPc.request = some r →
        (s.req r).socket ≠ k) := by
  cases hs with
  | quiet | forget | pipe | sleep | leave | timeout | spawn => exact absurd rfl hk
  | create f port fid _ =>
    refine absurd ?_ hk
    simp only [Sockets.create, Function.update_apply]
    split
    · rename_i he
      have hblank := (ha.blank s.scbs (Nat.le_refl _)).1
      rw [he]
      exact (congrArg SCB.type hblank).symm
    · rfl
  | @listen u j sock hl hj hport hfree hzero =>
    subst hl
    have hne : k = j := by
      by_contra hne
      exact hk (by simp [Sockets.listen, Sockets.modifySCB, hne, sockets])
    subst hne
    simp only [ListensFree, hj] at hc
    obtain ⟨hlive, hclient⟩ := hc hport hfree hzero
    refine ⟨?_, fun _ u r hr hrk => ?_⟩
    · cases htype : (s.scb k).type with
      | unbound => rfl
      | listener =>
        have hentry := h.listener k htype hlive
        exact absurd (hfree.symm.trans hentry) (by simp)
      | peer => exact absurd hzero (h.peer k htype)
    · have hu : u < s.threads := by
        by_contra hu
        have hborn : (s.pc u).socketPc = .unborn := (ha.born u).mpr (Nat.le_of_not_lt hu)
        simp [hborn, SocketPc.request] at hr
      exact (hclient r (ha.request u r hr) hrk).2 u hu hr
  | @refuse u l r m rs _ _ hq _ =>
    exact absurd (congrArg SCB.type ((s.sockets.goto u .busy).popRequest_scb l r k rs)) hk
  | @serve u l r m rs f fid _ hu hq _ =>
    have hmem : r ∈ (s.sockets.scb l).queue := SCB.mem_queue hq
    have hr : (s.req r).socket < s.scbs := ha.req r (ha.queue l r hmem)
    have hclient := h.client l r hmem
    have hpop := congrArg SCB.type ((s.sockets.goto u .busy).popRequest_scb l r k rs)
    rw [Sockets.connectPeers_eq _ (by omega)] at hk ⊢
    simp only [Function.update_apply] at hk ⊢
    by_cases hkr : k = (s.req r).socket
    · subst hkr
      simp only [if_true] at hk ⊢
      refine ⟨?_, by simp⟩
      cases htype : (s.scb (s.req r).socket).type with
      | unbound => rfl
      | listener => exact absurd htype hclient
      | peer => exact absurd htype.symm hk
    · simp only [if_neg hkr] at hk ⊢
      by_cases hks : k = s.scbs
      · subst hks
        simp only [if_true] at hk ⊢
        exact ⟨congrArg SCB.type (ha.blank s.scbs (Nat.le_refl _)).1, by simp⟩
      · simp only [if_neg hks, Sockets.create] at hk
        refine absurd ?_ hk
        rw [Function.update_of_ne (by exact hks)]
        exact hpop
  | @request u j l =>
    refine absurd ?_ hk
    rw [Sockets.request_eq]
    simp only [Function.update_apply]
    split
    · rename_i he
      rw [he]
      rfl
    · rfl
  | answer =>
    refine absurd ?_ hk
    unfold Sockets.answer
    simp only
    split <;> rfl
  | shut =>
    refine absurd ?_ hk
    rw [(Sockets.shuts_shutDown ..).scb]
    rfl
  | close _ _ _ _ hclose => exact absurd (congrArg SCB.type (Sockets.close_scb hclose k)) hk

/-- `PortMap` holds the live listeners, each at its port, and nothing else. -/
structure PortsAgree (s : Streams) : Prop where
  entry : ∀ p k, s.PortMap p = some k →
    s.freedSCB k = 0 ∧ (s.scb k).type = .listener ∧ (s.scb k).port = p
  listener : ∀ k, (s.scb k).type = .listener → s.freedSCB k = 0 →
    s.PortMap (s.scb k).port = some k
  zero : s.PortMap 0 = none

/-- Every step from `s` that meets `C` changes the type of a socket only if it was UNBOUND, and does
not make a listener of one whose `Connect` waits. -/
def TypedOnce (C : Streams → StreamAction → Prop) (s : Streams) : Prop :=
  ∀ a s', C s a → s.perform a = some s' → ∀ k, (s'.scb k).type ≠ (s.scb k).type →
    (s.scb k).type = .unbound ∧ ((s'.scb k).type = .listener →
      ∀ u r w, s.pc u = .connecting r w → (s.req r).socket ≠ k)

theorem ported_initial (serialPorts : Nat) : (Streams.initial serialPorts).sockets.Ported := by
  constructor <;> simp [sockets, Streams.initial, SCB.queue]

theorem ported (hr : streamSys.ReachIf (fun s a => s.ListensFree a) s) : s.sockets.Ported := by
  induction hr with
  | init hi =>
    obtain ⟨serialPorts, rfl⟩ := hi
    exact ported_initial serialPorts
  | step hr hc hs ih => exact (socketStep hs).ported ih (allotted hr) hc

end Streams

/-- **Ports, listeners and types agree**, in every run in which `Listen` is called on free sockets
only, and no socket is closed to which a request or an `Accept` still leads. -/
theorem ports_agree (s : Streams) (hr : streamSys.ReachIf (fun s a => s.SparesClients a) s) :
    s.PortsAgree ∧ s.TypedOnce fun s a => s.SparesClients a := by
  have h := Streams.ported (hr.mono fun s a hc => hc.listens)
  have ha := Streams.allotted hr
  refine ⟨⟨fun p k hp => (h.entry p k hp).2, h.listener, ?_⟩, fun a s' hc hs k hk => ?_⟩
  · by_contra hne
    obtain ⟨k, hk⟩ := Option.ne_none_iff_exists'.mp hne
    exact (h.entry 0 k hk).1 rfl
  · obtain ⟨hunbound, hlistener⟩ := (Streams.socketStep hs).type_changes h ha hc.listens hk
    refine ⟨hunbound, fun hl u r w hu => hlistener hl u r ?_⟩
    rw [hu]
    rfl

/-- A server listens, a client connects to it, and a third socket becomes a listener, which is
closed again, and so is the client. -/
theorem ports_agree_run : ∃ s, Streams.PortsAgree s ∧
    s.PortMap 7 = some 0 ∧ s.PortMap 8 = none ∧ s.freedSCB 2 = 1 ∧ s.freedSCB 1 = 1 := by
  obtain ⟨s, hr, hp⟩ := Sys.reachIf_of_exec (M := streamSys) (C := fun s a => s.SparesClients a)
    (fun s a => decide (s.SparesClients a)) (Streams.initial 0)
    [.socket 0 7 true, .listen 0 0, .socket 0 0 true, .createThread 0, .connect 1 1 7 true,
      .socket 0 8 true, .listen 0 2, .accept 0 0 ⟨true, true, true⟩, .close 0 2, .close 0 1]
    (fun s => decide (s.PortMap 7 = some 0 ∧ s.PortMap 8 = none ∧ s.freedSCB 2 = 1 ∧
      s.freedSCB 1 = 1))
    (fun s a h => of_decide_eq_true h) ⟨0, rfl⟩ (by decide)
  exact ⟨s, (ports_agree s hr).1, of_decide_eq_true hp⟩

/-- A client that waits becomes a listener, and is then accepted. -/
theorem not_ports_agree : ¬ ∀ s, streamSys.ReachIf (fun s a => s.Alive a) s →
    s.PortsAgree ∧ s.TypedOnce fun s a => s.Alive a := by
  intro hall
  obtain ⟨s, hr, hp⟩ := Sys.reachIf_of_exec (M := streamSys) (C := fun s a => s.Alive a)
    (fun s a => decide (s.Alive a)) (Streams.initial 0)
    [.socket 0 7 true, .listen 0 0, .socket 0 8 true, .createThread 0, .connect 1 1 7 true,
      .listen 0 1, .accept 0 0 ⟨true, true, true⟩]
    (fun s => decide (s.PortMap 8 = some 1 ∧ (s.scb 1).type = .peer))
    (fun s a h => of_decide_eq_true h) ⟨0, rfl⟩ (by decide)
  obtain ⟨hport, htype⟩ := of_decide_eq_true hp
  have hentry := ((hall s hr).1.entry 8 1 hport).2.1
  simp [htype] at hentry

end TinyOS
