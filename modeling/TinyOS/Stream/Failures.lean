import Mathlib
import TinyOS.Stream.Agreement
import TinyOS.Stream.Holding

/-!
# A `Connect` that fails

A `Connect` that fails at once changes nothing. One that has queued its request does not always fail
as cleanly. **It leaves its socket as it found it, and no request behind, as long as it times out
only after its listener was closed, and `Accept`, `Listen` and `Close` leave its socket alone**
(`connect_fails_clean`). (A socket that is closed under its `Connect` leaves a pointer to its SCB in
the queue, and the next `Socket` may be given the block.)

`sys_Connect` does not take its request back when it times out (`not_connect_fails_clean`), and
`sys_Accept` has set the `refcount` of the client to 1 when it finds that it has no fid.

The proof is in two parts. The first is about the SCBs (`Kinds`): an UNBOUND one is not referred to,
and only peers have peers. So what is done to listeners and peers is not done to the socket of a
`Connect`, which is UNBOUND. The second is about the threads in `Connect` (`Clean`), beside a history
that has the SCB of each request as it was at the call.
-/

set_option autoImplicit false

namespace TinyOS

open Transition

namespace Sockets

/-- What the type of an SCB says about it. -/
structure Kinds (n : Sockets) : Prop where
  unbound : ∀ k, (n.scb k).type = .unbound → (n.scb k).refcount = 0
  peer : ∀ k, (n.scb k).type = .peer → (n.scb k).refcount ≠ 0
  pair : ∀ k j, (n.scb k).type = .peer → (n.scb k).peer = some j → (n.scb j).type = .peer

variable {n n' : Sockets} {i k l r u : Nat}

/-! ## The types of the SCBs -/

theorem Kinds.congr (h : n.Kinds) (hscb : ∀ k, (n'.scb k).type = (n.scb k).type ∧
      (n'.scb k).peer = (n.scb k).peer)
    (hrefcount : ∀ k, (n.scb k).type ≠ .listener → (n'.scb k).refcount = (n.scb k).refcount) :
    n'.Kinds := by
  have htype := fun k => (hscb k).1
  have hpeer := fun k => (hscb k).2
  constructor <;> simp only [htype, hpeer]
  case unbound =>
    intro k hk
    rw [hrefcount k (by simp [hk])]
    exact h.unbound k hk
  case peer =>
    intro k hk
    rw [hrefcount k (by simp [hk])]
    exact h.peer k hk
  case pair => exact h.pair

theorem Kinds.create (h : n.Kinds) (ha : n.Allotted) (f : Nat) (port fid : Int) :
    (n.create f port fid).Kinds := by
  have hallot := ha.peer
  constructor <;> simp only [Sockets.create, Function.update_apply]
  case unbound => have := h.unbound; grind
  case peer => have := h.peer; grind
  case pair => have := h.pair; grind

theorem Kinds.listen (h : n.Kinds) (hzero : (n.scb k).refcount = 0) : (n.listen k).Kinds := by
  have hk : (n.scb k).type ≠ .peer := fun hp => h.peer k hp hzero
  constructor <;> simp only [Sockets.listen, Sockets.modifySCB, Function.update_apply]
  case unbound => have := h.unbound; grind
  case peer => have := h.peer; grind
  case pair => have := h.pair; grind

/-- A close sets no `refcount` but that of a listener. -/
theorem close_refcount {target : Option Nat} (hc : n.close target k = some n')
    (hi : (n.scb i).type ≠ .listener) : (n'.scb i).refcount = (n.scb i).refcount := by
  unfold Sockets.close at hc
  split at hc
  · cases hc
    rfl
  · rename_i hk
    cases hc
    have hik : i ≠ k := fun he => hi (he ▸ hk)
    have hscb : ((n.listenerClose k).freeSCB k).scb =
        Function.update n.scb k { n.scb k with refcount := 0 } := by
      unfold Sockets.listenerClose
      simp only
      split <;> rfl
    rw [hscb, Function.update_of_ne hik]
  · obtain ⟨n₁, hn₁, rfl⟩ := Option.map_eq_some_iff.mp hc
    unfold Sockets.peerClose at hn₁
    have hs := (shuts_shutDown n .both target).scb
    simp only at hn₁
    split at hn₁
    · exact absurd hn₁ (by simp)
    · cases hn₁
      simp only [freeSCB, Sockets.modifySCB, Function.update_apply]
      split
      · rename_i he
        rw [he, hs]
      · rw [hs]

theorem Kinds.close (h : n.Kinds) {target : Option Nat} (hc : n.close target k = some n') :
    n'.Kinds := by
  refine h.congr (fun i => ?_) fun i hi => close_refcount hc hi
  rw [close_scb hc i]
  exact ⟨rfl, rfl⟩

/-- `sys_ShutDown` leaves an UNBOUND socket alone. -/
theorem Kinds.shutDown_unbound (h : n.Kinds) (how : ShutdownMode) (target : Option Nat)
    (hi : (n.scb i).type = .unbound) : (n.shutDown how target).scb i = n.scb i := by
  unfold Sockets.shutDown
  cases target with
  | none => rfl
  | some k =>
    simp only
    split
    · rename_i j hk hj
      have hik : i ≠ k := by
        rintro rfl
        simp [hi] at hk
      have hij : i ≠ j := by
        rintro rfl
        simp [h.pair k i hk hj] at hi
      have hread : (n.shutRead k j).scb i = n.scb i := by
        unfold Sockets.shutRead
        split <;> simp [Sockets.modifySCB, Function.update_of_ne, hik, hij]
      have hwrite : ∀ n : Sockets, (n.shutWrite k).scb i = n.scb i := by
        intro n
        unfold Sockets.shutWrite
        split <;> simp [Sockets.modifySCB, Function.update_of_ne, hik]
      split
      · rw [hwrite]
        split
        · exact hread
        · rfl
      · split
        · exact hread
        · rfl
    · rfl

/-- So does the close of any socket. -/
theorem Kinds.close_unbound (h : n.Kinds) {target : Option Nat} (hc : n.close target k = some n')
    (hi : (n.scb i).type = .unbound) : n'.scb i = n.scb i := by
  unfold Sockets.close at hc
  split at hc
  · cases hc
    rfl
  · rename_i hk
    cases hc
    have hik : i ≠ k := by
      rintro rfl
      simp [hi] at hk
    unfold Sockets.listenerClose
    simp only
    split <;>
      simp [freeSCB, Sockets.modifySCB, broadcastReqs, Function.update_of_ne, hik]
  · rename_i hk
    obtain ⟨n₁, hn₁, rfl⟩ := Option.map_eq_some_iff.mp hc
    unfold Sockets.peerClose at hn₁
    have hs := (shuts_shutDown n .both target).scb k
    simp only at hn₁
    split at hn₁
    · exact absurd hn₁ (by simp)
    · rename_i j hj
      cases hn₁
      rw [hs] at hj
      have hij : i ≠ j := by
        rintro rfl
        simp [h.pair k i hk hj] at hi
      simp only [freeSCB, Sockets.modifySCB, Function.update_of_ne hij]
      exact h.shutDown_unbound .both target hi

variable {rs : List Nat} {f : Nat} {port fid : Int} {m : Mallocs}

theorem Kinds.serve (h : n.Kinds) (hr : (n.req r).socket < n.scbs) :
    (n.serve u l r rs f port fid m).Kinds := by
  have hboth : ∀ i, i = (n.req r).socket ∨ i = n.scbs →
      ((n.serve u l r rs f port fid m).scb i).type = .peer ∧
        ((n.serve u l r rs f port fid m).scb i).refcount = 1 ∧
        ∀ j, ((n.serve u l r rs f port fid m).scb i).peer = some j →
          j = (n.req r).socket ∨ j = n.scbs := by
    intro i hi
    obtain ⟨htype, hone, -, hpeer⟩ := serve_peers hr hi
    exact ⟨htype, hone, hpeer⟩
  have hother : ∀ i, ¬ (i = (n.req r).socket ∨ i = n.scbs) →
      ((n.serve u l r rs f port fid m).scb i).type = (n.scb i).type ∧
        ((n.serve u l r rs f port fid m).scb i).refcount = (n.scb i).refcount ∧
        ((n.serve u l r rs f port fid m).scb i).peer = (n.scb i).peer := by
    intro i hi
    obtain ⟨hi, hi'⟩ := not_or.mp hi
    rw [serve_scb hr hi hi']
    exact ⟨rfl, rfl, rfl⟩
  constructor
  case unbound =>
    intro i hi
    by_cases hnew : i = (n.req r).socket ∨ i = n.scbs
    · simp [(hboth i hnew).1] at hi
    · obtain ⟨htype, hrefcount, -⟩ := hother i hnew
      rw [hrefcount]
      exact h.unbound i (htype ▸ hi)
  case peer =>
    intro i hi
    by_cases hnew : i = (n.req r).socket ∨ i = n.scbs
    · simp [(hboth i hnew).2.1]
    · obtain ⟨htype, hrefcount, -⟩ := hother i hnew
      rw [hrefcount]
      exact h.peer i (htype ▸ hi)
  case pair =>
    intro i j hi hj
    by_cases hjnew : j = (n.req r).socket ∨ j = n.scbs
    · exact (hboth j hjnew).1
    by_cases hnew : i = (n.req r).socket ∨ i = n.scbs
    · exact absurd ((hboth i hnew).2.2 j hj) hjnew
    · obtain ⟨htype, -, hpeer⟩ := hother i hnew
      rw [(hother j hjnew).1]
      exact h.pair i j (htype ▸ hi) (hpeer ▸ hj)

/-! ## The sockets of the `Connect`s -/

variable {before : Nat → SCB}

/-- `before r` is the SCB of the request `r` as its `Connect` found it. -/
structure Clean (n : Sockets) (before : Nat → SCB) : Prop where
  waiting : ∀ u r w, (n.pc u).connection = some (r, w) → w ≠ .signalled →
    n.scb (n.req r).socket = before r ∧ (before r).type = .unbound
  /-- Nobody is woken to be told that there is no fid. -/
  signalled : ∀ u r, (n.pc u).connection = some (r, .signalled) → (n.req r).accepted = true
  timedOut : ∀ u r, (n.pc u).connection = some (r, .timedOut) →
    ∀ l, n.freedSCB l = 0 → r ∉ (n.scb l).queue

/-- Threads leave `Connect`, if anything, and no socket of one that waits there is changed. -/
theorem Clean.keep (h : n.Clean before)
    (hpc : ∀ u x, (n'.pc u).connection = some x → (n.pc u).connection = some x)
    (hreq : n'.req = n.req)
    (hscb : ∀ u r w, (n.pc u).connection = some (r, w) → (n.scb (n.req r).socket).type = .unbound →
      n'.scb (n.req r).socket = n.scb (n.req r).socket)
    (hqueue : ∀ l, n'.freedSCB l = 0 → n.freedSCB l = 0 ∧ (n'.scb l).queue ⊆ (n.scb l).queue) :
    n'.Clean before := by
  constructor
  case waiting =>
    intro u r w hu hw
    rw [hreq]
    have hold := hpc u _ hu
    obtain ⟨hsame, hunbound⟩ := h.waiting u r w hold hw
    rw [hscb u r w hold (by rw [hsame, hunbound])]
    exact ⟨hsame, hunbound⟩
  case signalled =>
    intro u r hu
    rw [hreq]
    exact h.signalled u r (hpc u _ hu)
  case timedOut =>
    intro u r hu l hl hr
    obtain ⟨hold, hsub⟩ := hqueue l hl
    exact h.timedOut u r (hpc u _ hu) l hold (hsub hr)

/-- The SCBs are as they were. -/
theorem Clean.moves (h : n.Clean before)
    (hpc : ∀ u x, (n'.pc u).connection = some x → (n.pc u).connection = some x)
    (hreq : n'.req = n.req) (hscb : n'.scb = n.scb) (hfreed : n'.freedSCB = n.freedSCB) :
    n'.Clean before := by
  refine h.keep hpc hreq (fun _ _ _ _ _ => by rw [hscb]) fun l hl => ?_
  rw [hscb]
  exact ⟨hfreed ▸ hl, List.Subset.refl _⟩

theorem goto_leaves {pc : SocketPc} (hpc : pc.connection = none) {v : Nat} {x : Nat × TimedWait}
    (hv : ((n.goto u pc).pc v).connection = some x) : (n.pc v).connection = some x := by
  simp only [Sockets.goto, Function.update_apply] at hv
  split at hv
  · simp [hpc] at hv
  · exact hv

/-- The history that goes with a step to `n'`. -/
def noteBefore (n n' : Sockets) (before : Nat → SCB) : Nat → SCB :=
  if n'.reqs = n.reqs then before
  else Function.update before n.reqs (n.scb (n'.req n.reqs).socket)

theorem Clean.makeRequest (h : n.Clean before) (ha : n.Allotted) (hk : (n.scb k).type = .unbound)
    (hl : (n.scb l).type = .listener) :
    (n.request u k l).Clean (n.noteBefore (n.request u k l) before) := by
  have hpc := n.request_connection u k l
  have heq := n.request_eq u k l
  have hreq : (n.request u k l).req =
      Function.update n.req n.reqs { socket := k, accepted := false } := by rw [heq]
  have hfreed : (n.request u k l).freedSCB = n.freedSCB := by rw [heq]
  have hbefore : n.noteBefore (n.request u k l) before =
      Function.update before n.reqs (n.scb k) := by
    rw [noteBefore, hreq, Function.update_self, if_neg]
    rw [heq]
    exact Nat.succ_ne_self _
  have hscb : ∀ i, (n.scb i).type = .unbound → (n.request u k l).scb i = n.scb i := by
    intro i hi
    have hil : i ≠ l := by
      rintro rfl
      simp [hl] at hi
    rw [request_scb, if_neg hil]
  have hold : ∀ v r w, (n.pc v).connection = some (r, w) → r ≠ n.reqs := by
    intro v r w hv
    have hlt := ha.request v r (SocketPc.request_of_connection hv)
    omega
  rw [hbefore]
  constructor <;> simp only [hpc, hreq, hfreed]
  case waiting =>
    intro v r w hv hw
    split at hv
    · obtain ⟨rfl, -⟩ := Prod.mk.inj (Option.some.inj hv)
      rw [Function.update_self, Function.update_self]
      exact ⟨hscb k hk, hk⟩
    · have hne := hold v r w hv
      obtain ⟨hsame, hunbound⟩ := h.waiting v r w hv hw
      rw [Function.update_of_ne hne, Function.update_of_ne hne, hscb _ (by rw [hsame, hunbound])]
      exact ⟨hsame, hunbound⟩
  case signalled =>
    intro v r hv
    split at hv
    · simp at hv
    · rw [Function.update_of_ne (hold v r _ hv)]
      exact h.signalled v r hv
  case timedOut =>
    intro v r hv i hi hr
    split at hv
    · simp at hv
    · refine h.timedOut v r hv i hi ?_
      rw [request_scb, SCB.queue] at hr
      by_cases hil : i = l
      · subst hil
        cases hq : (n.scb i).reqQueue with
        | none => simp [hq] at hr
        | some q =>
          simp only [hq, Option.map_some, if_true, Option.getD_some, List.mem_append,
            List.mem_singleton] at hr
          rw [SCB.queue_eq hq]
          exact hr.resolve_right (hold v r _ hv)
      · rw [if_neg hil] at hr
        exact hr

/-- A `Connect` times out whose request is in no queue any more. -/
theorem Clean.timesOut (h : n.Clean before) (hu : (n.pc u).connection = some (r, .asleep))
    (hclosed : ∀ l, n.freedSCB l = 0 → r ∉ (n.scb l).queue) :
    (n.goto u (.connecting r .timedOut)).Clean before := by
  constructor
  case waiting =>
    intro v i w hv hw
    simp only [Sockets.goto, Function.update_apply] at hv
    split at hv
    · obtain ⟨rfl, -⟩ := Prod.mk.inj (Option.some.inj hv)
      exact h.waiting u _ .asleep hu (by simp)
    · exact h.waiting v i w hv hw
  case signalled =>
    intro v i hv
    simp only [Sockets.goto, Function.update_apply] at hv
    split at hv
    · simp [SocketPc.connection] at hv
    · exact h.signalled v i hv
  case timedOut =>
    intro v i hv
    simp only [Sockets.goto, Function.update_apply] at hv
    split at hv
    · obtain ⟨rfl, -⟩ := Prod.mk.inj (Option.some.inj hv)
      exact hclosed
    · exact h.timedOut v i hv

/-- A request is served whose `Connect` sleeps, and no other one waits with the same socket. -/
theorem Clean.serve (h : n.Clean before) (ha : n.Allotted)
    (hr : (n.req r).socket < n.scbs) (hq : (n.scb l).reqQueue = some (r :: rs))
    (hl : (n.scb l).type ≠ .unbound) {v : Nat} (hv : (n.pc v).connection = some (r, .asleep))
    (hother : ∀ v', v' ≠ v → ∀ i w, (n.pc v').connection = some (i, w) →
      (n.req i).socket ≠ (n.req r).socket) :
    (n.serve u l r rs f port fid m).Clean before := by
  have haccepted : ∀ i, i = r ∨ (n.req i).accepted = true →
      ((n.serve u l r rs f port fid m).req i).accepted = true := by
    rintro i hi
    rw [serve_eq hr]
    simp only [Function.update_apply]
    split
    · rfl
    · exact hi.resolve_left ‹_›
  have hback : ∀ v' i w, ((n.serve u l r rs f port fid m).pc v').connection = some (i, w) →
      ∃ w', (n.pc v').connection = some (i, w') ∧ (w = w' ∨ w = .signalled ∧ i = r) ∧
        (i = r → w' = .asleep → w = .signalled) := by
    intro v' i w hw
    rw [serve_eq hr] at hw
    obtain ⟨w', hw', hor, hwoken⟩ := SocketPc.of_connection_wakeConnector hw
    exact ⟨w', goto_leaves rfl hw', hor, hwoken⟩
  constructor
  case waiting =>
    -- One that was not woken made another request, with another socket, which is no peer now.
    intro v' i w hw hne'
    obtain ⟨w', hold, hor, hwoken⟩ := hback v' i w hw
    obtain rfl := hor.resolve_right fun hs => hne' hs.1
    have hvv : v' ≠ v := by
      rintro rfl
      obtain ⟨rfl, rfl⟩ := Prod.mk.inj (Option.some.inj (hold.symm.trans hv))
      exact hne' (hwoken rfl rfl)
    obtain ⟨hsame, hunbound⟩ := h.waiting v' i w hold hne'
    have hil : (n.req i).socket ≠ l := by
      intro he
      exact hl (he ▸ by rw [hsame, hunbound])
    have hlt : (n.req i).socket < n.scbs :=
      ha.req i (ha.request v' i (SocketPc.request_of_connection hold))
    rw [serve_socket hr, serve_scb hr (hother v' hvv i w hold) (Nat.ne_of_lt hlt), if_neg hil]
    exact ⟨hsame, hunbound⟩
  case signalled =>
    intro v' i hw
    obtain ⟨w', hold, rfl | ⟨-, hi⟩, -⟩ := hback v' i .signalled hw
    · exact haccepted i (.inr (h.signalled v' i hold))
    · exact haccepted i (.inl hi)
  case timedOut =>
    intro v' i hw j hj hmem
    obtain ⟨w', hold, hor, -⟩ := hback v' i .timedOut hw
    obtain rfl := hor.resolve_right fun hs => absurd hs.1 (by simp)
    rw [serve_eq hr] at hj
    exact h.timedOut v' i hold j hj (serve_queue hr hq j hmem)

end Sockets

namespace Streams

variable {s s' : Streams} {a : StreamAction} {n : Sockets}

/-- The thread `v` is in `Connect` with the socket `k`. -/
def connects (s : Streams) (v k : Nat) : Prop :=
  ((s.pc v).socketPc.request.map fun r => (s.req r).socket) = some k

instance (s : Streams) (v k : Nat) : Decidable (s.connects v k) :=
  inferInstanceAs (Decidable (_ = _))

/-- A `Connect` times out only after the listener that has its request was closed. -/
def TimesOutClosed (s : Streams) : StreamAction → Prop
  | .timeout u =>
    ∀ r ∈ (s.pc u).socketPc.request, ∀ l < s.scbs, s.freedSCB l = 0 → r ∉ (s.scb l).queue
  | _ => True

/-- An `Accept` that takes a request gets a fid, the `Connect` of the request is asleep, and no
other one waits with the same socket. -/
def AcceptsAlone (s : Streams) (a : StreamAction) : Prop :=
  ∀ x ∈ s.pops a, s.serves x.1 x.2.1 x.2.2 ∧ ∀ r ∈ (s.scb x.2.1).queue.head?,
    ∃ v < s.threads, s.pc v = .connecting r .asleep ∧
      ∀ v' < s.threads, v' ≠ v → ¬ s.connects v' (s.req r).socket

/-- A `Listen` that passes the tests of `sys_Listen` is on a socket that no `Connect` waits with. -/
def ListensAlone (s : Streams) : StreamAction → Prop
  | .listen u sock =>
    ∀ k ∈ denoted s.toFileTables (s.owner u) sock, (s.scb k).port ≠ 0 →
      s.PortMap (s.scb k).port = none → (s.scb k).refcount = 0 →
      ∀ v < s.threads, ¬ s.connects v k
  | _ => True

/-- A step that closes a socket closes one that nobody gets to any more, and that no `Connect` waits
with. -/
def ClosesAlone (s : Streams) (a : StreamAction) : Prop :=
  ∀ st ∈ s.closing a, ∀ k ∈ st.socket?, s.Unsought k ∧ ∀ v < s.threads, ¬ s.connects v k

/-- A step that disturbs no `Connect`. -/
structure Undisturbed (s : Streams) (a : StreamAction) : Prop where
  sound : s.Sound a
  timesOut : s.TimesOutClosed a
  accepts : s.AcceptsAlone a
  listens : s.ListensAlone a
  closes : s.ClosesAlone a

instance (s : Streams) : (a : StreamAction) → Decidable (s.TimesOutClosed a)
  | .timeout u => inferInstanceAs (Decidable (∀ r ∈ (s.pc u).socketPc.request, ∀ l < s.scbs,
      s.freedSCB l = 0 → r ∉ (s.scb l).queue))
  | .openNull .. | .openTerminal .. | .pipe .. | .socket .. | .openInfo .. | .listen .. | .accept ..
  | .connect .. | .shutDown .. | .read .. | .write .. | .close .. | .dup2 .. | .exec ..
  | .createThread .. | .exit .. | .reap .. | .resume .. | .proceed .. | .rxReady =>
    .isTrue trivial

instance (s : Streams) (a : StreamAction) : Decidable (s.AcceptsAlone a) :=
  inferInstanceAs (Decidable (∀ x ∈ s.pops a, s.serves x.1 x.2.1 x.2.2 ∧
    ∀ r ∈ (s.scb x.2.1).queue.head?, ∃ v < s.threads, s.pc v = .connecting r .asleep ∧
      ∀ v' < s.threads, v' ≠ v → ¬ s.connects v' (s.req r).socket))

instance (s : Streams) : (a : StreamAction) → Decidable (s.ListensAlone a)
  | .listen u sock => inferInstanceAs (Decidable (∀ k ∈ denoted s.toFileTables (s.owner u) sock,
      (s.scb k).port ≠ 0 → s.PortMap (s.scb k).port = none → (s.scb k).refcount = 0 →
      ∀ v < s.threads, ¬ s.connects v k))
  | .openNull .. | .openTerminal .. | .pipe .. | .socket .. | .openInfo .. | .accept .. | .connect ..
  | .shutDown .. | .read .. | .write .. | .close .. | .dup2 .. | .exec .. | .createThread ..
  | .exit .. | .reap .. | .resume .. | .proceed .. | .rxReady | .timeout .. => .isTrue trivial

instance (s : Streams) (a : StreamAction) : Decidable (s.ClosesAlone a) :=
  inferInstanceAs (Decidable (∀ st ∈ s.closing a, ∀ k ∈ st.socket?,
    s.Unsought k ∧ ∀ v < s.threads, ¬ s.connects v k))

instance (s : Streams) (a : StreamAction) : Decidable (s.Undisturbed a) :=
  decidable_of_iff
    (s.Sound a ∧ s.TimesOutClosed a ∧ s.AcceptsAlone a ∧ s.ListensAlone a ∧ s.ClosesAlone a)
    ⟨fun h => ⟨h.1, h.2.1, h.2.2.1, h.2.2.2.1, h.2.2.2.2⟩, fun h => ⟨h.1, h.2, h.3, h.4, h.5⟩⟩

/-! ## Every step -/

/-- The listener of an `Accept` that goes on is not UNBOUND. -/
theorem pops_ne_unbound (h : s.sockets.Kinds) {u l : Nat} {m : Mallocs}
    (hp : s.pops a = some (u, l, m)) : (s.scb l).type ≠ .unbound := by
  cases a with
  | accept v lsock m' =>
    simp only [pops] at hp
    split at hp
    · obtain ⟨⟨htype, -⟩, hp⟩ := Option.ite_none_right_eq_some.mp hp
      cases hp
      simp [htype]
    · exact absurd hp (by simp)
  | resume v data m' =>
    simp only [pops] at hp
    split at hp
    · obtain ⟨hone, hp⟩ := Option.ite_none_left_eq_some.mp hp
      cases hp
      exact fun hunbound => hone (h.unbound _ hunbound)
    · exact absurd hp (by simp)
  | _ => exact absurd hp (by simp [pops])

theorem SocketStep.kinds (h : s.sockets.Kinds) (ha : s.sockets.Allotted)
    (hc : s.AcceptsAlone a) (hs : SocketStep s a n) : n.Kinds := by
  have hsame : ∀ n : Sockets, n.scb = s.scb → n.Kinds := by
    intro n hscb
    refine h.congr (fun k => ?_) fun k _ => ?_ <;> rw [hscb]
    · exact ⟨rfl, rfl⟩
    · rfl
  cases hs with
  | quiet => exact h
  | forget | pipe | sleep | leave | timeout | spawn => exact hsame _ rfl
  | create f port fid _ => exact h.create ha f port fid
  | listen _ _ _ _ hzero => exact h.listen hzero
  | refuse hp _ _ hserve => exact absurd (hc _ hp).1 hserve
  | @serve u l r m rs f fid _ _ hq _ => exact h.serve (ha.req r (ha.queue l r (SCB.mem_queue hq)))
  | request =>
    refine h.congr (fun k => ?_) fun k _ => ?_ <;> rw [Sockets.request_scb]
    exact ⟨rfl, rfl⟩
  | answer =>
    unfold Sockets.answer
    simp only
    split <;> exact hsame _ rfl
  | shut =>
    refine h.congr (fun k => ?_) fun k _ => ?_ <;> rw [(Sockets.shuts_shutDown ..).scb]
    exact ⟨rfl, rfl⟩
  | close _ _ _ _ hclose => exact h.close hclose

/-- A thread that is in `Connect` was born. -/
theorem connection_lt (ha : s.sockets.Allotted) {v : Nat} {x : Nat × TimedWait}
    (hv : (s.sockets.pc v).connection = some x) : v < s.threads := by
  by_contra hlt
  rw [(ha.born v).mpr (Nat.le_of_not_lt hlt)] at hv
  simp [SocketPc.connection] at hv

theorem connects_of {v i : Nat} {w : TimedWait} (hv : (s.sockets.pc v).connection = some (i, w)) :
    s.connects v (s.req i).socket := by
  have hrequest : (s.pc v).socketPc.request = some i := SocketPc.request_of_connection hv
  rw [connects, hrequest]
  rfl

theorem SocketStep.clean {before : Nat → SCB} (h : s.sockets.Clean before) (hk : s.sockets.Kinds)
    (ha : s.sockets.Allotted) (hc : s.Undisturbed a) (hs : SocketStep s a n) :
    n.Clean (s.sockets.noteBefore n before) := by
  have hkeep : ∀ {n : Sockets}, n.reqs = s.reqs → n.Clean before →
      n.Clean (s.sockets.noteBefore n before) := by
    intro n hreqs hn
    rw [Sockets.noteBefore, if_pos (by exact hreqs)]
    exact hn
  have hgoto : ∀ (u : Nat) (pc : SocketPc), pc.connection = none →
      (s.sockets.goto u pc).Clean before := fun u pc hpc =>
    h.moves (fun _ _ hv => Sockets.goto_leaves hpc hv) rfl rfl rfl
  cases hs with
  | quiet => exact hkeep rfl h
  | forget | pipe => exact hkeep rfl (h.moves (fun _ _ => id) rfl rfl rfl)
  | create f port fid _ =>
    refine hkeep rfl (h.keep (fun _ _ => id) rfl (fun u r w hu _ => ?_) fun l hl => ⟨hl, ?_⟩) <;>
      simp only [Sockets.create, Function.update_apply]
    · have hlt := ha.req r (ha.request u r (SocketPc.request_of_connection hu))
      rw [if_neg (Nat.ne_of_lt hlt)]
    · split
      · exact List.nil_subset _
      · exact List.Subset.refl _
  | @listen u k sock hl hsock hport hfree hzero =>
    subst hl
    have halone := hc.listens k hsock hport hfree hzero
    refine hkeep rfl (h.keep (fun _ _ => id) rfl (fun v r w hv _ => ?_) fun l hl => ⟨hl, ?_⟩) <;>
      simp only [Sockets.listen, Sockets.modifySCB, Function.update_apply]
    · refine if_neg fun he => halone v (connection_lt ha hv) ?_
      exact he ▸ connects_of hv
    · split
      · exact List.nil_subset _
      · exact List.Subset.refl _
  | @sleep u l =>
    exact hkeep rfl ((hgoto u (.accepting l false) rfl).moves (fun _ _ => id) rfl rfl rfl)
  | @leave u => exact hkeep rfl (hgoto u .busy rfl)
  | spawn => exact hkeep rfl ((hgoto s.threads .busy rfl).moves (fun _ _ => id) rfl rfl rfl)
  | refuse hp _ _ hserve =>
    -- No `Accept` takes a request for which it gets no fid.
    exact absurd (hc.accepts _ hp).1 hserve
  | @serve u l r m rs f fid hp hu hq _ =>
    obtain ⟨-, htake⟩ := hc.accepts _ hp
    obtain ⟨v, -, hv, halone⟩ := htake r (by simp [SCB.queue_eq hq])
    have hwait := connection_of_pc hv
    refine hkeep ?_ (h.serve ha (ha.req r (ha.queue l r (SCB.mem_queue hq))) hq
      (pops_ne_unbound hk hp) hwait fun v' hne i w hv' he => ?_)
    · obtain ⟨scb, receive, send⟩ := m
      cases receive <;> cases send <;> rfl
    · exact halone v' (connection_lt ha hv') hne (he ▸ connects_of hv')
  | request _ _ _ hl _ hunbound => exact h.makeRequest ha hunbound hl
  | @answer u r w =>
    unfold Sockets.answer
    simp only
    split <;> exact hkeep rfl ((hgoto u .busy rfl).moves (fun _ _ => id) rfl rfl rfl)
  | @timeout u r he hu =>
    subst he
    have hwait := connection_of_pc hu
    refine hkeep rfl (h.timesOut hwait fun l hl => ?_)
    have hclosed := hc.timesOut r (by rw [hu]; rfl)
    -- The condition is about the sockets there are; the others have no queue.
    by_cases hlt : l < s.scbs
    · exact hclosed l hlt hl
    · rw [(ha.blank l (Nat.le_of_not_lt hlt)).1]
      exact List.not_mem_nil
  | @shut u sock how =>
    have hs := Sockets.shuts_shutDown s.sockets how (denoted s.toFileTables (s.owner u) sock)
    refine hkeep (by rw [hs.eq]; rfl) (h.keep (fun v x hv => ?_) (by rw [hs.eq]) ?_ fun l hl => ?_)
    · rw [hs.eq] at hv
      exact hv
    · exact fun _ _ _ _ hunbound => hk.shutDown_unbound how _ hunbound
    · rw [hs.eq] at hl
      rw [hs.scb l]
      exact ⟨hl, List.Subset.refl _⟩
  | @close u f k n _ _ _ _ hclose =>
    have heq := Sockets.close_eq hclose
    refine hkeep (by rw [heq]; rfl) (h.keep (fun v x hv => ?_) (by rw [heq]) ?_ fun l hl => ?_)
    · rw [Sockets.close_connection hclose] at hv
      exact hv
    · exact fun _ _ _ _ hunbound => hk.close_unbound hclose hunbound
    · -- A queue that is left is as it was; that of `k` is not looked at any more.
      rw [Sockets.close_freed hclose, Function.update_apply] at hl
      rw [Sockets.close_scb hclose l]
      split at hl
      · omega
      · exact ⟨hl, List.Subset.refl _⟩

/-! ## What a failure leaves -/

/-- **Whenever `Connect` returns -1 from `s`, its socket is as it was at the call**, UNBOUND and not
referred to, and its request, if it made one, is in no queue. -/
structure FailsClean (s : Streams) (before : Nat → SCB) : Prop where
  /-- A call that made no request has returned. (`confused`: its fid was of no socket.) -/
  atOnce : ∀ u sock port malloc s', s.perform (.connect u sock port malloc) = some s' →
    s'.confused = false → s'.reqs = s.reqs → s'.sockets = s.sockets
  later : ∀ u data m r w s', s.pc u = .connecting r w → s.perform (.resume u data m) = some s' →
    s'.refused = s.refused ++ [r] → s'.scb (s'.req r).socket = before r ∧
      (before r).type = .unbound ∧ (before r).refcount = 0 ∧
      ∀ l, s'.freedSCB l = 0 → r ∉ (s'.scb l).queue

/-- A `Connect` that makes no request changes nothing. -/
theorem connect_atOnce {u : Nat} {sock port : Int} {malloc : Bool}
    (hs : s.perform (.connect u sock port malloc) = some s') (hreqs : s'.reqs = s.reqs) :
    s'.sockets = s.sockets := by
  have hcall : s.sysConnect u sock port malloc = some s' := perform_call rfl hs
  rcases sockets_sysConnect hcall with hsame | ⟨k, l, -, -, -, -, hs'⟩
  · exact hsame
  · have hnew : s'.reqs = s.reqs + 1 := by
      change s'.sockets.reqs = _
      rw [hs', Sockets.request_eq]
      rfl
    omega

theorem failsClean {before : Nat → SCB} (h : s.sockets.Clean before) (hk : s.sockets.Kinds) :
    s.FailsClean before := by
  refine ⟨fun u sock port malloc s' hs _ => connect_atOnce hs, fun u data m r w s' hu hs href => ?_⟩
  have hconn := connection_of_pc hu
  have hanswer : w ≠ .asleep ∧ s'.sockets = s.sockets.answer u r w := by
    have hs := perform_resume hs
    simp only [Streams.resume, hu] at hs
    cases w with
    | asleep => exact absurd hs (by simp)
    | signalled | timedOut =>
      cases hs
      exact ⟨by simp, s.sockets_resumeConnect u r _⟩
  obtain ⟨hasleep, hs'⟩ := hanswer
  have href' : (s.sockets.answer u r w).refused = s.refused ++ [r] := by
    rw [← hs']
    exact href
  -- One that is woken was accepted, and is not refused.
  have hout : w = .timedOut := by
    cases w with
    | asleep => exact absurd rfl hasleep
    | signalled =>
      have hyes : ((s.sockets.goto u .busy).req r).accepted = true := h.signalled u r hconn
      simp only [Sockets.answer, hyes, and_self, if_true] at href'
      exact absurd (congrArg List.length href') (by simp [Sockets.goto, sockets])
    | timedOut => rfl
  subst hout
  have heq : s'.sockets = { s.sockets.goto u .busy with refused := s.refused ++ [r] } := by
    rw [hs', Sockets.answer]
    simp only
    rw [if_neg (by simp)]
    rfl
  have hscb : s'.scb = s.scb := congrArg Sockets.scb heq
  have hreq : s'.req = s.req := congrArg Sockets.req heq
  have hfreed : s'.freedSCB = s.freedSCB := congrArg Sockets.freedSCB heq
  rw [hscb, hreq, hfreed]
  obtain ⟨hsame, hunbound⟩ := h.waiting u r .timedOut hconn (by simp)
  refine ⟨hsame, hunbound, ?_, h.timedOut u r hconn⟩
  rw [← hsame]
  exact hk.unbound _ (by rw [hsame, hunbound])

/-- The streams with the history of the sockets of the `Connect`s. -/
abbrev noted : Sys (Streams × (Nat → SCB)) StreamAction :=
  streamSys.record (fun _ => .blank) fun s _ s' => s.sockets.noteBefore s'.sockets

theorem kinds (hr : streamSys.ReachIf Undisturbed s) : s.sockets.Kinds := by
  induction hr with
  | init hi =>
    obtain ⟨serialPorts, rfl⟩ := hi
    constructor <;> simp [sockets, Streams.initial]
  | step hr hc hs ih => exact (socketStep hs).kinds ih (allotted hr) hc.accepts

theorem clean {x : Streams × (Nat → SCB)}
    (hr : noted.ReachIf (fun x a => x.1.Undisturbed a) x) : x.1.sockets.Clean x.2 := by
  induction hr with
  | @init x hi =>
    obtain ⟨⟨serialPorts, hx⟩, -⟩ := hi
    have hpc : ∀ u, (x.1.sockets.pc u).connection = none := by
      intro u
      rw [hx]
      simp only [sockets, Streams.initial]
      split <;> rfl
    constructor
    case waiting => exact fun u _ _ hu => absurd (hpc u ▸ hu) (by simp)
    case signalled => exact fun u _ hu => absurd (hpc u ▸ hu) (by simp)
    case timedOut => exact fun u _ hu => absurd (hpc u ▸ hu) (by simp)
  | step hr hc hs ih =>
    obtain ⟨s', hs', rfl⟩ := Option.map_eq_some_iff.mp hs
    have hr := hr.of_record
    exact (socketStep hs').clean ih (kinds hr) (allotted hr) hc

end Streams

end TinyOS
