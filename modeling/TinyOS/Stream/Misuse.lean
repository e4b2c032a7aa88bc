import Mathlib
import TinyOS.Stream.Opens
import TinyOS.Stream.Drop

/-!
# Calls on what is not a socket (`kernel_socket.c`)

`Listen`, `Accept`, `Connect` and `ShutDown` are each passed a fid, which may denote anything. They
check the range of the fid, the kind of its stream and the type of its socket, each in its own way,
and **`Connect` does not check the kind**: it takes the object of any stream for an SCB. What saves
it most often is the word that lies where an SCB has its `type`: as long as that is not 0, the call
fails at once, as it should. In a fresh pipe it is 0.

A fid may also denote a socket that was closed. That takes a `Socket` or an `OpenInfo` whose
`malloc` failed: it leaves a fid behind whose FCB still holds its last stream.
-/

set_option autoImplicit false

namespace TinyOS

open Transition

/-- The calls that want a socket. -/
inductive SocketCall where
  | listen (sock : Int)
  | accept (lsock : Int) (m : Mallocs)
  | connect (sock port : Int) (malloc : Bool)
  | shutDown (sock : Int) (how : ShutdownMode)

/-- By thread `u`. -/
def SocketCall.action (u : Nat) : SocketCall → StreamAction
  | .listen sock => .listen u sock
  | .accept lsock m => .accept u lsock m
  | .connect sock port malloc => .connect u sock port malloc
  | .shutDown sock how => .shutDown u sock how

namespace Sockets

variable {n n' : Sockets} {k : Nat}

/-- A live socket that is not UNBOUND any more can be told by its `refcount`. -/
def Marked (n : Sockets) : Prop :=
  ∀ k, (n.scb k).type ≠ .unbound → n.freedSCB k = 0 → (n.scb k).refcount ≠ 0

theorem Marked.congr (h : n.Marked) (htype : ∀ k, (n'.scb k).type = (n.scb k).type)
    (hfreed : n'.freedSCB = n.freedSCB)
    (hrefcount : ∀ k, (n.scb k).refcount ≠ 0 → (n'.scb k).refcount ≠ 0) : n'.Marked := by
  intro k hk hlive
  rw [htype] at hk
  rw [hfreed] at hlive
  exact hrefcount k (h k hk hlive)

theorem Marked.create (h : n.Marked) (f : Nat) (port fid : Int) : (n.create f port fid).Marked := by
  intro k hk hlive
  simp only [Sockets.create, Function.update_apply] at hk ⊢
  split
  · rename_i hnew
    simp [hnew] at hk
  · rename_i hold
    rw [if_neg hold] at hk
    exact h k hk hlive

theorem Marked.listen (h : n.Marked) (hzero : (n.scb k).refcount = 0) : (n.listen k).Marked := by
  intro i hi hlive
  simp only [Sockets.listen, Sockets.modifySCB, Function.update_apply] at hi ⊢
  split
  · simp [hzero]
  · rename_i hold
    rw [if_neg hold] at hi
    exact h i hi hlive

theorem Marked.popRequest (h : n.Marked) (l r : Nat) (rs : List Nat) :
    (n.popRequest l r rs).Marked := by
  refine h.congr (fun k => ?_) rfl fun k hk => ?_ <;> rw [popRequest_scb]
  simp only
  split
  · exact Int.one_ne_zero
  · exact hk

/-- Both peers are marked. -/
theorem Marked.serve (h : n.Marked) {u l r f : Nat} {rs : List Nat} {port fid : Int} {m : Mallocs}
    (hr : (n.req r).socket < n.scbs) : (n.serve u l r rs f port fid m).Marked := by
  intro i hi hlive
  by_cases hnew : i = (n.req r).socket ∨ i = n.scbs
  · rw [(serve_peers hr hnew).2.1]
    exact Int.one_ne_zero
  · obtain ⟨hne, hne'⟩ := not_or.mp hnew
    rw [serve_scb hr hne hne'] at hi ⊢
    rw [serve_eq hr] at hlive
    exact h i hi hlive

/-- What is closed is not live any more. -/
theorem Marked.close (h : n.Marked) {target : Option Nat} (hc : n.close target k = some n') :
    n'.Marked := by
  intro i hi hlive
  rw [close_freed hc, Function.update_apply] at hlive
  split at hlive
  · exact absurd hlive (Nat.succ_ne_zero _)
  · rename_i hne
    rw [close_other hc hne] at hi ⊢
    exact h i hi hlive

end Sockets

namespace Streams

variable {s s' : Streams} {a : StreamAction} {n : Sockets} {u : Nat}

theorem SocketStep.marked (h : s.sockets.Marked) (ha : s.sockets.Allotted)
    (hs : SocketStep s a n) : n.Marked := by
  have hsame : ∀ n : Sockets, n.scb = s.scb → n.freedSCB = s.freedSCB → n.Marked := by
    intro n hscb hfreed
    refine h.congr (fun k => ?_) hfreed fun k hk => ?_ <;> rw [hscb]
    · rfl
    · exact hk
  cases hs with
  | quiet => exact h
  | forget | pipe | sleep | leave | timeout | spawn => exact hsame _ rfl rfl
  | create f port fid _ => exact h.create f port fid
  | listen _ _ _ _ hzero => exact h.listen hzero
  | @refuse u l r m rs _ _ _ _ =>
    have hpop := (hsame (s.sockets.goto u .busy) rfl rfl).popRequest l r rs
    exact hpop.congr (fun _ => rfl) rfl fun _ => id
  | @serve u l r m rs f fid _ _ hq _ =>
    exact h.serve (ha.req r (ha.queue l r (SCB.mem_queue hq)))
  | @request u k l sock port malloc =>
    refine h.congr (fun i => ?_) ?_ fun i hi => ?_
    · rw [Sockets.request_scb]
    · rw [Sockets.request_eq]
    · rw [Sockets.request_scb]
      exact hi
  | answer =>
    unfold Sockets.answer
    simp only
    split <;> exact hsame _ rfl rfl
  | @shut u sock how =>
    have hshut := Sockets.shuts_shutDown s.sockets how (denoted s.toFileTables (s.owner u) sock)
    refine h.congr (fun i => ?_) (by rw [hshut.eq]) fun i hi => ?_
    · rw [hshut.scb]
    · rw [hshut.scb]
      exact hi
  | close _ _ _ _ hclose => exact h.close hclose

/-- In every state reached. -/
theorem marked (hr : streamSys.Reach s) : s.sockets.Marked := by
  induction hr with
  | init hi =>
    obtain ⟨serialPorts, rfl⟩ := hi
    exact fun k hk => absurd rfl hk
  | step hr _ hs ih => exact (socketStep hs).marked ih (allotted hr)

/-! ## What the calls return -/

/-- `sys_Listen`: 0 or -1. -/
def sysListenAnswer (s : Streams) (p : Nat) (sock : Int) : Int :=
  match (s.getFCB p sock).bind fun f => (s.FT f).stream with
  | some (.socket k) =>
    if (s.scb k).port ≠ 0 ∧ s.PortMap (s.scb k).port = none ∧ (s.scb k).refcount = 0 then 0 else -1
  | _ => -1

/-- `sys_ShutDown`. -/
def sysShutDownAnswer (s : Streams) (p : Nat) (sock : Int) : Int :=
  match (s.getFCB p sock).bind fun f => (s.FT f).stream with
  | some (.socket k) =>
    match (s.scb k).type, (s.scb k).peer with
    | .peer, some _ => 0
    | _, _ => -1
  | _ => -1

/-- `sys_Connect`, where it does not crash: -1, or it sleeps. -/
def sysConnectAnswer (s : Streams) (u : Nat) (sock port : Int) (malloc : Bool) : Answer :=
  if sock < 0 ∨ (MAX_FILEID : Int) ≤ sock ∨ port < 0 ∨ MAX_PORT < port then .error
  else
    match s.PortMap port with
    | none => .error
    | some l =>
      if (s.scb l).type ≠ .listener then .error
      else
        match s.getFCB (s.owner u) sock with
        | none => .error
        | some f =>
          match (s.FT f).stream with
          | some (.socket k) =>
            if (s.scb k).type ≠ .unbound ∨ malloc = false then .error else .asleep
          | _ => if s.looksUnbound f ∧ malloc = true then .asleep else .error

/-- The call returns an error. -/
def Fails (s : Streams) (u : Nat) : SocketCall → Prop
  | .listen sock => s.sysListenAnswer (s.owner u) sock = -1
  | .accept lsock m => s.sysAcceptAnswer u lsock m = .error
  | .connect sock port malloc => s.sysConnectAnswer u sock port malloc = .error
  | .shutDown sock _ => s.sysShutDownAnswer (s.owner u) sock = -1

/-- **The call is refused**: it returns an error at once, and nothing has changed. -/
def Refuses (s : Streams) (u : Nat) (c : SocketCall) : Prop :=
  s.Fails u c ∧ ∃ b, s.call u (c.action u) = some { s with touchedFreed := b }

/-! ## When they should be refused -/

/-- The fid denotes no open socket, or one in the wrong state. -/
def Misused (s : Streams) (u : Nat) (c : SocketCall) : Prop :=
  match c with
  | .listen sock => ∀ k, denoted s.toFileTables (s.owner u) sock = some k → s.freedSCB k = 0 →
      (s.scb k).type ≠ .unbound ∨ (s.scb k).port = 0
  | .accept lsock _ => ∀ k, denoted s.toFileTables (s.owner u) lsock = some k →
      s.freedSCB k = 0 → (s.scb k).type ≠ .listener
  | .connect sock _ _ => ∀ k, denoted s.toFileTables (s.owner u) sock = some k →
      s.freedSCB k = 0 → (s.scb k).type ≠ .unbound
  | .shutDown sock _ => ∀ k, denoted s.toFileTables (s.owner u) sock = some k →
      s.freedSCB k = 0 → (s.scb k).type ≠ .peer ∨ (s.scb k).peer = none

/-- The FCB has an object, and `sys_Connect` does not find there what it takes for an UNBOUND
socket, or it gets no memory for its request. -/
def TurnedAway (s : Streams) (f : Nat) (malloc : Bool) : Prop :=
  match (s.FT f).stream with
  | none | some .null => False
  | some (.socket k) => (s.scb k).type ≠ .unbound ∨ malloc = false
  | some (.serial _) | some (.reader _) | some (.writer _) | some .info =>
    ¬ s.looksUnbound f ∨ malloc = false

/-- Whatever `Connect` gets to is turned away, unless it is an open socket. An SCB that was freed
does not look like one that the call wants. -/
def Checked (s : Streams) (u : Nat) (c : SocketCall) : Prop :=
  match c with
  | .listen sock => ∀ k, denoted s.toFileTables (s.owner u) sock = some k → s.freedSCB k ≠ 0 →
      ¬ ((s.scb k).port ≠ 0 ∧ s.PortMap (s.scb k).port = none ∧ (s.scb k).refcount = 0)
  | .accept lsock _ => ∀ k, denoted s.toFileTables (s.owner u) lsock = some k →
      s.freedSCB k ≠ 0 → (s.scb k).type = .listener → s.PortMap (s.scb k).port = none
  | .connect sock port malloc => ∀ f l, s.getFCB (s.owner u) sock = some f →
      0 ≤ port → port ≤ MAX_PORT → s.PortMap port = some l → (s.scb l).type = .listener →
      (∀ k, (s.FT f).stream = some (.socket k) → s.freedSCB k ≠ 0) → s.TurnedAway f malloc
  | .shutDown sock _ => ∀ k, denoted s.toFileTables (s.owner u) sock = some k →
      s.freedSCB k ≠ 0 → (s.scb k).type ≠ .peer ∨ (s.scb k).peer = none

theorem access_eq (s : Streams) (k : Nat) : ∃ b, s.access k = { s with touchedFreed := b } := by
  unfold access
  split
  · exact ⟨s.touchedFreed, rfl⟩
  · exact ⟨true, rfl⟩

/-- The stream of a fid, by kind. -/
theorem stream_cases (s : Streams) (p : Nat) (sock : Int) :
    (∃ k, ((s.getFCB p sock).bind fun f => (s.FT f).stream) = some (.socket k) ∧
      denoted s.toFileTables p sock = some k) ∨
    (∀ k, ((s.getFCB p sock).bind fun f => (s.FT f).stream) ≠ some (.socket k)) ∧
      denoted s.toFileTables p sock = none := by
  unfold denoted
  cases (s.getFCB p sock).bind fun f => (s.FT f).stream with
  | none => exact .inr ⟨by simp, rfl⟩
  | some st =>
    cases st with
    | socket k => exact .inl ⟨k, rfl, rfl⟩
    | null | serial | reader | writer | info => exact .inr ⟨by simp, rfl⟩

theorem refuses_listen (s : Streams) (u : Nat) (sock : Int) :
    s.Refuses u (.listen sock) ↔ ∀ k, denoted s.toFileTables (s.owner u) sock = some k →
      ¬ ((s.scb k).port ≠ 0 ∧ s.PortMap (s.scb k).port = none ∧ (s.scb k).refcount = 0) := by
  simp only [Refuses, Fails, SocketCall.action, call]
  unfold sysListenAnswer sysListen
  rcases s.stream_cases (s.owner u) sock with ⟨k, hst, hk⟩ | ⟨hst, hk⟩
  · obtain ⟨b, hb⟩ := s.access_eq k
    simp only [hst, hk, Option.some.injEq, forall_eq', hb]
    split
    · rename_i hpass
      exact iff_of_false (fun h => absurd h.1 (by decide)) (not_not.mpr hpass)
    · rename_i hfail
      exact iff_of_true ⟨rfl, b, rfl⟩ hfail
  · refine iff_of_true ?_ (by simp [hk])
    simp only
    exact ⟨trivial, s.touchedFreed, rfl⟩

/-- An `Accept` that gets no fid has popped its request. -/
theorem acceptRequest_moves {p l : Nat} {m : Mallocs} (hs : s.acceptRequest p l m = some s')
    (herr : s.acceptRequestAnswer p l m = .error) : s'.scb ≠ s.scb := by
  obtain ⟨r, rs, hq, hcase⟩ := sockets_acceptRequest hs
  simp only [acceptRequestAnswer, hq, popRequest_port] at herr
  rw [sysSocket_fst (quiet_popRequest s l r rs).files] at herr
  rcases hcase with ⟨-, hn⟩ | ⟨hsome, -⟩
  · intro hsame
    have hscb : s'.scb l = (s.sockets.popRequest l r rs).scb l :=
      congrFun (congrArg Sockets.scb hn) l
    rw [Sockets.popRequest_scb, hsame] at hscb
    have hqueue := congrArg SCB.reqQueue hscb
    simp [hq] at hqueue
  · obtain ⟨fid, hfid⟩ := Option.ne_none_iff_exists'.mp hsome
    rw [hfid] at herr
    exact absurd herr (by simp [Answer.ofFid])

theorem refuses_accept (s : Streams) (u : Nat) (lsock : Int) (m : Mallocs) :
    s.Refuses u (.accept lsock m) ↔ ∀ k, denoted s.toFileTables (s.owner u) lsock = some k →
      (s.scb k).type = .listener → s.PortMap (s.scb k).port = none := by
  simp only [Refuses, Fails, SocketCall.action, call]
  unfold sysAcceptAnswer sysAccept
  rcases s.stream_cases (s.owner u) lsock with ⟨k, hst, hk⟩ | ⟨hst, hk⟩
  · obtain ⟨b, hb⟩ := s.access_eq k
    have hscb : (s.access k).scb = s.scb := congrArg Sockets.scb (s.sockets_access k)
    have hport : (s.access k).PortMap = s.PortMap := congrArg Sockets.PortMap (s.sockets_access k)
    simp only [hst, hk, Option.some.injEq, forall_eq', hscb, hport]
    by_cases hfail : (s.scb k).type ≠ .listener ∨ s.PortMap (s.scb k).port = none
    · rw [if_pos hfail, if_pos hfail]
      exact iff_of_true ⟨rfl, b, congrArg some hb⟩ fun h => hfail.resolve_left (not_not.mpr h)
    rw [if_neg hfail, if_neg hfail]
    obtain ⟨htype, hport'⟩ := not_or.mp hfail
    refine iff_of_false ?_ fun h => hport' (h (not_not.mp htype))
    -- It sleeps, or it takes a request.
    split
    · exact fun h => absurd h.1 (by simp)
    · rintro ⟨herr, b', hs⟩
      exact acceptRequest_moves hs herr hscb.symm
  · refine iff_of_true ?_ (by simp [hk])
    simp only
    exact ⟨trivial, s.touchedFreed, rfl⟩

/-- A fid that denotes an FCB is in range. -/
theorem range_of_getFCB {t : FileTables} {p f : Nat} {fid : Int} (h : t.getFCB p fid = some f) :
    0 ≤ fid ∧ fid < MAX_FILEID := by
  unfold FileTables.getFCB at h
  split at h
  · exact absurd h (by simp)
  · omega

theorem refuses_connect (s : Streams) (u : Nat) (sock port : Int) (malloc : Bool) :
    s.Refuses u (.connect sock port malloc) ↔ ∀ f l, s.getFCB (s.owner u) sock = some f →
      0 ≤ port → port ≤ MAX_PORT → s.PortMap port = some l → (s.scb l).type = .listener →
      s.TurnedAway f malloc := by
  simp only [Refuses, Fails, SocketCall.action, call]
  unfold sysConnectAnswer sysConnect
  by_cases hrange : sock < 0 ∨ (MAX_FILEID : Int) ≤ sock ∨ port < 0 ∨ MAX_PORT < port
  · rw [if_pos hrange, if_pos hrange]
    refine iff_of_true ⟨rfl, s.touchedFreed, rfl⟩ fun f l hf h₁ h₂ => ?_
    have := range_of_getFCB hf
    omega
  rw [if_neg hrange, if_neg hrange]
  cases hport : s.PortMap port with
  | none => exact iff_of_true ⟨rfl, s.touchedFreed, rfl⟩ (by simp)
  | some l =>
    obtain ⟨b, hb⟩ := s.access_eq l
    simp only [hb, Option.some.injEq]
    by_cases htype : (s.scb l).type = .listener
    case neg =>
      simp only [ne_eq, htype, not_false_eq_true, if_true]
      exact iff_of_true ⟨trivial, b, rfl⟩ fun f l' _ _ _ he => he ▸ fun h => absurd h htype
    simp only [ne_eq, htype, not_true_eq_false, if_false]
    cases hf : s.getFCB (s.owner u) sock with
    | none => exact iff_of_true ⟨rfl, b, rfl⟩ (by simp)
    | some f =>
      simp only [Option.some.injEq]
      have hport' : 0 ≤ port ∧ port ≤ MAX_PORT := by omega
      have hmap : (∀ f' l', f = f' → 0 ≤ port → port ≤ MAX_PORT → l = l' →
          (s.scb l').type = .listener → s.TurnedAway f' malloc) ↔ s.TurnedAway f malloc := by
        refine ⟨fun h => h f l rfl hport'.1 hport'.2 rfl htype, ?_⟩
        rintro h f' l' rfl - - rfl -
        exact h
      rw [hmap]
      unfold TurnedAway
      cases hst : (s.FT f).stream with
      | none => exact iff_of_false (by simp) id
      | some st =>
        cases st with
        | null => exact iff_of_false (by simp) id
        | serial | reader | writer | info =>
          simp only [connectOther]
          by_cases hlooks : s.looksUnbound f ∧ malloc = true
          · rw [if_pos hlooks]
            exact iff_of_false (by simp) (by simpa using hlooks)
          · rw [if_neg hlooks, if_neg (by exact hlooks)]
            refine iff_of_true ⟨rfl, b, rfl⟩ ?_
            rwa [not_and_or, Bool.not_eq_true] at hlooks
        | socket k =>
          obtain ⟨b', hb'⟩ := ({ s with touchedFreed := b } : Streams).access_eq k
          simp only [hb']
          split
          · rename_i hno
            exact iff_of_true ⟨rfl, b', rfl⟩ hno
          · rename_i hpass
            exact iff_of_false (by simp) hpass

theorem refuses_shutDown (s : Streams) (u : Nat) (sock : Int) (how : ShutdownMode) :
    s.Refuses u (.shutDown sock how) ↔ ∀ k, denoted s.toFileTables (s.owner u) sock = some k →
      (s.scb k).type ≠ .peer ∨ (s.scb k).peer = none := by
  simp only [Refuses, Fails, SocketCall.action, call]
  unfold sysShutDownAnswer sysShutDown
  rcases s.stream_cases (s.owner u) sock with ⟨k, hst, hk⟩ | ⟨hst, hk⟩
  · obtain ⟨b, hb⟩ := s.access_eq k
    simp only [hst, hk, Option.some.injEq, forall_eq', hb]
    cases htype : (s.scb k).type with
    | unbound | listener => exact iff_of_true ⟨rfl, b, rfl⟩ (.inl (by simp))
    | peer =>
      cases hpeer : (s.scb k).peer with
      | none => exact iff_of_true ⟨rfl, b, rfl⟩ (.inr rfl)
      | some j =>
        exact iff_of_false (fun h => absurd (show (0 : Int) = -1 from h.1) (by decide)) (by simp)
  · refine iff_of_true ?_ (by simp [hk])
    simp only
    exact ⟨trivial, s.touchedFreed, rfl⟩

/-- What a fid denotes is the object of the stream of its FCB. -/
theorem denoted_of_getFCB {p f k : Nat} {sock : Int} (hf : s.getFCB p sock = some f)
    (hst : (s.FT f).stream = some (.socket k)) : denoted s.toFileTables p sock = some k := by
  unfold denoted
  rw [hf, Option.bind_some, hst]
  rfl

end Streams

end TinyOS
