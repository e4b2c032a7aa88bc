import TinyOS.Stream.Frames

/-!
# The sockets of the kernel

What is left of a state when files and processes are forgotten: the SCBs, the ports, the connection
requests and the threads that sleep in `Accept` and `Connect`. Each function on sockets is here once
more as it acts on this part of the state, with the theorem that it does.
-/

set_option autoImplicit false

namespace TinyOS

/-- The places that matter here; `busy` stands for all others but `unborn`. -/
inductive SocketPc where
  | unborn
  | busy
  | accepting (k : Nat) (ready : Bool)
  | connecting (r : Nat) (w : TimedWait)
  deriving DecidableEq

namespace SocketPc

def wakeAcceptor (k : Nat) : SocketPc → SocketPc
  | .accepting k' ready => .accepting k' (ready || decide (k' = k))
  | pc => pc

def wakeConnector (r : Nat) : SocketPc → SocketPc
  | .connecting r' .asleep => .connecting r' (if r' = r then .signalled else .asleep)
  | pc => pc

end SocketPc

def StreamPc.socketPc : StreamPc → SocketPc
  | .unborn => .unborn
  | .accepting k ready => .accepting k ready
  | .connecting r w => .connecting r w
  | _ => .busy

def Stream.socket? : Stream → Option Nat
  | .socket k => some k
  | _ => none

/-- The requests in the queue of an SCB, if it has one. -/
def SCB.queue (b : SCB) : List Nat := b.reqQueue.getD []

theorem SCB.queue_eq {b : SCB} {rs : List Nat} (h : b.reqQueue = some rs) : b.queue = rs := by
  rw [SCB.queue, h]
  rfl

theorem SCB.mem_queue {b : SCB} {r : Nat} {rs : List Nat} (h : b.reqQueue = some (r :: rs)) :
    r ∈ b.queue := by
  rw [SCB.queue_eq h]
  exact List.mem_cons_self

structure Sockets where
  scb : Nat → SCB
  scbs : Nat
  freedSCB : Nat → Nat
  PortMap : Int → Option Nat
  acceptors : Nat → List Nat
  req : Nat → ConnReq
  reqs : Nat
  /-- Pipes are handed out to sockets, and to `Pipe`. -/
  pipes : Nat
  pc : Nat → SocketPc
  threads : Nat
  /-- The socket that an FCB holds, or held last. -/
  socket : Nat → Option Nat
  accepted : List Nat
  connected : List Nat
  refused : List Nat

def Streams.sockets (s : Streams) : Sockets where
  scb := s.scb
  scbs := s.scbs
  freedSCB := s.freedSCB
  PortMap := s.PortMap
  acceptors := s.acceptors
  req := s.req
  reqs := s.reqs
  pipes := s.pipes
  pc u := (s.pc u).socketPc
  threads := s.threads
  socket f := (s.FT f).stream.bind Stream.socket?
  accepted := s.accepted
  connected := s.connected
  refused := s.refused

namespace Sockets

def goto (n : Sockets) (u : Nat) (pc : SocketPc) : Sockets :=
  { n with pc := Function.update n.pc u pc }

def modifySCB (n : Sockets) (k : Nat) (f : SCB → SCB) : Sockets :=
  { n with scb := Function.update n.scb k (f (n.scb k)) }

def signalReqs (n : Sockets) (k : Nat) : Sockets :=
  match n.acceptors k with
  | [] => n
  | u :: us =>
    { n.goto u ((n.pc u).wakeAcceptor k) with
      acceptors := Function.update n.acceptors k us }

def broadcastReqs (n : Sockets) (k : Nat) : Sockets :=
  { n with
    pc := fun u => (n.pc u).wakeAcceptor k
    acceptors := Function.update n.acceptors k [] }

def signalConn (n : Sockets) (r : Nat) : Sockets :=
  { n with pc := fun u => (n.pc u).wakeConnector r }

/-- The streams that the FCBs of `fs` get are no sockets. -/
def forget (n : Sockets) (fs : List Nat) : Sockets :=
  { n with socket := fun f => if f ∈ fs then none else n.socket f }

def newPipe (n : Sockets) (malloc : Bool) : Option Nat × Sockets :=
  if malloc then (some n.pipes, { n with pipes := n.pipes + 1 }) else (none, n)

/-- The FCB `f` gets a new socket. -/
def create (n : Sockets) (f : Nat) (port fid : Int) : Sockets :=
  { n with
    scb := Function.update n.scb n.scbs
      { refcount := 0, port := port, type := .unbound, reqQueue := none
        peer := none, send := none, receive := none
        fid := if port = 0 then 0 else fid }
    scbs := n.scbs + 1
    socket := Function.update n.socket f (some n.scbs) }

def listen (n : Sockets) (k : Nat) : Sockets :=
  { n.modifySCB k fun b =>
      { b with
        reqQueue := some [], peer := none, send := none, receive := none
        refcount := b.refcount + 1, type := .listener } with
    PortMap := Function.update n.PortMap (n.scb k).port (some k) }

def sleep (n : Sockets) (u l : Nat) : Sockets :=
  { n.goto u (.accepting l false) with
    acceptors := Function.update n.acceptors l (n.acceptors l ++ [u]) }

/-- The request `r` of the socket `k` is queued at the listener `l`, by thread `u`. -/
def request (n : Sockets) (u k l : Nat) : Sockets :=
  let n' := { n with
    req := Function.update n.req n.reqs { socket := k, accepted := false }
    reqs := n.reqs + 1 }
  let n' := n'.modifySCB l fun b => { b with reqQueue := b.reqQueue.map (· ++ [n.reqs]) }
  (n'.signalReqs l).goto u (.connecting n.reqs .asleep)

def popRequest (n : Sockets) (l r : Nat) (rs : List Nat) : Sockets :=
  (n.modifySCB l fun b => { b with reqQueue := some rs }).modifySCB (n.req r).socket fun b =>
    { b with refcount := 1 }

def createPipe (n : Sockets) (k j : Nat) (m : Mallocs) : Sockets :=
  let (receive, n) := n.newPipe m.receive
  let (send, n) := n.newPipe m.send
  let n := n.modifySCB k fun b => { b with send := send, receive := receive }
  n.modifySCB j fun b => { b with send := receive, receive := send }

def setAccepted (n : Sockets) (r : Nat) : Sockets :=
  { n with
    req := Function.update n.req r { n.req r with accepted := true }
    accepted := n.accepted ++ [r] }

def connectPeers (n : Sockets) (k j r : Nat) (m : Mallocs) : Sockets :=
  let n := n.modifySCB k fun b => { b with refcount := 1, type := .peer, peer := some j }
  let n := n.modifySCB j fun b => { b with type := .peer, peer := some k, reqQueue := none }
  ((n.createPipe k j m).setAccepted r).signalConn r

def answer (n : Sockets) (u r : Nat) (w : TimedWait) : Sockets :=
  let n := n.goto u .busy
  if w = .signalled ∧ (n.req r).accepted = true then { n with connected := n.connected ++ [r] }
  else { n with refused := n.refused ++ [r] }

def shutRead (n : Sockets) (k j : Nat) : Sockets :=
  match (n.scb k).receive with
  | none => n
  | some _ =>
    (n.modifySCB k fun b => { b with receive := none }).modifySCB j fun b => { b with send := none }

def shutWrite (n : Sockets) (k : Nat) : Sockets :=
  match (n.scb k).send with
  | none => n
  | some _ => n.modifySCB k fun b => { b with send := none }

/-- `sys_ShutDown` of what a fid denotes. -/
def shutDown (n : Sockets) (how : ShutdownMode) : Option Nat → Sockets
  | none => n
  | some k =>
    match (n.scb k).type, (n.scb k).peer with
    | .peer, some j =>
      let n := if how = .read ∨ how = .both then n.shutRead k j else n
      if how = .write ∨ how = .both then n.shutWrite k else n
    | _, _ => n

def listenerClose (n : Sockets) (k : Nat) : Sockets :=
  let n := n.modifySCB k fun b => { b with refcount := 0 }
  let n := n.broadcastReqs k
  let port := (n.scb k).port
  if n.PortMap port = some k then { n with PortMap := Function.update n.PortMap port none } else n

/-- The close of a peer; `target` is the socket that its `fid` denotes at that time. -/
def peerClose (n : Sockets) (target : Option Nat) (k : Nat) : Option Sockets :=
  let n := n.shutDown .both target
  match (n.scb k).peer with
  | none => none
  | some j => some (n.modifySCB j fun b => { b with receive := none })

def freeSCB (n : Sockets) (k : Nat) : Sockets :=
  { n with freedSCB := Function.update n.freedSCB k (n.freedSCB k + 1) }

def close (n : Sockets) (target : Option Nat) (k : Nat) : Option Sockets :=
  match (n.scb k).type with
  | .unbound => some (n.freeSCB k)
  | .listener => some ((n.listenerClose k).freeSCB k)
  | .peer => (n.peerClose target k).map fun n => n.freeSCB k

def spawn (n : Sockets) : Sockets :=
  { n.goto n.threads .busy with threads := n.threads + 1 }

end Sockets

namespace Streams

/-! ## What the functions do to the sockets -/

variable (s : Streams)

@[simp] theorem sockets_access (k : Nat) : (s.access k).sockets = s.sockets := by
  unfold access
  split <;> rfl

@[simp] theorem access_toFileTables (k : Nat) : (s.access k).toFileTables = s.toFileTables := by
  unfold access
  split <;> rfl

@[simp] theorem sockets_modifySCB (k : Nat) (f : SCB → SCB) :
    (s.modifySCB k f).sockets = s.sockets.modifySCB k f := rfl

@[simp] theorem sockets_setPipe (q : Nat) (b : PipeCB) : (s.setPipe q b).sockets = s.sockets := rfl

theorem sockets_goto (u : Nat) (pc : StreamPc) :
    (s.goto u pc).sockets = s.sockets.goto u pc.socketPc := by
  have hpc : (fun v => (Function.update s.pc u pc v).socketPc) =
      Function.update (fun v => (s.pc v).socketPc) u pc.socketPc := by
    funext v
    simp only [Function.update_apply]
    split <;> rfl
  simp only [goto, sockets, Sockets.goto, hpc]

/-- A thread that stays outside of `Accept` and `Connect`. -/
theorem sockets_goto_busy {u : Nat} {pc : StreamPc} (hu : (s.pc u).socketPc = .busy)
    (hpc : pc.socketPc = .busy) : (s.goto u pc).sockets = s.sockets := by
  have hsame : Function.update s.sockets.pc u .busy = s.sockets.pc :=
    Function.update_eq_self_iff.mpr hu.symm
  rw [sockets_goto, hpc, Sockets.goto, hsame]

@[simp] theorem sockets_broadcastHasData (q : Nat) :
    (s.broadcastHasData q).sockets = s.sockets := by
  have hpc : (fun u => ((s.pc u).wakeReader q).socketPc) = fun u => (s.pc u).socketPc := by
    funext u
    cases s.pc u <;> rfl
  simp only [broadcastHasData, sockets, hpc]

@[simp] theorem sockets_broadcastHasSpace (q : Nat) :
    (s.broadcastHasSpace q).sockets = s.sockets := by
  have hpc : (fun u => ((s.pc u).wakeWriter q).socketPc) = fun u => (s.pc u).socketPc := by
    funext u
    cases s.pc u <;> rfl
  simp only [broadcastHasSpace, sockets, hpc]

theorem socketPc_wakeAcceptor (k : Nat) (pc : StreamPc) :
    (pc.wakeAcceptor k).socketPc = pc.socketPc.wakeAcceptor k := by
  cases pc <;> rfl

theorem socketPc_wakeConnector (r : Nat) (pc : StreamPc) :
    (pc.wakeConnector r).socketPc = pc.socketPc.wakeConnector r := by
  cases pc with
  | connecting r' w => cases w <;> rfl
  | _ => rfl

@[simp] theorem sockets_signalReqs (k : Nat) :
    (s.signalReqs k).sockets = s.sockets.signalReqs k := by
  have ha : s.sockets.acceptors = s.acceptors := rfl
  rw [signalReqs, Sockets.signalReqs, ha]
  cases s.acceptors k with
  | nil => rfl
  | cons u us =>
    have hgoto := s.sockets_goto u ((s.pc u).wakeAcceptor k)
    rw [socketPc_wakeAcceptor] at hgoto
    exact congrArg (fun n : Sockets =>
      { n with acceptors := Function.update s.acceptors k us }) hgoto

@[simp] theorem sockets_broadcastReqs (k : Nat) :
    (s.broadcastReqs k).sockets = s.sockets.broadcastReqs k := by
  simp only [broadcastReqs, sockets, Sockets.broadcastReqs, socketPc_wakeAcceptor]

@[simp] theorem sockets_signalConn (r : Nat) :
    (s.signalConn r).sockets = s.sockets.signalConn r := by
  simp only [signalConn, sockets, Sockets.signalConn, socketPc_wakeConnector]

@[simp] theorem sockets_writerClose (q : Nat) : (s.writerClose q).sockets = s.sockets := by
  unfold writerClose
  split
  · rfl
  · rw [sockets_broadcastHasData, sockets_setPipe]

@[simp] theorem sockets_readerClose (q : Nat) : (s.readerClose q).sockets = s.sockets := by
  unfold readerClose
  split
  · rfl
  · have hclose := sockets_writerClose
      ((s.setPipe q { s.pipe q with readerClosed := true }).broadcastHasSpace q) q
    rw [sockets_broadcastHasSpace, sockets_setPipe] at hclose
    exact hclose

@[simp] theorem sockets_shutRead (k j : Nat) :
    (s.shutRead k j).sockets = s.sockets.shutRead k j := by
  have hr : (s.sockets.scb k).receive = (s.scb k).receive := rfl
  rw [shutRead, Sockets.shutRead, hr]
  cases (s.scb k).receive with
  | none => rfl
  | some q => simp

@[simp] theorem sockets_shutWrite (k : Nat) :
    (s.shutWrite k).sockets = s.sockets.shutWrite k := by
  have hr : (s.sockets.scb k).send = (s.scb k).send := rfl
  rw [shutWrite, Sockets.shutWrite, hr]
  cases (s.scb k).send with
  | none => rfl
  | some q => simp

/-- The socket that a fid denotes in process `p`. -/
def denoted (t : FileTables) (p : Nat) (sock : Int) : Option Nat :=
  ((t.getFCB p sock).bind fun f => (t.FT f).stream).bind Stream.socket?

theorem sockets_sysShutDown (p : Nat) (sock : Int) (how : ShutdownMode) :
    (s.sysShutDown p sock how).sockets =
      s.sockets.shutDown how (denoted s.toFileTables p sock) := by
  rw [sysShutDown, denoted]
  cases (s.getFCB p sock).bind fun f => (s.FT f).stream with
  | none => rfl
  | some st =>
    cases st with
    | socket k =>
      have hscb : (s.access k).scb = s.sockets.scb := congrArg Sockets.scb (s.sockets_access k)
      simp only [Option.bind_some, Stream.socket?, Sockets.shutDown, hscb]
      cases (s.sockets.scb k).type with
      | unbound => exact s.sockets_access k
      | listener => exact s.sockets_access k
      | peer =>
        cases (s.sockets.scb k).peer with
        | none => exact s.sockets_access k
        | some j =>
          by_cases hw : how = .write ∨ how = .both <;> by_cases hr : how = .read ∨ how = .both <;>
            simp [hw, hr]
    | _ => rfl

theorem sockets_listenerClose (k : Nat) :
    (s.listenerClose k).sockets = s.sockets.listenerClose k := by
  have hb := ((s.modifySCB k fun b => { b with refcount := 0 }).sockets_broadcastReqs k)
  rw [sockets_modifySCB] at hb
  unfold listenerClose Sockets.listenerClose
  simp only [← hb]
  generalize (s.modifySCB k fun b => { b with refcount := 0 }).broadcastReqs k = s'
  change _ = if s'.PortMap (s'.scb k).port = some k then _ else _
  split <;> rfl

theorem sockets_peerClose {s s' : Streams} {p k : Nat} (h : s.peerClose p k = some s') :
    s.sockets.peerClose (denoted s.toFileTables p (s.scb k).fid) k = some s'.sockets := by
  unfold peerClose at h
  unfold Sockets.peerClose
  rw [← sockets_sysShutDown]
  simp only at h ⊢
  generalize s.sysShutDown p (s.scb k).fid .both = s₁ at h ⊢
  change (match (s₁.scb k).peer with | none => none | some j => _) = _
  cases hpeer : (s₁.scb k).peer with
  | none =>
    rw [hpeer] at h
    exact absurd h (by simp)
  | some j =>
    rw [hpeer] at h
    cases h
    rw [sockets_modifySCB, sockets_access]

/-- A `Close` method does nothing as long as the `refcount` of its SCB is above 1. -/
theorem sockets_socketClose {s s' : Streams} {p k : Nat} (h : s.socketClose p k = some s') :
    1 < (s.scb k).refcount ∧ s'.sockets = s.sockets ∨ (s.scb k).refcount ≤ 1 ∧
      s.sockets.close (denoted s.toFileTables p (s.scb k).fid) k = some s'.sockets := by
  have hscb : (s.access k).scb = s.scb := congrArg Sockets.scb (s.sockets_access k)
  unfold socketClose at h
  simp only [hscb] at h
  split at h
  · rename_i hlt
    cases h
    exact .inl ⟨hlt, s.sockets_access k⟩
  · rename_i hle
    refine .inr ⟨by omega, ?_⟩
    unfold Sockets.close
    cases htype : (s.scb k).type with
    | unbound =>
      have hsame : (s.sockets.scb k).type = .unbound := htype
      rw [htype] at h
      rw [hsame, ← s.sockets_access k]
      cases h
      rfl
    | listener =>
      have hsame : (s.sockets.scb k).type = .listener := htype
      rw [htype] at h
      rw [hsame, ← s.sockets_access k, ← sockets_listenerClose]
      cases h
      rfl
    | peer =>
      have hsame : (s.sockets.scb k).type = .peer := htype
      rw [htype] at h
      obtain ⟨s₁, hs₁, rfl⟩ := Option.map_eq_some_iff.mp h
      have hclose := sockets_peerClose hs₁
      rw [sockets_access, access_toFileTables, hscb] at hclose
      simp only [hsame, hclose, Option.map_some]
      rfl

theorem sockets_files {s : Streams} {t : FileTables}
    (h : ∀ f, (t.FT f).stream = (s.FT f).stream) :
    ({ s with toFileTables := t } : Streams).sockets = s.sockets := by
  simp only [sockets, h]

theorem sockets_decrementFCB (s : Streams) (f : Nat) :
    ({ s with toFileTables := s.decrementFCB f } : Streams).sockets = s.sockets :=
  sockets_files (s.decrementFCB_stream f)

/-- A fid denotes the same socket before and after a reference is dropped. -/
theorem denoted_decrementFCB (s : Streams) (p f : Nat) (fd : Int) :
    denoted (s.decrementFCB f) p fd = denoted s.toFileTables p fd := by
  simp only [denoted, FileTables.decrementFCB_stream]
  rfl

/-- `FCB_decref` closes a socket when its only reference is dropped. -/
theorem sockets_decrefFCB {s s' : Streams} {p f : Nat} (h : s.decrefFCB p f = some s') :
    s'.sockets = s.sockets ∧ (∀ k, (s.FT f).refcount = 1 → (s.FT f).stream = some (.socket k) →
        1 < (s.scb k).refcount) ∨
      ∃ k, (s.FT f).refcount = 1 ∧ (s.FT f).stream = some (.socket k) ∧
        (s.scb k).refcount ≤ 1 ∧
        s.sockets.close (denoted s.toFileTables p (s.scb k).fid) k = some s'.sockets := by
  have hfiles := s.sockets_decrementFCB f
  have hdenoted := s.denoted_decrementFCB p f
  unfold decrefFCB at h
  simp only [FileTables.decrementFCB_stream, FileTables.decrementFCB_refcount, if_true] at h
  split at h
  · rename_i hlast
    split at h
    · exact absurd h (by simp)
    rename_i st hst
    obtain ⟨s₁, hs₁, rfl⟩ := Option.map_eq_some_iff.mp h
    have hrelease : ({ s₁ with
        closes := s₁.closes ++ [s₁.opening f]
        toFileTables := s₁.releaseFCB f } : Streams).sockets = s₁.sockets := rfl
    rw [hrelease]
    -- No other kind of stream closes a socket.
    have hno : s₁.sockets = s.sockets → st.socket? = none → s₁.sockets = s.sockets ∧
        ∀ k, (s.FT f).refcount = 1 → (s.FT f).stream = some (.socket k) →
          1 < (s.scb k).refcount := by
      refine fun hsame hnone => ⟨hsame, fun k _ hk => ?_⟩
      obtain rfl := Option.some.inj (hst.symm.trans hk)
      exact absurd hnone (by simp [Stream.socket?])
    cases st with
    | null => exact .inl (hno (Option.some.inj hs₁ ▸ hfiles) rfl)
    | serial t => exact .inl (hno (Option.some.inj hs₁ ▸ hfiles) rfl)
    | info => exact .inl (hno (Option.some.inj hs₁ ▸ hfiles) rfl)
    | reader q => exact .inl (hno (Option.some.inj hs₁ ▸ (sockets_readerClose _ q).trans hfiles) rfl)
    | writer q => exact .inl (hno (Option.some.inj hs₁ ▸ (sockets_writerClose _ q).trans hfiles) rfl)
    | socket k =>
      rcases sockets_socketClose hs₁ with ⟨hlt, hsame⟩ | ⟨hle, hclose⟩
      · refine .inl ⟨hsame.trans hfiles, fun j _ hj => ?_⟩
        obtain rfl := Stream.socket.inj (Option.some.inj (hst.symm.trans hj))
        exact hlt
      · refine .inr ⟨k, by omega, hst, hle, ?_⟩
        rw [hfiles, hdenoted] at hclose
        exact hclose
  · rename_i hmore
    cases h
    exact .inl ⟨hfiles, fun k hone => absurd hone (by omega)⟩

/-- The stream of an FCB is opened. -/
theorem sockets_openFCB (f : Nat) (st : Stream) : (s.openFCB f st).sockets =
    { s.sockets with socket := Function.update s.sockets.socket f st.socket? } := by
  have hsocket : (fun g => ((s.modifyFCB f fun b => { b with stream := some st }).FT g).stream.bind
      Stream.socket?) = Function.update s.sockets.socket f st.socket? := by
    funext g
    rw [FileTables.modifyFCB_FT, Function.update_apply]
    split <;> rfl
  simp only [openFCB, sockets, hsocket]

theorem sockets_openStream (p : Nat) {device : Option Stream}
    (hdevice : ∀ st, device = some st → st.socket? = none) :
    (s.openStream p device).sockets = s.sockets ∨
      ∃ f, (s.openStream p device).sockets = s.sockets.forget [f] := by
  have hstream := s.reserveFCB_stream 1 p
  unfold openStream
  obtain ⟨t, hr⟩ | ⟨fid, f, t, hr, -⟩ := s.reserveFCB_one_cases p
  · rw [hr] at hstream ⊢
    exact .inl (sockets_files hstream)
  · rw [hr] at hstream ⊢
    cases device with
    | none => exact .inl (sockets_files (t := t.unreserveFCB p [(fid, f)]) hstream)
    | some st =>
      refine .inr ⟨f, ?_⟩
      simp only [sockets_openFCB, sockets_files hstream, hdevice st rfl]
      simp only [Sockets.forget, List.mem_singleton]
      congr 1
      funext g
      simp only [Function.update_apply]

theorem sockets_sysPipe {s s' : Streams} {p : Nat} {malloc : Bool}
    (h : s.sysPipe p malloc = some s') : s'.sockets = s.sockets ∨
      ∃ f₀ f₁, s'.sockets = (s.sockets.newPipe true).2.forget [f₀, f₁] := by
  have hstream := s.reserveFCB_stream 2 p
  unfold sysPipe at h
  obtain ⟨t, hr⟩ | ⟨i₀, f₀, i₁, f₁, t, hr⟩ := s.reserveFCB_two_cases p
  · rw [hr] at hstream h
    cases h
    exact .inl (sockets_files hstream)
  · rw [hr] at hstream h
    cases malloc with
    | false => exact absurd h (by simp [newPipe])
    | true =>
      simp only [newPipe, if_true, Option.some.injEq] at h
      subst h
      refine .inr ⟨f₀, f₁, ?_⟩
      have hfiles := sockets_files hstream
      rw [sockets_openFCB, sockets_openFCB]
      simp only [Sockets.forget, Sockets.newPipe, if_true, ← hfiles]
      simp only [Stream.socket?, sockets, setPipe]
      congr 1
      funext g
      simp only [Function.update_apply, List.mem_cons, List.not_mem_nil, or_false]
      grind

/-- `Socket`: the fid, if there is one, denotes the new SCB. -/
theorem sockets_sysSocket {s s' : Streams} {p : Nat} {port : Int} {malloc : Bool}
    {fid : Option Int} (h : s.sysSocket p port malloc = (fid, s')) :
    match fid with
    | none => s'.sockets = s.sockets
    | some fid => 0 ≤ port ∧ ∃ f, s'.sockets = s.sockets.create f port fid ∧
        s'.getFCB p fid = some f ∧ (s'.FT f).stream = some (.socket s.scbs) := by
  have hstream := s.reserveFCB_stream 1 p
  unfold sysSocket at h
  split at h
  · cases h
    rfl
  obtain ⟨t, hr⟩ | ⟨i, f, t, hr, hget⟩ := s.reserveFCB_one_cases p
  · rw [hr] at hstream h
    cases h
    exact sockets_files hstream
  · rename_i hport
    rw [hr] at hstream h
    have hfiles := sockets_files hstream
    cases malloc with
    | false =>
      cases h
      exact hfiles
    | true =>
      cases h
      refine ⟨by omega, f, ?_, hget, by simp [openFCB, FileTables.modifyFCB_FT]⟩
      simp only
      rw [sockets_openFCB]
      simp only [Sockets.create, ← hfiles]
      rfl

theorem sockets_popRequest (l r : Nat) (rs : List Nat) :
    (s.popRequest l r rs).sockets = s.sockets.popRequest l r rs := by
  unfold popRequest Sockets.popRequest
  rw [sockets_modifySCB, sockets_access, sockets_modifySCB]
  rfl

theorem sockets_connectPeers (k j r : Nat) (m : Mallocs) :
    (s.connectPeers k j r m).sockets = s.sockets.connectPeers k j r m := by
  obtain ⟨scb, receive, send⟩ := m
  unfold connectPeers
  rw [sockets_signalConn]
  cases receive <;> cases send <;> rfl

/-- Whether a server's SCB can be made does not depend on the sockets. -/
theorem sysSocket_fst {s₁ s₂ : Streams} (h : s₁.toFileTables = s₂.toFileTables) (p : Nat)
    (port : Int) (malloc : Bool) :
    (s₁.sysSocket p port malloc).1 = (s₂.sysSocket p port malloc).1 := by
  unfold sysSocket
  split
  · rfl
  · rw [h]
    cases s₂.reserveFCB 1 p with
    | mk o t =>
      split
      · split <;> rfl
      · rfl

/-- `sys_Accept` from its step 1 on. -/
theorem sockets_acceptRequest {s s' : Streams} {p l : Nat} {m : Mallocs}
    (h : s.acceptRequest p l m = some s') :
    ∃ r rs, (s.scb l).reqQueue = some (r :: rs) ∧
      ((s.sysSocket p (s.scb l).port m.scb).1 = none ∧
          s'.sockets = (s.sockets.popRequest l r rs).signalConn r ∨
        (s.sysSocket p (s.scb l).port m.scb).1 ≠ none ∧ ∃ f fid,
          s'.sockets = ((s.sockets.popRequest l r rs).create f (s.scb l).port fid).connectPeers
            s.scbs (s.req r).socket r m) := by
  unfold acceptRequest at h
  split at h
  case h_2 => exact absurd h (by simp)
  rename_i r rs hq
  refine ⟨r, rs, hq, ?_⟩
  simp only at h
  have hpop := s.sockets_popRequest l r rs
  have hport : ((s.popRequest l r rs).scb l).port = (s.scb l).port := by
    have hscb : (s.popRequest l r rs).scb = (s.sockets.popRequest l r rs).scb :=
      congrArg Sockets.scb hpop
    rw [hscb]
    simp only [Sockets.popRequest, Sockets.modifySCB, Function.update_apply]
    split <;> split <;> simp_all [sockets]
  have hscbs : (s.popRequest l r rs).scbs = s.scbs := congrArg Sockets.scbs hpop
  rw [hport] at h
  rw [← sysSocket_fst (quiet_popRequest s l r rs).files]
  cases hsock : (s.popRequest l r rs).sysSocket p (s.scb l).port m.scb with
  | mk o s₂ =>
    have hs₂ := sockets_sysSocket hsock
    rw [hsock] at h
    cases o with
    | none =>
      cases h
      refine .inl ⟨rfl, ?_⟩
      rw [sockets_signalConn, hs₂, hpop]
    | some fid =>
      obtain ⟨-, f, hs₂, hget, hst⟩ := hs₂
      refine .inr ⟨by simp, f, fid, ?_⟩
      simp only [hget, Option.bind_some, hst] at h
      cases h
      have hreq : s₂.req = s.req := by
        have hreq := congrArg Sockets.req hs₂
        rw [hpop] at hreq
        exact hreq
      rw [sockets_connectPeers, hs₂, hpop, hscbs, hreq]

/-! ## Reading and writing -/

section ReadWrite

variable {u : Nat} (hu : (s.pc u).socketPc = .busy)

include hu

theorem sockets_returnFrom (f : Nat) : (s.returnFrom u f).sockets = s.sockets :=
  @sockets_goto_busy s u (.returning f) hu rfl

theorem sockets_pipeReadStretch (f q size : Nat) :
    (s.pipeReadStretch u f q size).sockets = s.sockets := by
  unfold pipeReadStretch
  split
  · exact @sockets_goto_busy s u (.reading f q size false) hu rfl
  · rename_i b wake _
    have hwake : (if wake then (s.setPipe q b).broadcastHasSpace q else s.setPipe q b).sockets =
        s.sockets := by
      split <;> simp
    simp only
    rw [sockets_returnFrom, hwake]
    rw [← hu]
    exact congrFun (congrArg Sockets.pc hwake) u

theorem sockets_endWrite (f q : Nat) (buf : List Byte) (size : Nat) (w : WriteStretch) :
    (s.endWrite u f q buf size w).sockets = s.sockets := by
  unfold endWrite
  split
  · exact @sockets_goto_busy s u (.writing f q buf size false) hu rfl
  · rename_i b wake
    have hwake : (if wake then (s.setPipe q b).broadcastHasData q else s.setPipe q b).sockets =
        s.sockets := by
      split <;> simp
    simp only
    rw [sockets_returnFrom, hwake]
    rw [← hu]
    exact congrFun (congrArg Sockets.pc hwake) u

theorem sockets_serialReadStretch (f size : Nat) (data : Bool) :
    (s.serialReadStretch u f size data).sockets = s.sockets := by
  unfold serialReadStretch
  split
  · exact s.sockets_returnFrom hu f
  · exact @sockets_goto_busy s u (.serialReading f size false) hu rfl

end ReadWrite

theorem sockets_sysRead {s s' : Streams} {u : Nat} (hu : s.pc u = .running) {fd : Int}
    {size : Nat} {data : Bool} (h : s.sysRead u fd size data = some s') :
    s'.sockets = s.sockets := by
  have hbusy : (s.pc u).socketPc = .busy := by rw [hu]; rfl
  unfold sysRead at h
  split at h
  · cases h
    rfl
  rename_i f hf
  have hfiles := sockets_files (s := s) (s.increfFCB_stream f)
  have hbusy₁ : (({ s with toFileTables := s.increfFCB f } : Streams).pc u).socketPc = .busy :=
    hbusy
  simp only at h
  generalize ({ s with toFileTables := s.increfFCB f } : Streams) = s₁ at h hfiles hbusy₁
  split at h
  · exact absurd h (by simp)
  · cases h
    exact (sockets_returnFrom _ hbusy₁ f).trans hfiles
  · cases h
    exact (sockets_returnFrom _ hbusy₁ f).trans hfiles
  · obtain ⟨index, hi⟩ := s₁.infoRead_eq f size
    rw [hi] at h
    cases h
    exact (sockets_returnFrom { s₁ with infoIndex := index } hbusy₁ f).trans hfiles
  · cases h
    exact (sockets_serialReadStretch _ hbusy₁ ..).trans hfiles
  · cases h
    exact (sockets_pipeReadStretch _ hbusy₁ ..).trans hfiles
  · rename_i k _
    have hacc := (s₁.sockets_access k).trans hfiles
    have hbusy' : ((s₁.access k).pc u).socketPc = .busy := by
      rw [← hbusy]
      exact congrFun (congrArg Sockets.pc hacc) u
    split at h
    · cases h
      exact (sockets_pipeReadStretch _ hbusy' ..).trans hacc
    · cases h
      exact (sockets_returnFrom _ hbusy' f).trans hacc

theorem sockets_sysWrite {s s' : Streams} {u : Nat} (hu : s.pc u = .running) {fd : Int}
    {buf : List Byte} {size : Nat} (h : s.sysWrite u fd buf size = some s') :
    s'.sockets = s.sockets := by
  have hbusy : (s.pc u).socketPc = .busy := by rw [hu]; rfl
  unfold sysWrite at h
  split at h
  · cases h
    rfl
  rename_i f hf
  have hfiles := sockets_files (s := s) (s.increfFCB_stream f)
  have hbusy₁ : (({ s with toFileTables := s.increfFCB f } : Streams).pc u).socketPc = .busy :=
    hbusy
  simp only at h
  generalize ({ s with toFileTables := s.increfFCB f } : Streams) = s₁ at h hfiles hbusy₁
  split at h
  · exact absurd h (by simp)
  · cases h
    exact (sockets_returnFrom _ hbusy₁ f).trans hfiles
  · cases h
    exact (sockets_returnFrom _ hbusy₁ f).trans hfiles
  · cases h
    exact (sockets_returnFrom _ hbusy₁ f).trans hfiles
  · cases h
    exact (sockets_returnFrom _ hbusy₁ f).trans hfiles
  · cases h
    exact (sockets_endWrite _ hbusy₁ ..).trans hfiles
  · rename_i k _
    have hacc := (s₁.sockets_access k).trans hfiles
    have hbusy' : ((s₁.access k).pc u).socketPc = .busy := by
      rw [← hbusy]
      exact congrFun (congrArg Sockets.pc hacc) u
    split at h
    · cases h
      exact (sockets_endWrite _ hbusy' ..).trans hacc
    · cases h
      exact (sockets_returnFrom _ hbusy' f).trans hacc

theorem sockets_spawnThread (p : Nat) : (s.spawnThread p).sockets = s.sockets.spawn := by
  have hgoto := s.sockets_goto s.threads .running
  exact congrArg (fun n : Sockets => { n with threads := s.threads + 1 }) hgoto

end Streams

end TinyOS
